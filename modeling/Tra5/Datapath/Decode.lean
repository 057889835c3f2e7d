/-
The decoder on the RV32I formats.

The immediate decoder of `t5_ctrl` builds each immediate from slices that the
formats share.  For a word of one format the result is the immediate of that
format, and the decode registers take the values listed here, one theorem per
opcode.
-/
import Tra5.Rtl.Ctrl
import Tra5.Isa.Exec
import Mathlib.Tactic.IntervalCases

namespace Tra5
namespace T5Ctrl

open Rv32

variable {X : DontCare} {w a b : BitVec 32} {pc : BitVec 30} {o : BitVec 5}

/-! ## Immediates

Each proof compares the two sides bit by bit. -/

theorem imm_itype (hi : itype o = true) (hs : stype o = false) (hb : btype o = false)
    (hu : utype o = false) (hj : jtype o = false) : imm X o w = immI w := by
  simp only [imm, imm0, imm41, imm105, imm11, imm1912, imm3020, immI, hi, hs, hb, hu, hj,
    Bool.or_false, Bool.or_self, Bool.false_eq_true, if_false]
  refine BitVec.eq_of_getLsbD_eq (fun i hi => ?_)
  rw [BitVec.getLsbD_signExtend, BitVec.msb_eq_getLsbD_last]
  repeat rw [BitVec.getLsbD_append]
  interval_cases i <;> simp

theorem imm_stype (hi : itype o = false) (hs : stype o = true) (hb : btype o = false)
    (hu : utype o = false) (hj : jtype o = false) : imm X o w = immS w := by
  simp only [imm, imm0, imm41, imm105, imm11, imm1912, imm3020, immS, hi, hs, hb, hu, hj,
    Bool.or_false, Bool.or_self, Bool.false_eq_true, if_false]
  refine BitVec.eq_of_getLsbD_eq (fun i hi => ?_)
  rw [BitVec.getLsbD_signExtend, BitVec.msb_eq_getLsbD_last]
  repeat rw [BitVec.getLsbD_append]
  interval_cases i <;> simp

theorem imm_btype (hi : itype o = false) (hs : stype o = false) (hb : btype o = true)
    (hu : utype o = false) (hj : jtype o = false) : imm X o w = immB w := by
  simp only [imm, imm0, imm41, imm105, imm11, imm1912, imm3020, immB, hi, hs, hb, hu, hj,
    Bool.or_true, Bool.or_self, Bool.false_eq_true, if_false]
  refine BitVec.eq_of_getLsbD_eq (fun i hi => ?_)
  rw [BitVec.getLsbD_signExtend, BitVec.msb_eq_getLsbD_last]
  repeat rw [BitVec.getLsbD_append]
  interval_cases i <;> simp

theorem imm_utype (hi : itype o = false) (hs : stype o = false) (hb : btype o = false)
    (hu : utype o = true) (hj : jtype o = false) : imm X o w = immU w := by
  simp only [imm, imm0, imm41, imm105, imm11, imm1912, imm3020, immU, hi, hs, hb, hu, hj,
    Bool.or_false, Bool.or_self, if_true]
  refine BitVec.eq_of_getLsbD_eq (fun i hi => ?_)
  repeat rw [BitVec.getLsbD_append]
  interval_cases i <;> simp

theorem imm_jtype (hi : itype o = false) (hs : stype o = false) (hb : btype o = false)
    (hu : utype o = false) (hj : jtype o = true) : imm X o w = immJ w := by
  simp only [imm, imm0, imm41, imm105, imm11, imm1912, imm3020, immJ, hi, hs, hb, hu, hj,
    Bool.or_true, Bool.or_self, Bool.false_eq_true, if_false, if_true]
  refine BitVec.eq_of_getLsbD_eq (fun i hi => ?_)
  rw [BitVec.getLsbD_signExtend, BitVec.msb_eq_getLsbD_last]
  repeat rw [BitVec.getLsbD_append]
  interval_cases i <;> simp

/-! ## Decode registers

A test of a format is a closed term once the opcode is known, so each of these
is an evaluation of the decoder. -/

theorem dsub_itype (hb : btype o = false) (hr : rtype o = false) (hi : itype o = true) :
    (btype o || (rtype o && (w.getLsbD 13 || w.getLsbD 30)) || (itype o && w.getLsbD 13)) =
      w.getLsbD 13 := by
  rw [hb, hr, hi, Bool.false_and, Bool.true_and, Bool.false_or, Bool.false_or]

theorem decode_lui (h : opcode w = 0b01101#5) :
    decode X pc w a b =
      { dexc := false, dcsr := false, dsub := false, dbra := false, djmp := false
        dcp1 := pc ++ 0#2, dcp2 := immU w, dop1 := 0#32, dop2 := immU w
        dfn3 := funct3 w, dfn7 := funct7 w, dopc := 0b01101#5 } := by
  have ho : opc w = 0b01101#5 := h
  have himm : imm X 0b01101#5 w = immU w := imm_utype rfl rfl rfl rfl rfl
  simp only [decode, ho, himm]
  rfl

theorem decode_auipc (h : opcode w = 0b00101#5) :
    decode X pc w a b =
      { dexc := false, dcsr := false, dsub := false, dbra := false, djmp := false
        dcp1 := pc ++ 0#2, dcp2 := immU w, dop1 := 0#32, dop2 := immU w
        dfn3 := funct3 w, dfn7 := funct7 w, dopc := 0b00101#5 } := by
  have ho : opc w = 0b00101#5 := h
  have himm : imm X 0b00101#5 w = immU w := imm_utype rfl rfl rfl rfl rfl
  simp only [decode, ho, himm]
  rfl

theorem decode_jal (h : opcode w = 0b11011#5) :
    decode X pc w a b =
      { dexc := false, dcsr := false, dsub := false, dbra := false, djmp := true
        dcp1 := pc ++ 0#2, dcp2 := immJ w, dop1 := 0#32, dop2 := immJ w
        dfn3 := funct3 w, dfn7 := funct7 w, dopc := 0b11011#5 } := by
  have ho : opc w = 0b11011#5 := h
  have himm : imm X 0b11011#5 w = immJ w := imm_jtype rfl rfl rfl rfl rfl
  simp only [decode, ho, himm]
  rfl

theorem decode_jalr (h : opcode w = 0b11001#5) :
    decode X pc w a b =
      { dexc := false, dcsr := false, dsub := w.getLsbD 13, dbra := false, djmp := true
        dcp1 := a, dcp2 := immI w, dop1 := a, dop2 := immI w
        dfn3 := funct3 w, dfn7 := funct7 w, dopc := 0b11001#5 } := by
  have ho : opc w = 0b11001#5 := h
  have himm : imm X 0b11001#5 w = immI w := imm_itype rfl rfl rfl rfl rfl
  have hj : (jtype 0b11001#5 || itype 0b11001#5 && (0b11001#5).getLsbD 4) = true := rfl
  simp only [decode, ho, himm, hj, dsub_itype (o := 0b11001#5) rfl rfl rfl]
  rfl

theorem decode_branch (h : opcode w = 0b11000#5) :
    decode X pc w a b =
      { dexc := false, dcsr := false, dsub := true, dbra := true, djmp := false
        dcp1 := pc ++ 0#2, dcp2 := immB w, dop1 := a, dop2 := b
        dfn3 := funct3 w, dfn7 := funct7 w, dopc := 0b11000#5 } := by
  have ho : opc w = 0b11000#5 := h
  have himm : imm X 0b11000#5 w = immB w := imm_btype rfl rfl rfl rfl rfl
  simp only [decode, ho, himm]
  rfl

theorem decode_load (h : opcode w = 0b00000#5) :
    decode X pc w a b =
      { dexc := false, dcsr := false, dsub := w.getLsbD 13, dbra := false, djmp := false
        dcp1 := a, dcp2 := immI w, dop1 := a, dop2 := immI w
        dfn3 := funct3 w, dfn7 := funct7 w, dopc := 0b00000#5 } := by
  have ho : opc w = 0b00000#5 := h
  have himm : imm X 0b00000#5 w = immI w := imm_itype rfl rfl rfl rfl rfl
  have hj : (jtype 0b00000#5 || itype 0b00000#5 && (0b00000#5).getLsbD 4) = false := rfl
  simp only [decode, ho, himm, hj, dsub_itype (o := 0b00000#5) rfl rfl rfl]
  rfl

theorem decode_store (h : opcode w = 0b01000#5) :
    decode X pc w a b =
      { dexc := false, dcsr := false, dsub := false, dbra := false, djmp := false
        dcp1 := a, dcp2 := immS w, dop1 := 0#32, dop2 := b
        dfn3 := funct3 w, dfn7 := funct7 w, dopc := 0b01000#5 } := by
  have ho : opc w = 0b01000#5 := h
  have himm : imm X 0b01000#5 w = immS w := imm_stype rfl rfl rfl rfl rfl
  simp only [decode, ho, himm]
  rfl

theorem decode_opImm (h : opcode w = 0b00100#5) :
    decode X pc w a b =
      { dexc := false, dcsr := false, dsub := w.getLsbD 13, dbra := false, djmp := false
        dcp1 := a, dcp2 := immI w, dop1 := a, dop2 := immI w
        dfn3 := funct3 w, dfn7 := funct7 w, dopc := 0b00100#5 } := by
  have ho : opc w = 0b00100#5 := h
  have himm : imm X 0b00100#5 w = immI w := imm_itype rfl rfl rfl rfl rfl
  have hj : (jtype 0b00100#5 || itype 0b00100#5 && (0b00100#5).getLsbD 4) = false := rfl
  simp only [decode, ho, himm, hj, dsub_itype (o := 0b00100#5) rfl rfl rfl]
  rfl

theorem decode_opReg (h : opcode w = 0b01100#5) :
    decode X pc w a b =
      { dexc := false, dcsr := false, dsub := w.getLsbD 13 || w.getLsbD 30
        dbra := false, djmp := false
        dcp1 := pc ++ 0#2, dcp2 := imm X 0b01100#5 w, dop1 := a, dop2 := b
        dfn3 := funct3 w, dfn7 := funct7 w, dopc := 0b01100#5 } := by
  have ho : opc w = 0b01100#5 := h
  have hsub : (btype 0b01100#5 || (rtype 0b01100#5 && (w.getLsbD 13 || w.getLsbD 30)) ||
      (itype 0b01100#5 && w.getLsbD 13)) = (w.getLsbD 13 || w.getLsbD 30) := Bool.or_false _
  simp only [decode, ho, hsub]
  rfl

theorem decode_miscMem (h : opcode w = 0b00011#5) :
    decode X pc w a b =
      { dexc := false, dcsr := false, dsub := false, dbra := false, djmp := false
        dcp1 := pc ++ 0#2, dcp2 := imm X 0b00011#5 w, dop1 := 0#32, dop2 := imm X 0b00011#5 w
        dfn3 := funct3 w, dfn7 := funct7 w, dopc := 0b00011#5 } := by
  have ho : opc w = 0b00011#5 := h
  simp only [decode, ho]
  rfl

theorem decode_csr (h : opcode w = 0b11100#5) (hf : (w.getLsbD 13 || w.getLsbD 12) = true) :
    decode X pc w a b =
      { dexc := false, dcsr := true, dsub := false, dbra := false, djmp := false
        dcp1 := pc ++ 0#2, dcp2 := w.extractLsb 31 15 ++ X.dcp2
        dop1 := a, dop2 := imm X 0b11100#5 w
        dfn3 := funct3 w, dfn7 := funct7 w, dopc := 0b11100#5 } := by
  have ho : opc w = 0b11100#5 := h
  have hc : ctype 0b11100#5 w = true := hf
  have he : etype 0b11100#5 w = false := congrArg not hf
  simp only [decode, ho, hc, he]
  rfl

theorem decode_exc (h : opcode w = 0b11100#5) (hf : (w.getLsbD 13 || w.getLsbD 12) = false) :
    decode X pc w a b =
      { dexc := true, dcsr := false, dsub := false, dbra := false, djmp := false
        dcp1 := a, dcp2 := w.extractLsb 31 15 ++ X.dcp2, dop1 := 0#32, dop2 := imm X 0b11100#5 w
        dfn3 := funct3 w, dfn7 := funct7 w, dopc := 0b11100#5 } := by
  have ho : opc w = 0b11100#5 := h
  have hc : ctype 0b11100#5 w = false := hf
  have he : etype 0b11100#5 w = true := congrArg not hf
  simp only [decode, ho, hc, he]
  rfl

end T5Ctrl
end Tra5
