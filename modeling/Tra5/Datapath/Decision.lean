/-
The trap decision of the execute slot.

A jump, an exception and a return are told from `xbra`, a misaligned access from
`xstb`.  For a word that encodes an instruction the two say what the instruction
does: `takesTrap_decode` for the traps and `xbraNext_eq_one_iff` for the return.
-/
import Tra5.Datapath.Slot
import Tra5.Datapath.Decode
import Tra5.Datapath.Execute

namespace Tra5

open Rv32

variable {X : DontCare} {w a b : BitVec 32} {pc : BitVec 30}

/-! ## The code in `xbra` -/

/-- The value of `xbra` for an instruction: the upper bit redirects the fetch to
a computed address, the lower bit marks a trap or a return. -/
def branchCode (i : Instr) (pc a b : BitVec 32) : BitVec 2 :=
  match i with
  | .ecall | .ebreak => 0b11#2
  | .mret => 0b01#2
  | i => BitVec.ofBool (i.target pc a b).isSome ++ BitVec.ofBool (i.jumpMisaligned pc a b)

theorem isSome_of_jumpMisaligned {i : Instr} {pc : BitVec 32}
    (h : i.jumpMisaligned pc a b = true) : (i.target pc a b).isSome = true := by
  rw [Instr.jumpMisaligned] at h
  cases ht : i.target pc a b with
  | none => rw [ht] at h; exact Bool.noConfusion h
  | some t => rfl

theorem not_alignedTo_two (x : BitVec 32) : (!alignedTo 2 x) = orR (x.extractLsb 1 0) := by
  rw [Bool.eq_iff_iff, Bool.not_eq_true', orR, bne_iff_ne, ne_eq, ← alignedTo_two_iff,
    Bool.not_eq_true]

theorem orR_low_of_even {x : BitVec 32} (h : x.getLsbD 0 = false) :
    orR (x.extractLsb 1 0) = x.getLsbD 1 := by
  rw [Bool.eq_iff_iff, orR, bne_iff_ne, ne_eq, low_eq_zero_iff, h]
  simp

theorem jal_target_even (pc : BitVec 30) (w : BitVec 32) :
    (byteAdr pc + immJ w).getLsbD 0 = false := by
  have hlow := congrArg (·.getLsbD 0) (low_byteAdr_add pc (immJ w))
  have hj : ((immJ w).extractLsb 1 0).getLsbD 0 = false := by
    rw [BitVec.getLsbD_extractLsb, immJ, BitVec.getLsbD_signExtend,
      BitVec.getLsbD_append]
    simp
  rw [← hj, ← hlow]
  simp

theorem xbraNext_of_not_exc {d : Decode} (h : d.dexc = false) :
    T5Aslu.xbraNext d = BitVec.ofBool (T5Aslu.wbra d) ++ BitVec.ofBool (T5Aslu.balign d) := by
  rw [T5Aslu.xbraNext, h, Bool.false_and, Bool.or_false, Bool.or_false]

theorem balign_eq_of_jump {d : Decode} (hb : d.dbra = false) (hj : d.djmp = true) :
    T5Aslu.balign d = (T5Aslu.xadr d).getLsbD 1 := by
  rw [T5Aslu.balign, hb, hj, Bool.and_false, Bool.false_and, Bool.false_or, Bool.true_and]

theorem balign_eq_of_branch {d : Decode} (hb : d.dbra = true) (hj : d.djmp = false) :
    T5Aslu.balign d = (orR ((T5Aslu.xadr d).extractLsb 1 0) && T5Aslu.xcmp d) := by
  rw [T5Aslu.balign, hb, hj, Bool.and_true, Bool.false_and, Bool.or_false]

theorem xbraNext_of_straight {d : Decode} {o : BitVec 5} (he : d.dexc = false)
    (hb : d.dbra = false) (hj : d.djmp = false) (ho : d.dopc = o)
    (h : T5Aslu.branchOpc o = false) :
    T5Aslu.xbraNext d = BitVec.ofBool false ++ BitVec.ofBool false := by
  rw [xbraNext_of_not_exc he, T5Aslu.wbra_of_not_branchOpc ho h, T5Aslu.balign_of_not hb hj]

theorem xbraNext_of_exc {d : Decode} (h : d.dexc = true) (ho : d.dopc = 0b11100#5) :
    T5Aslu.xbraNext d = BitVec.ofBool (!d.dcp2.getLsbD 21) ++ 0b1#1 := by
  rw [T5Aslu.xbraNext, h, T5Aslu.wbra_of_not_branchOpc (o := 0b11100#5) ho rfl, Bool.true_and,
    Bool.false_or, Bool.or_true]
  rfl

theorem bit21_of_dcp2 (w : BitVec 32) (y : BitVec 15) :
    (w.extractLsb 31 15 ++ y).getLsbD 21 = w.getLsbD 21 := by
  rw [BitVec.getLsbD_append]
  simp

theorem xbraNext_of_encodes (X : DontCare) {i : Instr} (hw : Encodes w i) :
    T5Aslu.xbraNext (T5Ctrl.decode X pc w a b) = branchCode i (byteAdr pc) a b := by
  cases hw.format with
  | lui h =>
    rw [T5Ctrl.decode_lui h]
    exact xbraNext_of_straight (o := 0b01101#5) rfl rfl rfl rfl rfl
  | auipc h =>
    rw [T5Ctrl.decode_auipc h]
    exact xbraNext_of_straight (o := 0b00101#5) rfl rfl rfl rfl rfl
  | opImm h =>
    rw [T5Ctrl.decode_opImm h]
    exact xbraNext_of_straight (o := 0b00100#5) rfl rfl rfl rfl rfl
  | opReg h =>
    rw [T5Ctrl.decode_opReg h]
    exact xbraNext_of_straight (o := 0b01100#5) rfl rfl rfl rfl rfl
  | fence h | fenceI h =>
    rw [T5Ctrl.decode_miscMem h]
    exact xbraNext_of_straight (o := 0b00011#5) rfl rfl rfl rfl rfl
  | load h =>
    rw [T5Ctrl.decode_load h]
    exact xbraNext_of_straight (o := 0b00000#5) rfl rfl rfl rfl rfl
  | store h =>
    rw [T5Ctrl.decode_store h]
    exact xbraNext_of_straight (o := 0b01000#5) rfl rfl rfl rfl rfl
  | @csr op isImm h hf =>
    have hbits := bits_of_csr hf
    rw [T5Ctrl.decode_csr h hbits]
    exact xbraNext_of_straight (o := 0b11100#5) rfl rfl rfl rfl rfl
  | jal h =>
    have heven := orR_low_of_even (jal_target_even pc w)
    rw [T5Ctrl.decode_jal h, xbraNext_of_not_exc rfl, balign_eq_of_jump rfl rfl,
      T5Aslu.wbra_of_jump (o := 0b11011#5) rfl rfl rfl]
    simp only [branchCode, Instr.jumpMisaligned, Instr.target, Option.any_some, not_alignedTo_two,
      heven]
    rfl
  | jalr h =>
    have heven : orR (((a + immI w) &&& ~~~ 1#32).extractLsb 1 0) = (a + immI w).getLsbD 1 := by
      rw [orR_low_of_even (by simp)]
      simp
    rw [T5Ctrl.decode_jalr h, xbraNext_of_not_exc rfl, balign_eq_of_jump rfl rfl,
      T5Aslu.wbra_of_jump (o := 0b11001#5) rfl rfl rfl]
    simp only [branchCode, Instr.jumpMisaligned, Instr.target, Option.any_some, not_alignedTo_two,
      heven]
    rfl
  | @branch op h hf =>
    rw [T5Ctrl.decode_branch h, xbraNext_of_not_exc rfl, T5Aslu.wbra_of_branch rfl,
      balign_eq_of_branch rfl rfl, T5Aslu.xcmp_eq_taken rfl hf]
    simp only [branchCode, Instr.jumpMisaligned, Instr.target]
    cases op.taken a b with
    | false => rw [Bool.and_false]; rfl
    | true =>
      rw [Bool.and_true, if_pos rfl, Option.any_some, not_alignedTo_two]
      rfl
  | ecall h | ebreak h | mret h =>
    subst h
    rw [T5Ctrl.decode_exc rfl rfl, xbraNext_of_exc rfl rfl]
    simp only [bit21_of_dcp2]
    rfl

/-! ## Accesses -/

theorem strobe_of_encodes {i : Instr} (hw : Encodes w i) :
    T5Data.strobe (opcode w) = i.isMemory := by
  cases hw.format with
  | lui h | auipc h | jal h | jalr h | branch h | load h | store h | opImm h | opReg h | fence h
  | fenceI h | csr h => rw [h]; rfl
  | ecall h | ebreak h | mret h => rw [h]; rfl

/-- The two low bits of an address decide every alignment the core checks. -/
theorem alignedTo_eq_low {k : Nat} (hk : k ≤ 2) (x : BitVec 32) :
    alignedTo k x = ((x.extractLsb 1 0).toNat % 2 ^ k == 0) := by
  rw [alignedTo, BitVec.extractLsb_toNat, Nat.shiftRight_zero]
  have h : x.toNat % 2 ^ (1 - 0 + 1) % 2 ^ k = x.toNat % 2 ^ k :=
    Nat.mod_mod_of_dvd _ (Nat.pow_dvd_pow 2 hk)
  rw [h]

theorem xoff_eq (d : Decode) : T5Data.xoff d = (T5Aslu.xadr d).extractLsb 1 0 := by
  rw [T5Data.xoff, T5Aslu.xadr, BitVec.extractLsb, BitVec.extractLsb, BitVec.extractLsb,
    BitVec.extractLsb'_add (by omega)]

theorem misaligned_load {d : Decode} {op : Load} (hf : d.dfn3 = op.funct3) :
    T5Data.misaligned (T5Data.lane d) = !alignedTo op.log2Size (T5Aslu.xadr d) := by
  rw [T5Data.lane, xoff_eq, hf, alignedTo_eq_low (by cases op <;> decide)]
  generalize (T5Aslu.xadr d).extractLsb 1 0 = y
  revert y
  cases op <;> decide

theorem misaligned_store {d : Decode} {op : Store} (hf : d.dfn3 = op.funct3) :
    T5Data.misaligned (T5Data.lane d) = !alignedTo op.log2Size (T5Aslu.xadr d) := by
  rw [T5Data.lane, xoff_eq, hf, alignedTo_eq_low (by cases op <;> decide)]
  generalize (T5Aslu.xadr d).extractLsb 1 0 = y
  revert y
  cases op <;> decide

theorem access_of_not_strobe {d : Decode} {o : BitVec 5} (ho : d.dopc = o)
    (h : T5Data.strobe o = false) :
    (T5Data.strobe d.dopc && T5Data.misaligned (T5Data.lane d)) = false := by
  rw [ho, h, Bool.false_and]

theorem andR_xstb_of_encodes (X : DontCare) {i : Instr} (hw : Encodes w i) :
    andR (T5Data.advance (T5Ctrl.decode X pc w a b)).xstb = i.accessMisaligned a := by
  rw [T5Data.advance, andR_pair]
  cases hw.format with
  | load h hf =>
    have hs : T5Data.strobe 0b00000#5 = true := rfl
    rw [T5Ctrl.decode_load h, misaligned_load hf]
    show (T5Data.strobe 0b00000#5 && _) = _
    rw [hs, Bool.true_and]
    rfl
  | store h hf =>
    have hs : T5Data.strobe 0b01000#5 = true := rfl
    rw [T5Ctrl.decode_store h, misaligned_store hf]
    show (T5Data.strobe 0b01000#5 && _) = _
    rw [hs, Bool.true_and]
    rfl
  | lui h | auipc h | jal h | jalr h | branch h | opImm h | opReg h | fence h | fenceI h | csr h =>
    exact access_of_not_strobe h rfl
  | ecall h | ebreak h | mret h =>
    subst h
    exact access_of_not_strobe (o := 0b11100#5) rfl rfl

/-! ## Traps and returns -/

theorem takesTrap_decode (X : DontCare) {i : Instr} (hw : Encodes w i) :
    (andR (T5Aslu.xbraNext (T5Ctrl.decode X pc w a b)) ||
      andR (T5Data.advance (T5Ctrl.decode X pc w a b)).xstb) = i.traps (byteAdr pc) a b := by
  rw [xbraNext_of_encodes X hw, andR_xstb_of_encodes X hw]
  cases i with
  | ecall | ebreak | mret => rfl
  | lui | auipc | load | store | opImm | opReg | fence | fenceI | csr =>
    simp only [branchCode, Instr.traps, Instr.jumpMisaligned, Instr.target, andR_pair,
      Option.isSome_none, Bool.false_and, Option.any_none]
  | jal | jalr =>
    simp only [branchCode, Instr.traps, andR_pair, Instr.target, Option.isSome_some, Bool.true_and]
  | branch op q r imm =>
    simp only [branchCode, Instr.traps, andR_pair, Instr.jumpMisaligned, Instr.target]
    cases op.taken a b <;> simp

theorem xbraNext_eq_one_iff (X : DontCare) {i : Instr} (hw : Encodes w i) :
    T5Aslu.xbraNext (T5Ctrl.decode X pc w a b) = 0b01#2 ↔ i = .mret := by
  rw [xbraNext_of_encodes X hw]
  refine ⟨fun h => ?_, fun h => by rw [h]; rfl⟩
  have hpair {p q : Bool} (hpq : q = true → p = true) :
      BitVec.ofBool p ++ BitVec.ofBool q ≠ 0b01#2 := by
    cases p <;> cases q <;> simp_all
  cases i with
  | mret => rfl
  | ecall | ebreak => exact absurd (show (0b11#2 : BitVec 2) = 0b01#2 from h) (by decide)
  | lui | auipc | jal | jalr | branch | load | store | opImm | opReg | fence | fenceI | csr =>
    exact absurd h (hpair isSome_of_jumpMisaligned)

end Tra5
