/-
A CSR instruction in the decode slot.

The CSRs are read and written at the edge at which the instruction leaves the
decode slot.  `CsrSlot` collects what the write logic of `t5_aslu` sees of it
then: the CSR number, and the value it forms from the one it read.
-/
import Tra5.Pipeline.Slots
import Tra5.Datapath.Ordinary

namespace Tra5

open Rv32

variable {X : DontCare} {w a b : BitVec 32} {pc : BitVec 30}

/-! ## Fields of `dcp2` -/

theorem csrNum_of_dcp2 (w : BitVec 32) (y : BitVec 15) :
    (w.extractLsb 31 15 ++ y).extractLsb 31 20 = csrNum w := by
  refine BitVec.eq_of_getLsbD_eq (fun i hi => ?_)
  rw [csrNum, BitVec.getLsbD_extractLsb, BitVec.getLsbD_append, BitVec.getLsbD_extractLsb,
    BitVec.getLsbD_extractLsb]
  interval_cases i <;> simp

theorem rs1_of_dcp2 (w : BitVec 32) (y : BitVec 15) :
    (w.extractLsb 31 15 ++ y).extractLsb 19 15 = rs1 w := by
  refine BitVec.eq_of_getLsbD_eq (fun i hi => ?_)
  rw [rs1, BitVec.getLsbD_extractLsb, BitVec.getLsbD_append, BitVec.getLsbD_extractLsb,
    BitVec.getLsbD_extractLsb]
  interval_cases i <;> simp

theorem zero_append_eq_setWidth (x : BitVec 5) : 0#27 ++ x = x.setWidth 32 := by
  apply BitVec.eq_of_toNat_eq
  have := x.isLt
  rw [BitVec.toNat_append, BitVec.toNat_setWidth, BitVec.toNat_ofNat]
  simp only [Nat.zero_mod, Nat.zero_shiftLeft, Nat.zero_or]
  omega

/-! ## The decode registers -/

/-- The decode registers hold a CSR instruction that does `op` to the CSR `num`
with the operand `src`. -/
structure CsrSlot (X : DontCare) (d : Decode) (op : CsrOp) (num : BitVec 12) (src : BitVec 32) :
    Prop where
  dcsr : d.dcsr = true
  num : T5Aslu.csrNum d = num
  wcsr : ∀ old, T5Aslu.wcsr X d old = op.eval old src

theorem CsrSlot.wenable {d : Decode} {op : CsrOp} {num : BitVec 12} {src : BitVec 32}
    (h : CsrSlot X d op num src) (n : BitVec 12) : T5Aslu.wenable d n = (num == n) := by
  rw [T5Aslu.wenable, h.dcsr, h.num, Bool.and_true]

theorem csrSlot_of_encodes (X : DontCare) {op : CsrOp} {isImm : Bool} {r s : BitVec 5}
    {num : BitVec 12} (hw : Encodes w (.csr op isImm r s num)) :
    CsrSlot X (T5Ctrl.decode X pc w a b) op num (csrOperand isImm s a) := by
  cases hw.format with
  | csr h hf =>
    have hbits := bits_of_csr hf
    rw [T5Ctrl.decode_csr h hbits]
    refine ⟨rfl, csrNum_of_dcp2 w X.dcp2, fun old => ?_⟩
    have hmask : T5Aslu.mask
        { dexc := false, dcsr := true, dsub := false, dbra := false, djmp := false, dop1 := a
          dop2 := T5Ctrl.imm X 0b11100#5 w, dcp1 := pc ++ 0#2
          dcp2 := w.extractLsb 31 15 ++ X.dcp2, dfn3 := funct3 w, dfn7 := funct7 w
          dopc := 0b11100#5 } = csrOperand isImm (rs1 w) a := by
      have himm : (op.funct3 isImm).getLsbD 2 = isImm := by cases op <;> cases isImm <;> rfl
      simp only [T5Aslu.mask, rs1_of_dcp2, hf, himm, csrOperand]
      cases isImm with
      | false => rfl
      | true => exact zero_append_eq_setWidth (rs1 w)
    unfold T5Aslu.wcsr
    rw [hmask]
    simp only [hf]
    cases op <;> cases isImm <;> rfl

theorem csrOperand_of_zero {s : T5Rv32i} (hs : Reachable X s) {i : Input}
    (ha : s.advancing i = true) (isImm : Bool) (h0 : rs1 i.iwbDat = 0#5) :
    csrOperand isImm 0#5 (s.rs1d i.iwbDat) = 0#32 := by
  cases isImm with
  | true => rfl
  | false =>
    rw [(operands_of_advancing hs.running ha i.iwbDat).1]
    show s.commit.rs1d s.inst.fhart (rs1 i.iwbDat) = 0#32
    rw [h0]
    exact (hs.zeroClear _).1

theorem CsrSlot.wcsr_of_read {d : Decode} {op : CsrOp} {num : BitVec 12}
    (h : CsrSlot X d op num 0#32) (hop : op ≠ .write) (old : BitVec 32) :
    T5Aslu.wcsr X d old = old := by
  rw [h.wcsr]
  cases op with
  | write => exact absurd rfl hop
  | set => exact BitVec.or_zero
  | clear =>
    show old &&& ~~~ 0#32 = old
    rw [BitVec.not_zero, BitVec.and_allOnes]

theorem outcome_of_csr (X : DontCare) {op : CsrOp} {isImm : Bool} {r q : BitVec 5}
    {num : BitVec 12} (hw : Encodes w (.csr op isImm r q num)) (csr csr' : Csr)
    (dhart : BitVec 2) (dti : BitVec 32) (xpc : BitVec 30) :
    let d := T5Ctrl.decode X pc w a b
    let o := outcome X csr dti (T5Aslu.execute X dhart csr' d) (T5Data.advance d) xpc (rd w)
    o.wre = orR r ∧ o.rd = r ∧ o.value = T5Aslu.rcsr csr' dhart num := by
  intro d o
  have hnum : T5Aslu.csrNum d = num := (csrSlot_of_encodes X hw).num
  cases hw.format with
  | csr h hf =>
    have hopc : d.dopc = 0b11100#5 := h
    have hx : andR (T5Data.advance d).xstb = false :=
      (andR_pair _ _).trans (access_of_not_strobe (o := 0b11100#5) hopc rfl)
    refine ⟨?_, rfl, ?_⟩
    · show T5Back.writes (T5Data.advance d).xstb (rd w) d.dopc = orR (rd w)
      rw [T5Back.writes, hx, hopc, Bool.not_false, Bool.true_and]
      exact (Bool.and_true _).trans (Bool.and_true _)
    · show (outcome X csr dti (T5Aslu.execute X dhart csr' d) (T5Data.advance d) xpc (rd w)).value =
        T5Aslu.rcsr csr' dhart (csrNum w)
      have hne : d.dopc ≠ 0#5 := by rw [hopc]; decide
      rw [value_of_ne_load (x := T5Aslu.execute X dhart csr' d) hne,
        maluNext_csr (x := T5Aslu.execute X dhart csr' d) hopc, ← hnum]
      rfl

/-! ## The core -/

namespace T5Rv32i

def csrInputs (c : T5Rv32i) : T5Aslu.CsrInputs :=
  { xbra := c.aslu.xbra, xstb := c.data.xstb, xexc := c.aslu.xexc, xwre := c.data.xwre
    xbpc := c.aslu.xbpc, xoff := c.aslu.xoff, xepc := c.ctrl.xepc, dhart := c.inst.dhart }

theorem toCsr_step (X : DontCare) {c : T5Rv32i} {i : Input} (ha : c.advancing i = true) :
    (c.step X i).aslu.toCsr = T5Aslu.nextCsr X c.csrInputs c.ctrl.toDecode c.aslu.toCsr := by
  obtain ⟨hr, hs⟩ := advancing_iff.mp ha
  simp only [step, clocked, hr, hs, Bool.false_eq_true, if_false, if_true]
  rfl

def withDecode (c : T5Rv32i) (d : Decode) : T5Rv32i :=
  { c with ctrl := { c.ctrl with toDecode := d } }

theorem toCsr_step_withDecode (X : DontCare) {c : T5Rv32i} {i : Input}
    (ha : c.advancing i = true) (d : Decode) :
    ((c.withDecode d).step X i).aslu.toCsr = T5Aslu.nextCsr X c.csrInputs d c.aslu.toCsr :=
  toCsr_step X (c := c.withDecode d) ha

end T5Rv32i

section Core

variable {s d : T5Rv32i} {i : Input} {op : CsrOp} {isImm : Bool} {r q : BitVec 5} {num : BitVec 12}

theorem InDecode.csrSlot (hs : Reachable X s) (h : InDecode X s i d)
    (hw : Encodes i.iwbDat (.csr op isImm r q num)) :
    CsrSlot X d.ctrl.toDecode op num (csrOperand isImm q (s.rs1d i.iwbDat)) := by
  rw [h.toDecode hs.running (rv32_of_encodes hw)]
  exact csrSlot_of_encodes X hw

theorem InDecode.csrRead (hs : Reachable X s) (h : InDecode X s i d)
    (hw : Encodes i.iwbDat (.csr op isImm r 0#5 num)) :
    CsrSlot X d.ctrl.toDecode op num 0#32 := by
  have h0 : rs1 i.iwbDat = 0#5 := by
    generalize hq : (0#5 : BitVec 5) = q at hw
    cases hw.format with
    | csr => rfl
  rw [← csrOperand_of_zero hs h.advancing isImm h0]
  exact h.csrSlot hs hw

/-- The write port while a CSR instruction is in the memory slot: it carries the
value that the CSR had at the edge `k`, at which the instruction left the decode
slot. -/
theorem InDecode.csr_port {m : T5Rv32i} {k : Input} (hs : Reachable X s) (h : InDecode X s i d)
    (hw : Encodes i.iwbDat (.csr op isImm r q num)) (ha : d.advancing k = true)
    (hk : k.sysRst = false) (hm : Passage X s i (d.step X k) m) :
    m.back.mwre = orR r ∧ m.rd0a = r ∧ m.rd0d = T5Aslu.rcsr d.aslu.toCsr d.inst.dhart num := by
  have hrun := hs.running
  have hd := h.pipe hrun
  obtain ⟨-, l, -, hl⟩ := hm.pipes hrun
  rw [T5Rv32i.pipe_step_of_advancing X (h.running hrun).readSafe ha hk, hd] at hl
  obtain ⟨hwre, hrd, hval⟩ := port_of_pipe hl
  have hout := s.pipe.outcome_eq X k.sample l (rv32_of_encodes (w := i.sample.iwbDat) hw)
  rw [hwre, hrd, hval, hout]
  show _ ∧ _ ∧ _ = T5Aslu.rcsr d.pipe.aslu.toCsr d.pipe.inst.dhart num
  rw [hd]
  exact outcome_of_csr X hw _ _ _ _ _

end Core

end Tra5
