/-
The interrupt-enable stack `mie`, `mpie` of `mstatus`.

A trap pushes the stack, a return pops it and a write to `mstatus` replaces it.
The multiplexer of `t5_aslu` does so in the arms for `xbra` at `11` and `01`, but
every other edge takes the default arm, which loads the two bits from the CSR
write multiplexer whether or not the decode slot holds a CSR instruction.
-/
import Tra5.Trap.CsrSlot

namespace Tra5

open Rv32 T5Aslu

/-! ## Push, pop and write -/

/-- The CSR instruction in the decode registers only reads: it is `csrrs` or
`csrrc` with a source field of zero. -/
def pureRead (d : Decode) : Bool := d.dfn3.getLsbD 1 && d.dcp2.extractLsb 19 15 == 0#5

def writesMstatus (d : Decode) : Bool := wenable d csrMstatus && !pureRead d

def T5Aslu.CsrInputs.traps (e : CsrInputs) : Bool := andR e.xbra || andR e.xstb

def T5Aslu.CsrInputs.returns (e : CsrInputs) : Bool := e.xbra == 0b01#2

def Csr.stack (c : Csr) : Bool × Bool := (c.mpie, c.mie)

/-- The stack after an edge at which the execute slot has the signals `e` and the
decode slot forms the value `w` for the CSR it names. -/
def stackNext (e : CsrInputs) (d : Decode) (w : BitVec 32) (c : Csr) : Bool × Bool :=
  if writesMstatus d then (w.getLsbD 7, w.getLsbD 3)
  else if e.traps then (c.mie, false)
  else if e.returns then (true, c.mpie)
  else c.stack

/-! ## When the multiplexer is right -/

/-- Bits 7 and 3 of a word, the places of `mpie` and `mie` in `mstatus`. -/
def stackBits (v : BitVec 32) : Bool × Bool := (v.getLsbD 7, v.getLsbD 3)

/-- Bits 7 and 3 of the CSR with the number `num`. -/
def namedBits (c : Csr) (num : BitVec 12) : Bool × Bool :=
  if num = csrMhartid ∨ num = csrMisa then (false, false)
  else if num = csrMscratch then stackBits c.mscratch
  else if num = csrMedeleg then stackBits c.medeleg
  else if num = csrMepc then stackBits c.mepc
  else if num = csrMtval then stackBits c.mtval
  else if num = csrMtvec then stackBits c.mtvec
  else if num = csrMie ∨ num = csrMip then (true, false)
  else if num = csrMcause then (false, c.mcause.getLsbD 3)
  else if num = csrMstatus then c.stack
  else (false, false)

/-- What the function code `f` asks of a bit of the operand and of the bit of the CSR named
if the bit it forms is to be `v`.  The code 0 forms the bit `x` of the don't-care word. -/
def bitFits (f : BitVec 2) (x operand csr v : Bool) : Bool :=
  match f with
  | 1#2 => operand == v
  | 2#2 => if v then operand || csr else !operand && !csr
  | 3#2 => if v then csr && !operand else !csr || operand
  | _ => x == v

/-- The decode slot, whatever instruction it holds, happens to have the function code, the
operand and the CSR number that go with the stack `v`. -/
def stackFits (X : DontCare) (d : Decode) (c : Csr) (v : Bool × Bool) : Bool :=
  let f := d.dfn3.extractLsb 1 0
  let r := namedBits c (csrNum d)
  bitFits f (X.wcsr.getLsbD 7) ((mask d).getLsbD 7) r.1 v.1 &&
    bitFits f (X.wcsr.getLsbD 3) ((mask d).getLsbD 3) r.2 v.2

/-- The edges at which `t5_aslu` moves the stack as `stackNext` does.  A read of `mstatus` keeps
the stack and loses the trap or the return beside it, and without a CSR instruction that names
`mstatus` only `xbra` at `11` and `01` keeps the decode slot out. -/
def StackSound (X : DontCare) (e : CsrInputs) (d : Decode) (c : Csr) : Prop :=
  if wenable d csrMstatus then
    pureRead d = true →
      if e.traps then c.stack = (false, false) else e.returns = true → c.stack = (true, true)
  else if e.xbra = 0b11#2 then True
  else if e.xbra = 0b01#2 then andR e.xstb = true → c.stack = (false, true)
  else stackFits X d c (if andR e.xstb then (c.mie, false) else c.stack) = true

instance (X : DontCare) (e : CsrInputs) (d : Decode) (c : Csr) :
    Decidable (StackSound X e d c) := by
  delta StackSound
  infer_instance

theorem stackSound_of_writes {X : DontCare} {e : CsrInputs} {d : Decode} {c : Csr}
    (h : writesMstatus d = true) : StackSound X e d c := by
  rw [writesMstatus, Bool.and_eq_true, Bool.not_eq_true'] at h
  rw [StackSound, if_pos h.1, h.2]
  exact fun hr => Bool.noConfusion hr

theorem readMstatus_bits (c : Csr) : stackBits (readMstatus c) = c.stack := by
  unfold readMstatus Csr.stack
  generalize c.mpie = p, c.mie = q
  revert p q
  decide

theorem stackBits_rcsr (c : Csr) (h : BitVec 2) (num : BitVec 12) :
    stackBits (rcsr c h num) = namedBits c num := by
  have hhart : stackBits (0#30 ++ h) = (false, false) := by
    revert h
    decide
  have hcause : stackBits (0#28 ++ c.mcause) = (false, c.mcause.getLsbD 3) := by
    generalize c.mcause = v
    revert v
    decide
  have hmepc : stackBits (c.mepc.extractLsb 31 2 ++ 0#2) = stackBits c.mepc := by
    simp only [stackBits, BitVec.getLsbD_append, BitVec.getLsbD_extractLsb]
    rfl
  have hmisa : stackBits 0x40000100#32 = (false, false) := by decide
  have htimer : stackBits 0x00000080#32 = (true, false) := by decide
  have hzero : stackBits 0#32 = (false, false) := by decide
  simp only [rcsr, namedBits, apply_ite stackBits, hhart, hmisa, hmepc, htimer, hcause,
    readMstatus_bits, hzero]
  by_cases h1 : num = csrMhartid
  · rw [if_pos h1, if_pos (Or.inl h1)]
  · by_cases h2 : num = csrMisa
    · rw [if_neg h1, if_pos h2, if_pos (Or.inr h2)]
    · rw [if_neg h1, if_neg h2, if_neg (not_or.mpr ⟨h1, h2⟩)]

theorem bitFits_iff (X : DontCare) (d : Decode) (old : BitVec 32) {k : Nat} (hk : k < 32)
    (v : Bool) :
    bitFits (d.dfn3.extractLsb 1 0) (X.wcsr.getLsbD k) ((mask d).getLsbD k) (old.getLsbD k) v =
      true ↔ (wcsr X d old).getLsbD k = v := by
  unfold wcsr
  generalize d.dfn3.extractLsb 1 0 = f
  have hf : f = 0#2 ∨ f = 1#2 ∨ f = 2#2 ∨ f = 3#2 := by
    revert f
    decide
  rcases hf with rfl | rfl | rfl | rfl
  · exact beq_iff_eq
  · exact beq_iff_eq
  · show _ ↔ (old ||| mask d).getLsbD k = v
    rw [BitVec.getLsbD_or]
    generalize X.wcsr.getLsbD k = x, (mask d).getLsbD k = m, old.getLsbD k = r
    revert x m r v
    decide
  · show _ ↔ (old &&& ~~~ mask d).getLsbD k = v
    rw [BitVec.getLsbD_and, BitVec.getLsbD_not, decide_eq_true hk, Bool.true_and]
    generalize X.wcsr.getLsbD k = x, (mask d).getLsbD k = m, old.getLsbD k = r
    revert x m r v
    decide

theorem stackFits_iff (X : DontCare) (d : Decode) (c : Csr) (h : BitVec 2) (v : Bool × Bool) :
    stackFits X d c v = true ↔ stackBits (wcsr X d (rcsr c h (csrNum d))) = v := by
  have h7 := bitFits_iff X d (rcsr c h (csrNum d)) (show 7 < 32 by decide) v.1
  have h3 := bitFits_iff X d (rcsr c h (csrNum d)) (show 3 < 32 by decide) v.2
  rw [stackFits, ← stackBits_rcsr c h, Bool.and_eq_true, Prod.ext_iff]
  exact and_congr h7 h3

/-! ## Mere reads -/

theorem rs1_of_pureRead {d : Decode} (h : pureRead d = true) :
    d.dcp2.extractLsb 19 15 = 0#5 := by
  simp only [pureRead, Bool.and_eq_true, beq_iff_eq] at h
  exact h.2

theorem wcsr_of_pureRead {X : DontCare} {d : Decode} (h : pureRead d = true)
    (h0 : d.dfn3.getLsbD 2 = false → d.dop1 = 0#32) (old : BitVec 32) : wcsr X d old = old := by
  simp only [pureRead, Bool.and_eq_true, beq_iff_eq] at h
  have hmask : mask d = 0#32 := by
    rw [mask, h.2]
    cases h2 : d.dfn3.getLsbD 2 with
    | true => rfl
    | false => exact h0 h2
  have hfn : d.dfn3.extractLsb 1 0 = 2#2 ∨ d.dfn3.extractLsb 1 0 = 3#2 := by
    have h1 := h.1
    revert h1
    generalize d.dfn3 = f
    revert f
    decide
  unfold wcsr
  rw [hmask]
  rcases hfn with hf | hf <;> rw [hf]
  · exact BitVec.or_zero
  · show old &&& ~~~ 0#32 = old
    rw [BitVec.not_zero, BitVec.and_allOnes]

/-! ## The multiplexer -/

section Multiplexer

variable {e : CsrInputs} (w : BitVec 32) (c : Csr)

theorem nextMstatus_write (e : CsrInputs) :
    nextMstatus e true w c = (w.getLsbD 7, w.getLsbD 3) := by
  unfold nextMstatus
  split
  · contradiction
  · contradiction
  · rfl

theorem nextMstatus_trap (h : e.xbra = 0b11#2) : nextMstatus e false w c = (c.mie, false) := by
  unfold nextMstatus
  rw [h]
  rfl

theorem nextMstatus_return (h : e.xbra = 0b01#2) : nextMstatus e false w c = (true, c.mpie) := by
  unfold nextMstatus
  rw [h]
  rfl

theorem nextMstatus_default (ht : e.xbra ≠ 0b11#2) (hr : e.xbra ≠ 0b01#2) :
    nextMstatus e false w c = (w.getLsbD 7, w.getLsbD 3) := by
  unfold nextMstatus
  split
  · exact absurd ‹_› ht
  · exact absurd ‹_› hr
  · rfl

theorem traps_of_xbra (h : e.xbra = 0b11#2) : e.traps = true := by
  rw [CsrInputs.traps, h]
  rfl

theorem traps_of_return (h : e.xbra = 0b01#2) : e.traps = andR e.xstb := by
  rw [CsrInputs.traps, h]
  exact Bool.false_or _

theorem stackNext_of_not_writes {d : Decode} (hd : writesMstatus d = false) :
    stackNext e d w c = if e.traps then (c.mie, false)
      else if e.returns then (true, c.mpie) else c.stack := by
  rw [stackNext, if_neg (by rw [hd]; exact Bool.false_ne_true)]

/-- A read of `mstatus` loads the stack from itself. -/
theorem stack_eq_of_read {d : Decode} (hd : writesMstatus d = false) :
    c.stack = stackNext e d w c ↔
      if e.traps then c.stack = (false, false) else e.returns = true → c.stack = (true, true) := by
  rw [stackNext_of_not_writes w c hd, Csr.stack]
  cases e.traps <;> cases e.returns <;> cases c.mpie <;> cases c.mie <;> decide

theorem nextMstatus_eq_stackNext_iff (X : DontCare) {d : Decode}
    (hz : csrNum d = csrMstatus → d.dcp2.extractLsb 19 15 = 0#5 → d.dop1 = 0#32) :
    let w := wcsr X d (rcsr c e.dhart (csrNum d))
    nextMstatus e (wenable d csrMstatus) w c = stackNext e d w c ↔ StackSound X e d c := by
  intro w
  rw [StackSound]
  cases hwen : wenable d csrMstatus with
  | true =>
    rw [nextMstatus_write, if_pos rfl]
    cases hr : pureRead d with
    | false =>
      have hw : writesMstatus d = true := by rw [writesMstatus, hwen, hr]; rfl
      rw [stackNext, if_pos hw]
      exact iff_of_true rfl (fun h => Bool.noConfusion h)
    | true =>
      have hw : writesMstatus d = false := by rw [writesMstatus, hwen, hr]; rfl
      simp only [wenable, Bool.and_eq_true, beq_iff_eq] at hwen
      have hval : stackBits w = c.stack := by
        have hread := wcsr_of_pureRead (X := X) hr (fun _ => hz hwen.1 (rs1_of_pureRead hr))
        rw [show w = _ from hread _, stackBits_rcsr, hwen.1]
        rfl
      rw [show (w.getLsbD 7, w.getLsbD 3) = c.stack from hval, stack_eq_of_read w c hw]
      exact ⟨fun h _ => h, fun h => h rfl⟩
  | false =>
    have hw : writesMstatus d = false := by rw [writesMstatus, hwen, Bool.false_and]
    rw [if_neg Bool.false_ne_true, stackNext_of_not_writes w c hw]
    by_cases ht : e.xbra = 0b11#2
    · rw [nextMstatus_trap w c ht, if_pos (traps_of_xbra ht), if_pos ht]
      exact iff_of_true rfl trivial
    · rw [if_neg ht]
      by_cases hr : e.xbra = 0b01#2
      · have hret : e.returns = true := beq_iff_eq.mpr hr
        rw [nextMstatus_return w c hr, if_pos hr, traps_of_return hr, hret, if_pos rfl, Csr.stack]
        -- A misaligned access and a return at once take the arm of the return.
        cases andR e.xstb <;> cases c.mpie <;> cases c.mie <;> decide
      · have hret : e.returns = false := beq_false_of_ne hr
        have htraps : e.traps = andR e.xstb := by
          rw [CsrInputs.traps, show andR e.xbra = false from beq_false_of_ne ht, Bool.false_or]
        rw [nextMstatus_default w c ht hr, if_neg hr, htraps, hret, if_neg Bool.false_ne_true,
          stackFits_iff X d c e.dhart]
        rfl

end Multiplexer

/-! ## The operand of a mere read -/

theorem imm_high (X : DontCare) (o : BitVec 5) (w : BitVec 32) :
    (T5Ctrl.imm X o w).extractLsb 31 20 =
      BitVec.ofBool (w.getLsbD 31) ++ T5Ctrl.imm3020 o w := by
  refine BitVec.eq_of_getLsbD_eq (fun i hi => ?_)
  rw [T5Ctrl.imm, BitVec.getLsbD_extractLsb]
  simp only [BitVec.getLsbD_append]
  interval_cases i <;> simp

theorem dop1_of_decode (X : DontCare) {pc : BitVec 30} {w a b : BitVec 32}
    (ha : rs1 w = 0#5 → a = 0#32) (hnum : csrNum (T5Ctrl.decode X pc w a b) = csrMstatus)
    (hrs1 : (T5Ctrl.decode X pc w a b).dcp2.extractLsb 19 15 = 0#5) :
    (T5Ctrl.decode X pc w a b).dop1 = 0#32 := by
  by_cases hsys : (T5Ctrl.ctype (T5Ctrl.opc w) w || T5Ctrl.etype (T5Ctrl.opc w) w) = true
  · have hcp2 : (T5Ctrl.decode X pc w a b).dcp2 = w.extractLsb 31 15 ++ X.dcp2 := if_pos hsys
    rw [hcp2, rs1_of_dcp2] at hrs1
    show (if _ then a else 0#32) = 0#32
    rw [ha hrs1, ite_self]
  · -- The number is then in an immediate, and only that of a `lui` or an `auipc` has room for it.
    have hcp2 : (T5Ctrl.decode X pc w a b).dcp2 = T5Ctrl.imm X (T5Ctrl.opc w) w := if_neg hsys
    rw [T5Aslu.csrNum, hcp2, imm_high, T5Ctrl.imm3020] at hnum
    cases hu : T5Ctrl.utype (T5Ctrl.opc w) with
    | false =>
      rw [hu, if_neg Bool.false_ne_true] at hnum
      exact absurd hnum (by cases w.getLsbD 31 <;> decide)
    | true =>
      have hnone : ∀ o : BitVec 5, T5Ctrl.utype o = true →
          (T5Ctrl.rtype o || T5Ctrl.itype o || T5Ctrl.btype o) = false := by decide
      rw [Bool.or_eq_true, not_or, Bool.not_eq_true] at hsys
      show (if (T5Ctrl.rtype (T5Ctrl.opc w) || T5Ctrl.itype (T5Ctrl.opc w) ||
        T5Ctrl.btype (T5Ctrl.opc w) || T5Ctrl.ctype (T5Ctrl.opc w) w) then a else 0#32) = 0#32
      rw [hnone _ hu, hsys.1, Bool.false_or, if_neg Bool.false_ne_true]

/-- The number of `mstatus` in the decode registers may be left from an earlier word.  In any
case a source field of zero goes with the operand zero. -/
def Pipe.StatusOperand (p : Pipe) : Prop :=
  csrNum p.ctrl.toDecode = csrMstatus → p.ctrl.dcp2.extractLsb 19 15 = 0#5 →
    p.ctrl.dop1 = 0#32

theorem Pipe.StatusOperand.advance {X : DontCare} {p : Pipe} (h : p.StatusOperand)
    (hz : p.gprf.ZeroClear) (k : Sample) : (p.advance X k).StatusOperand := by
  cases hk : T5Ctrl.rv32 k.iwbDat with
  | true =>
    intro hnum hrs1
    rw [p.advance_ctrl_of_rv32 X hk] at hnum hrs1 ⊢
    refine dop1_of_decode X (fun h0 => ?_) hnum hrs1
    show p.gprf.rs1d p.inst.fhart (rs1 k.iwbDat) = 0#32
    rw [h0]
    exact (hz _).1
  | false =>
    have hctrl : (p.advance X k).ctrl = T5Ctrl.advance X (p.inst.fpc.extractLsb 31 2) k.iwbDat
      (p.rs1d k.iwbDat) (p.rs2d k.iwbDat) p.ctrl := rfl
    rw [StatusOperand, hctrl, T5Ctrl.advance, if_neg (by rw [hk]; exact Bool.false_ne_true)]
    exact h

theorem Reachable.statusOperand {X : DontCare} {c : T5Rv32i} (hc : Reachable X c) :
    c.pipe.StatusOperand := by
  obtain ⟨b, is, hb, his, rfl⟩ := hc
  have hctrl : b.pipe.ctrl = T5Ctrl.reset := hb.flushed.ctrl
  have hinit : b.pipe.StatusOperand := by
    intro hnum
    rw [hctrl] at hnum
    exact absurd hnum (by decide)
  refine ((stallFree X).abs_invariant (Q := fun p => p.gprf.ZeroClear ∧ p.StatusOperand)
    (P := fun _ _ => True) hb.running ⟨hb.zeroClear, hinit⟩ ?_ his (fun _ _ _ _ _ => trivial)).2
  intro t i _ _ _ _ hQ
  exact ⟨Pipe.zeroClear_advance X hQ.1 i.sample, hQ.2.advance hQ.1 i.sample⟩

/-! ## The instructions in the two slots -/

section Slots

variable {X : DontCare} {s x d : T5Rv32i} {i : Input} {instr : Instr}

theorem InExecute.traps_and_returns (hs : Reachable X s) (hw : Encodes i.iwbDat instr)
    (h : InExecute X s i x) :
    x.csrInputs.traps = instr.traps (byteAdr (s.inst.fpc.extractLsb 31 2)) (s.rs1d i.iwbDat)
        (s.rs2d i.iwbDat) ∧
      (x.csrInputs.returns = true ↔ instr = .mret) := by
  obtain ⟨dhart, csr, hexec, hdata⟩ := h.slot hs.running (rv32_of_encodes hw)
  have hbra : x.aslu.xbra = T5Aslu.xbraNext _ := congrArg Execute.xbra hexec
  constructor
  · show (andR x.aslu.xbra || andR x.data.xstb) = _
    rw [hbra, hdata, takesTrap_decode X hw]
  · rw [CsrInputs.returns, beq_iff_eq]
    show x.aslu.xbra = 0b01#2 ↔ _
    rw [hbra, xbraNext_eq_one_iff X hw]

theorem dcsr_of_not_csr {w a b : BitVec 32} {pc : BitVec 30} (hw : Encodes w instr)
    (h : ∀ op isImm r q num, instr ≠ .csr op isImm r q num) :
    (T5Ctrl.decode X pc w a b).dcsr = false := by
  show T5Ctrl.ctype (opcode w) w = false
  cases hw.format with
  | lui ho | auipc ho | jal ho | jalr ho | branch ho | load ho | store ho | opImm ho | opReg ho
  | fence ho | fenceI ho => rw [ho]; rfl
  | ecall ho | ebreak ho | mret ho => rw [ho]; rfl
  | csr => exact absurd rfl (h _ _ _ _ _)

theorem writesMstatus_decode {w a b : BitVec 32} {pc : BitVec 30} (hw : Encodes w instr) :
    writesMstatus (T5Ctrl.decode X pc w a b) = true ↔
      ∃ op isImm r q, instr = .csr op isImm r q csrMstatus ∧ (op = .write ∨ q ≠ 0#5) := by
  by_cases hcsr : ∃ op isImm r q num, instr = .csr op isImm r q num
  · obtain ⟨op, isImm, r, q, num, rfl⟩ := hcsr
    have hslot : CsrSlot X (T5Ctrl.decode X pc w a b) op num (csrOperand isImm q a) :=
      csrSlot_of_encodes X hw
    have hread : pureRead (T5Ctrl.decode X pc w a b) = (op != .write && q == 0#5) := by
      cases hw.format with
      | csr h hf =>
        have hbits := bits_of_csr hf
        have h1 : (op.funct3 isImm).getLsbD 1 = (op != .write) := by
          cases op <;> cases isImm <;> rfl
        simp only [T5Ctrl.decode_csr h hbits, pureRead, rs1_of_dcp2, hf, h1]
    rw [writesMstatus, hslot.wenable, hread]
    constructor
    · intro h
      simp only [Bool.and_eq_true, beq_iff_eq, Bool.not_eq_true', Bool.and_eq_false_iff,
        bne_eq_false_iff_eq, beq_eq_false_iff_ne] at h
      exact ⟨op, isImm, r, q, by rw [h.1], h.2⟩
    · rintro ⟨op', isImm', r', q', he, hor⟩
      obtain ⟨rfl, rfl, rfl, rfl, rfl⟩ := Instr.csr.inj he
      simpa using hor
  · have hno : ∀ op isImm r q num, instr ≠ .csr op isImm r q num := by
      intro op isImm r q num he
      exact hcsr ⟨op, isImm, r, q, num, he⟩
    rw [writesMstatus, wenable, dcsr_of_not_csr hw hno, Bool.and_false, Bool.false_and]
    constructor
    · exact fun h => Bool.noConfusion h
    · rintro ⟨op, isImm, r, q, he, -⟩
      exact absurd he (hno _ _ _ _ _)

end Slots

/-! ## Runs -/

namespace T5Rv32i

def csrValue (X : DontCare) (c : T5Rv32i) : BitVec 32 :=
  wcsr X c.ctrl.toDecode (rcsr c.aslu.toCsr c.csrInputs.dhart (csrNum c.ctrl.toDecode))

/-- The stack the edge has to leave behind. -/
def stackNext (X : DontCare) (c : T5Rv32i) : Bool × Bool :=
  Tra5.stackNext c.csrInputs c.ctrl.toDecode (c.csrValue X) c.aslu.toCsr

def StackSound (X : DontCare) (c : T5Rv32i) : Prop :=
  Tra5.StackSound X c.csrInputs c.ctrl.toDecode c.aslu.toCsr

/-- Neither slot does anything to the stack. -/
def StackIdle (c : T5Rv32i) : Prop :=
  c.csrInputs.traps = false ∧ c.csrInputs.returns = false ∧
    writesMstatus c.ctrl.toDecode = false

instance (X : DontCare) (c : T5Rv32i) : Decidable (c.StackSound X) :=
  inferInstanceAs (Decidable (Tra5.StackSound X c.csrInputs c.ctrl.toDecode c.aslu.toCsr))

instance (c : T5Rv32i) : Decidable c.StackIdle := inferInstanceAs (Decidable (_ ∧ _ ∧ _))

theorem stack_step_iff {X : DontCare} {c : T5Rv32i} (hc : Reachable X c) {j : Input}
    (ha : c.advancing j = true) :
    (c.step X j).aslu.toCsr.stack = c.stackNext X ↔ c.StackSound X := by
  rw [toCsr_step X ha]
  exact nextMstatus_eq_stackNext_iff _ X hc.statusOperand

theorem stack_of_idle {X : DontCare} {c : T5Rv32i} (hc : Reachable X c) {j : Input}
    (ha : c.advancing j = true) (hs : c.StackSound X) (hi : c.StackIdle) :
    (c.step X j).aslu.toCsr.stack = c.aslu.toCsr.stack := by
  rw [(stack_step_iff hc ha).mpr hs, stackNext, Tra5.stackNext, hi.1, hi.2.1, hi.2.2]
  rfl

theorem stack_run_of_idle {X : DontCare} {c : T5Rv32i} (hc : Reachable X c) {is : List Input}
    (his : ∀ i ∈ is, i.sysRst = false)
    (h : (machine X).AtEdges c is (fun t _ => t.StackSound X ∧ t.StackIdle)) :
    ((machine X).run c is).aslu.toCsr.stack = c.aslu.toCsr.stack := by
  refine (Clocked.Machine.trace_run (M := machine X) (A := fun i => i.sysRst = false)
    (P := fun t _ => Reachable X t ∧ t.aslu.toCsr.stack = c.aslu.toCsr.stack) (t := []) ?_ ?_
    ⟨hc, rfl⟩ his h).2
  · rintro t i - ⟨ht, hstack⟩ hi ha hsound
    exact ⟨ht.step hi, (stack_of_idle ht ha hsound.1 hsound.2).trans hstack⟩
  · rintro t i - ⟨ht, hstack⟩ hi ha
    have hpipe : (t.step X i).pipe = t.pipe := (stallFree X).abs_stall t i ht.running hi ha
    refine ⟨ht.step hi, ?_⟩
    show (t.step X i).pipe.aslu.toCsr.stack = _
    rw [hpipe]
    exact hstack

end T5Rv32i

theorem rcsr_mstatus (c : Csr) (h : BitVec 2) : rcsr c h csrMstatus = readMstatus c := rfl

/-- A read of `mstatus` after a `csrrw` to it, with no trap, return or write in
between, returns the bits written if the edges in between are sound. -/
theorem mstatus_read_back {X : DontCare} {s d : T5Rv32i} {i e : Input} {isImm : Bool}
    {r q : BitVec 5} (hs : Reachable X s)
    (hw : Encodes i.iwbDat (.csr .write isImm r q csrMstatus)) (hd : InDecode X s i d)
    (he : d.advancing e = true) (hrst : e.sysRst = false) {is : List Input}
    (his : ∀ k ∈ is, k.sysRst = false)
    (hidle : (machine X).AtEdges (d.step X e) is (fun t _ => t.StackSound X ∧ t.StackIdle))
    {u m : T5Rv32i} {j k : Input} {op : CsrOp} {isImm' : Bool} {r' q' : BitVec 5}
    (hu : Reachable X u) (hw' : Encodes j.iwbDat (.csr op isImm' r' q' csrMstatus))
    (ht : InDecode X u j ((machine X).run (d.step X e) is))
    (hk : ((machine X).run (d.step X e) is).advancing k = true) (hkrst : k.sysRst = false)
    (hm : Passage X u j (((machine X).run (d.step X e) is).step X k) m) :
    m.back.mwre = orR r' ∧ m.rd0a = r' ∧
      (m.rd0d.getLsbD 7, m.rd0d.getLsbD 3) = ((csrOperand isImm q (s.rs1d i.iwbDat)).getLsbD 7,
        (csrOperand isImm q (s.rs1d i.iwbDat)).getLsbD 3) := by
  obtain ⟨hwre, hrd, hval⟩ := ht.csr_port hu hw' hk hkrst hm
  refine ⟨hwre, hrd, ?_⟩
  have hdr : Reachable X d := hd.reachable hs
  have hslot := hd.csrSlot hs hw
  have hwrites : writesMstatus d.ctrl.toDecode = true := by
    rw [hd.toDecode hs.running (rv32_of_encodes hw), writesMstatus_decode hw]
    exact ⟨.write, isImm, r, q, rfl, Or.inl rfl⟩
  have hwritten : (d.step X e).aslu.toCsr.stack = d.stackNext X :=
    (T5Rv32i.stack_step_iff hdr he).mpr (stackSound_of_writes hwrites)
  have hv : d.csrValue X = csrOperand isImm q (s.rs1d i.iwbDat) := hslot.wcsr _
  have hkept := T5Rv32i.stack_run_of_idle (hdr.step hrst) his hidle
  show stackBits m.rd0d = _
  rw [hval, rcsr_mstatus, readMstatus_bits, hkept, hwritten, T5Rv32i.stackNext, stackNext,
    if_pos hwrites, hv]

/-- The stack of interrupt enables.  The first two parts relate the signals of the
two slots to the instructions in them, the third says at which edges the stack
moves as it should, and the last is the read after a write in a run whose edges
are all of this kind. -/
theorem mstatus_stack_iff (X : DontCare) :
    (∀ (s x : T5Rv32i) (i : Input) (instr : Instr), Reachable X s → Encodes i.iwbDat instr →
      InExecute X s i x →
      x.csrInputs.traps = instr.traps (byteAdr (s.inst.fpc.extractLsb 31 2)) (s.rs1d i.iwbDat)
        (s.rs2d i.iwbDat) ∧ (x.csrInputs.returns = true ↔ instr = .mret)) ∧
    (∀ (s d : T5Rv32i) (i : Input) (instr : Instr), Reachable X s → Encodes i.iwbDat instr →
      InDecode X s i d → (writesMstatus d.ctrl.toDecode = true ↔ ∃ op isImm r q,
        instr = .csr op isImm r q csrMstatus ∧ (op = .write ∨ q ≠ 0#5))) ∧
    (∀ (c : T5Rv32i) (j : Input), Reachable X c → c.advancing j = true →
      ((c.step X j).aslu.toCsr.stack = c.stackNext X ↔ c.StackSound X)) ∧
    (∀ (s d : T5Rv32i) (i e : Input) (isImm : Bool) (r q : BitVec 5), Reachable X s →
      Encodes i.iwbDat (.csr .write isImm r q csrMstatus) → InDecode X s i d →
      d.advancing e = true → e.sysRst = false → ∀ is : List Input, (∀ k ∈ is, k.sysRst = false) →
      (machine X).AtEdges (d.step X e) is (fun t _ => t.StackSound X ∧ t.StackIdle) →
      ∀ (u m : T5Rv32i) (j k : Input) (op : CsrOp) (isImm' : Bool) (r' q' : BitVec 5),
      Reachable X u → Encodes j.iwbDat (.csr op isImm' r' q' csrMstatus) →
      InDecode X u j ((machine X).run (d.step X e) is) →
      ((machine X).run (d.step X e) is).advancing k = true → k.sysRst = false →
      Passage X u j (((machine X).run (d.step X e) is).step X k) m →
      m.back.mwre = orR r' ∧ m.rd0a = r' ∧
        (m.rd0d.getLsbD 7, m.rd0d.getLsbD 3) = ((csrOperand isImm q (s.rs1d i.iwbDat)).getLsbD 7,
          (csrOperand isImm q (s.rs1d i.iwbDat)).getLsbD 3)) := by
  refine ⟨?_, ?_, ?_, ?_⟩
  · intro s x i instr hs hw hx
    exact hx.traps_and_returns hs hw
  · intro s d i instr hs hw hd
    rw [hd.toDecode hs.running (rv32_of_encodes hw)]
    exact writesMstatus_decode hw
  · intro c j hc ha
    exact T5Rv32i.stack_step_iff hc ha
  · intro s d i e isImm r q hs hw hd he hrst is his hidle u m j k op isImm' r' q' hu hw' ht hk
      hkrst hm
    exact mstatus_read_back hs hw hd he hrst his hidle hu hw' ht hk hkrst hm

/-- `csrrwi x0, mstatus, 8` and then `csrrs x1, mstatus, x0` in every slot. -/
theorem mstatus_stack_read_back :
    let read := Input.fetch 0x300020F3#32
    let s := (machine default).run (coldStart default) [Input.fetch nop, Input.fetch nop]
    let m := (machine default).run (s.step default (Input.fetch 0x30045073#32))
      [read, read, read, read]
    m.back.mwre = true ∧ m.rd0a = 1#5 ∧ (m.rd0d.getLsbD 7, m.rd0d.getLsbD 3) = (false, true) := by
  intro read s m
  let i := Input.fetch 0x30045073#32
  let d := s.step default i
  let t := (d.step default read).step default read
  have hw : Encodes (Input.fetch 0x30045073#32).iwbDat
      (.csr .write true 0#5 8#5 csrMstatus) := ⟨by decide, .csr (by decide) (by decide)⟩
  have hw' : Encodes (Input.fetch 0x300020F3#32).iwbDat
      (.csr .set false 1#5 0#5 csrMstatus) := ⟨by decide, .csr (by decide) (by decide)⟩
  have hs : Reachable default s := reachable_run_coldStart default (by decide)
  have hlow : ∀ k ∈ [i, read], k.sysRst = false := by decide
  have hu : Reachable default (d.step default read) := hs.run hlow
  have hd : InDecode default s i d := InDecode.of_step (by decide +kernel) rfl
  have ht : InDecode default (d.step default read) read t :=
    InDecode.of_step (by decide +kernel) rfl
  have hidle : (machine default).AtEdges (d.step default read) [read]
      (fun t _ => t.StackSound default ∧ t.StackIdle) :=
    Clocked.Machine.AtEdges.of_index (by decide +kernel)
  have h := (mstatus_stack_iff default).2.2.2 s d i read true 0#5 8#5 hs hw hd (by decide +kernel)
    rfl [read] (by decide) hidle _ m read read .set false 1#5 0#5 hu hw' ht (by decide +kernel) rfl
    (passage_of_edges (by decide +kernel) (by decide +kernel) (by decide +kernel) (by decide))
  exact ⟨h.1.trans (by decide), h.2.1, h.2.2.trans (by decide)⟩

/-- `csrrwi x0, mstatus, 8` of hart 0, then `slli x0, x0, 0` of the other three
harts.  The first of these clears `mie` again, and the next `csrrs x1, mstatus, x0`
of hart 0 reads it as zero. -/
theorem mstatus_write_lost :
    let slli := Input.fetch 0x00001013#32
    let c := (machine default).run (coldStart default)
      [Input.fetch nop, Input.fetch nop, Input.fetch 0x30045073#32, slli]
    let m := (machine default).run c [slli, slli, Input.fetch 0x300020F3#32, slli, slli]
    Reachable default c ∧ c.advancing slli = true ∧ c.StackIdle ∧
      c.aslu.toCsr.stack = (false, true) ∧ c.stackNext default = (false, true) ∧
      (c.step default slli).aslu.toCsr.stack = (false, false) ∧
      (m.back.mwre = true ∧ m.inst.mhart = 0#2 ∧ m.rd0a = 1#5 ∧ m.rd0d.getLsbD 3 = false) := by
  intro slli c m
  exact ⟨reachable_run_coldStart default (by decide), by decide +kernel, by decide +kernel,
    by decide +kernel, by decide +kernel, by decide +kernel, by decide +kernel⟩

end Tra5
