/-
The CSRs at one edge.

At an advancing edge the execute slot may record a trap and the decode slot, which
belongs to another hart, may hold a CSR instruction.  `settle` is what the execute
slot alone would leave.  If the two do not name the same register, the edge leaves
what the CSR instruction makes of `settle`, so that the machine may let the trap of
the one hart come before the CSR instruction of the other.
-/
import Tra5.System.Machine
import Tra5.Trap.Entry

namespace Tra5

open Rv32 T5Aslu

/-- The registers of the core hold what the machine's registers hold.  An unspecified
`mtval` may be anything. -/
structure CsrSees (c : Csr) (m : MachineCsrs) : Prop where
  mtvec : c.mtvec = m.mtvec
  mscratch : c.mscratch = m.mscratch
  medeleg : c.medeleg = m.medeleg
  mepc : c.mepc.extractLsb 31 2 = m.mepc
  mcause : c.mcause = m.mcause
  mtval : ∀ v, m.mtval = some v → c.mtval = v

/-! ## Reading -/

theorem zero_append_hart (h : BitVec 2) : 0#30 ++ h = h.setWidth 32 := by
  revert h
  decide

theorem zero_append_cause (x : BitVec 4) : 0#28 ++ x = x.setWidth 32 := by
  revert x
  decide

theorem CsrSees.rcsr {c : Csr} {m : MachineCsrs} (hs : CsrSees c m) {h : BitVec 2}
    {num : BitVec 12} {v : BitVec 32} (hv : m.read h num = some v) : T5Aslu.rcsr c h num = v := by
  rw [MachineCsrs.read] at hv
  rw [T5Aslu.rcsr]
  by_cases h1 : num = csrMhartid
  · rw [if_pos h1] at hv ⊢
    rw [zero_append_hart, Option.some.inj hv]
  rw [if_neg h1] at hv ⊢
  by_cases h2 : num = csrMisa
  · rw [if_pos h2] at hv ⊢
    exact Option.some.inj hv
  rw [if_neg h2] at hv ⊢
  by_cases h3 : num = csrMscratch
  · rw [if_pos h3] at hv ⊢
    rw [hs.mscratch, Option.some.inj hv]
  rw [if_neg h3] at hv ⊢
  by_cases h4 : num = csrMedeleg
  · rw [if_pos h4] at hv ⊢
    rw [hs.medeleg, Option.some.inj hv]
  rw [if_neg h4] at hv ⊢
  by_cases h5 : num = csrMepc
  · rw [if_pos h5] at hv ⊢
    rw [hs.mepc]
    exact Option.some.inj hv
  rw [if_neg h5] at hv ⊢
  by_cases h6 : num = csrMtval
  · rw [if_pos h6] at hv ⊢
    exact hs.mtval v hv
  rw [if_neg h6] at hv ⊢
  by_cases h7 : num = csrMtvec
  · rw [if_pos h7] at hv ⊢
    rw [hs.mtvec, Option.some.inj hv]
  rw [if_neg h7] at hv ⊢
  by_cases h8 : num = csrMie ∨ num = csrMip
  · rw [if_pos h8] at hv ⊢
    exact Option.some.inj hv
  rw [if_neg h8] at hv ⊢
  by_cases h9 : num = csrMcause
  · rw [if_pos h9] at hv ⊢
    rw [hs.mcause, zero_append_cause, Option.some.inj hv]
  rw [if_neg h9] at hv ⊢
  by_cases h10 : num = csrMstatus
  · rw [if_pos h10] at hv
    exact absurd hv.symm (Option.some_ne_none v)
  rw [if_neg h10] at hv ⊢
  exact Option.some.inj hv

/-- Only `mtval` and `mstatus` may have no value. -/
theorem MachineCsrs.eq_of_read_eq_none {m : MachineCsrs} {h : BitVec 2} {num : BitVec 12}
    (hn : m.read h num = none) : (num = csrMtval ∧ m.mtval = none) ∨ num = csrMstatus := by
  by_cases h1 : num = csrMtval
  · subst h1
    exact Or.inl ⟨rfl, hn⟩
  · refine Or.inr (by_contra fun h2 => ?_)
    simp only [MachineCsrs.read, if_neg h1, if_neg h2, ← apply_ite some] at hn
    exact Option.some_ne_none _ hn

/-! ## The execute slot -/

/-- The CSRs after an edge at which the decode slot leaves them alone. -/
def settle (e : CsrInputs) (c : Csr) : Csr :=
  if andR e.xbra || andR e.xstb then
    { c with mepc := e.xepc ++ 0#2, mcause := recordedMcause e c, mtval := e.xbpc ++ e.xoff }
  else c

section Settle

variable {X : DontCare} {e : CsrInputs} {d : Decode} {c : Csr} {m : MachineCsrs}

/-- The multiplexers of `mepc`, `mcause` and `mtval` without a CSR instruction. -/
theorem next_eq_settle (hb : (andR e.xbra && andR e.xstb) = false) (w : BitVec 32) (c : Csr) :
    nextMepc e false w c = (settle e c).mepc ∧ nextMcause e false w c = (settle e c).mcause ∧
      nextMtval e false w c = (settle e c).mtval := by
  by_cases hne : andR e.xbra = andR e.xstb
  · rw [hne, Bool.and_self] at hb
    have hquiet : settle e c = c := by
      rw [settle, hne, hb]
      exact if_neg Bool.false_ne_true
    rw [hquiet]
    exact next_of_quiet w c (hne.trans hb) hb
  · have htrap : (andR e.xbra || andR e.xstb) = true := by
      cases hx : andR e.xbra <;> cases hy : andR e.xstb <;> simp_all
    rw [settle, if_pos htrap]
    exact next_of_trap w c hne

theorem settle_frame (e : CsrInputs) (c : Csr) :
    (settle e c).mtvec = c.mtvec ∧ (settle e c).mscratch = c.mscratch ∧
      (settle e c).medeleg = c.medeleg := by
  rw [settle]
  split <;> exact ⟨rfl, rfl, rfl⟩

theorem CsrSees.of_no_csr (hs : CsrSees (settle e c) m)
    (hb : (andR e.xbra && andR e.xstb) = false) (hd : d.dcsr = false) :
    CsrSees (nextCsr X e d c) m := by
  have hw (n : BitVec 12) : wenable d n = false := by rw [wenable, hd, Bool.and_false]
  obtain ⟨h1, h2, h3⟩ := next_eq_settle hb (wcsr X d (T5Aslu.rcsr c e.dhart (csrNum d))) c
  obtain ⟨f1, f2, f3⟩ := settle_frame e c
  constructor
  · rw [← hs.mtvec, f1]
    simp only [nextCsr, hw, Bool.false_eq_true, if_false]
  · rw [← hs.mscratch, f2]
    simp only [nextCsr, hw, Bool.false_eq_true, if_false]
  · rw [← hs.medeleg, f3]
    simp only [nextCsr, hw, Bool.false_eq_true, if_false]
  · rw [← hs.mepc, ← h1]
    simp only [nextCsr, hw]
  · rw [← hs.mcause, ← h2]
    simp only [nextCsr, hw]
  · intro v hv
    rw [← hs.mtval v hv, ← h3]
    simp only [nextCsr, hw]

/-! ## The decode slot -/

variable {op : CsrOp} {num : BitVec 12} {src : BitVec 32}

/-- The value that the CSR instruction reads is not touched by the trap. -/
theorem rcsr_settle {num : BitVec 12} (h : BitVec 2)
    (hc : (andR e.xbra || andR e.xstb) = true →
      num ≠ csrMepc ∧ num ≠ csrMcause ∧ num ≠ csrMtval) :
    T5Aslu.rcsr (settle e c) h num = T5Aslu.rcsr c h num := by
  rw [settle]
  split
  · next ht =>
    obtain ⟨n1, n2, n3⟩ := hc ht
    simp only [T5Aslu.rcsr, if_neg n1, if_neg n2, if_neg n3]
    rfl
  · rfl

/-- The CSRs that the edge leaves, register by register, when the CSR instruction
writes `w`. -/
theorem nextCsr_of_slot (hslot : CsrSlot X d op num src)
    (hb : (andR e.xbra && andR e.xstb) = false) (hx : num = csrMcause → e.xexc = false)
    {w : BitVec 32} (hw : op.eval (T5Aslu.rcsr c e.dhart num) src = w) :
    (nextCsr X e d c).mtvec = (if num = csrMtvec then w else c.mtvec) ∧
      (nextCsr X e d c).mscratch = (if num = csrMscratch then w else c.mscratch) ∧
      (nextCsr X e d c).medeleg = (if num = csrMedeleg then w else c.medeleg) ∧
      (nextCsr X e d c).mepc = (if num = csrMepc then w else (settle e c).mepc) ∧
      (nextCsr X e d c).mcause =
        (if num = csrMcause then w.extractLsb 3 0 else (settle e c).mcause) ∧
      (nextCsr X e d c).mtval = (if num = csrMtval then w else (settle e c).mtval) := by
  have hwc : wcsr X d (T5Aslu.rcsr c e.dhart (csrNum d)) = w := by
    rw [hslot.wcsr, hslot.num, hw]
  obtain ⟨h1, h2, h3⟩ := next_eq_settle hb w c
  simp only [nextCsr, hwc, hslot.wenable, beq_iff_eq, true_and]
  refine ⟨?_, ?_, ?_⟩
  · by_cases hn : num = csrMepc
    · rw [if_pos hn, hn, beq_self_eq_true, nextMepc_write]
    · rw [if_neg hn, beq_false_of_ne hn, h1]
  · by_cases hn : num = csrMcause
    · rw [if_pos hn, hn, beq_self_eq_true, nextMcause_write, hx hn, if_neg Bool.false_ne_true]
    · rw [if_neg hn, beq_false_of_ne hn, h2]
  · by_cases hn : num = csrMtval
    · rw [if_pos hn, hn, beq_self_eq_true, nextMtval_write]
    · rw [if_neg hn, beq_false_of_ne hn, h3]

theorem CsrSees.of_write (hs : CsrSees (settle e c) m) (hslot : CsrSlot X d op num src)
    (hb : (andR e.xbra && andR e.xstb) = false) (hx : num = csrMcause → e.xexc = false)
    {w : BitVec 32} (hw : op.eval (T5Aslu.rcsr c e.dhart num) src = w) :
    CsrSees (nextCsr X e d c) (m.write num w) := by
  obtain ⟨f1, f2, f3⟩ := settle_frame e c
  obtain ⟨n1, n2, n3, n4, n5, n6⟩ := nextCsr_of_slot hslot hb hx hw
  constructor
  · rw [n1, ← f1, hs.mtvec]
    rfl
  · rw [n2, ← f2, hs.mscratch]
    rfl
  · rw [n3, ← f3, hs.medeleg]
    rfl
  · rw [n4, apply_ite (BitVec.extractLsb 31 2), hs.mepc]
    rfl
  · rw [n5, hs.mcause]
    rfl
  · intro v hv
    rw [n6]
    simp only [MachineCsrs.write] at hv
    split_ifs at hv ⊢
    · exact Option.some.inj hv
    · exact hs.mtval v hv

/-- A CSR instruction that names a register without a value and does not write it
outright leaves nothing that a program may rely on. -/
theorem CsrSees.of_none (hs : CsrSees (settle e c) m) (hslot : CsrSlot X d op num src)
    (hb : (andR e.xbra && andR e.xstb) = false) {h : BitVec 2} (hn : m.read h num = none) :
    CsrSees (nextCsr X e d c) m := by
  obtain ⟨f1, f2, f3⟩ := settle_frame e c
  have hne : num ≠ csrMtvec ∧ num ≠ csrMscratch ∧ num ≠ csrMedeleg ∧ num ≠ csrMepc ∧
      num ≠ csrMcause := by
    rcases MachineCsrs.eq_of_read_eq_none hn with ⟨h, -⟩ | h <;> subst h <;> decide
  obtain ⟨e1, e2, e3, e4, e5⟩ := hne
  obtain ⟨n1, n2, n3, n4, n5, n6⟩ :=
    nextCsr_of_slot (e := e) (c := c) hslot hb (fun h => absurd h e5) rfl
  constructor
  · rw [n1, if_neg e1, ← f1, hs.mtvec]
  · rw [n2, if_neg e2, ← f2, hs.mscratch]
  · rw [n3, if_neg e3, ← f3, hs.medeleg]
  · rw [n4, if_neg e4, hs.mepc]
  · rw [n5, if_neg e5, hs.mcause]
  · intro v hv
    rcases MachineCsrs.eq_of_read_eq_none hn with ⟨-, h⟩ | h
    · rw [h] at hv
      exact absurd hv.symm (Option.some_ne_none v)
    · have e6 : num ≠ csrMtval := by rw [h]; decide
      rw [n6, if_neg e6, hs.mtval v hv]

/-- The CSR instruction of the decode slot updates what the execute slot leaves. -/
theorem CsrSees.of_csr (hs : CsrSees (settle e c) m) (hslot : CsrSlot X d op num src)
    (hb : (andR e.xbra && andR e.xstb) = false)
    (hc : (andR e.xbra || andR e.xstb) = true →
      num ≠ csrMepc ∧ num ≠ csrMcause ∧ num ≠ csrMtval)
    (hx : num = csrMcause → e.xexc = false) :
    CsrSees (nextCsr X e d c) (m.update e.dhart num op src) := by
  have hread (v : BitVec 32) (hv : m.read e.dhart num = some v) :
      T5Aslu.rcsr c e.dhart num = v := by
    rw [← rcsr_settle e.dhart hc]
    exact hs.rcsr hv
  cases op with
  | write => exact hs.of_write hslot hb hx rfl
  | set | clear =>
    cases hv : m.read e.dhart num with
    | none =>
      simp only [MachineCsrs.update, hv]
      exact hs.of_none hslot hb hv
    | some v =>
      simp only [MachineCsrs.update, hv]
      exact hs.of_write hslot hb hx (by rw [hread v hv])

end Settle

/-! ## The trap of an instruction -/

section Trap

variable {X : DontCare} {w a b : BitVec 32} {pc : BitVec 30} {i : Instr}

theorem target_of_traps (ht : i.traps (byteAdr pc) a b = true)
    (hexc : i ≠ .ecall ∧ i ≠ .ebreak) :
    i.isMemory = true ∨ (i.target (byteAdr pc) a b).isSome = true := by
  cases hm : i.isMemory with
  | true => exact Or.inl rfl
  | false =>
    have hsys : i.isSystem = false := by
      cases i with
      | ecall => exact absurd rfl hexc.1
      | ebreak => exact absurd rfl hexc.2
      | mret | csr => exact Bool.noConfusion ht
      | lui | auipc | jal | jalr | branch | load | store | opImm | opReg | fence | fenceI => rfl
    rw [Instr.traps_of_not_system hsys, Instr.accessMisaligned_of_not_memory hm,
      Bool.or_false] at ht
    exact Or.inr (isSome_of_jumpMisaligned ht)

/-- The inputs of the CSR blocks while an instruction is in the execute slot. -/
def executeInputs (x : Execute) (m : T5Data) (xepc : BitVec 30) (dhart : BitVec 2) : CsrInputs :=
  { xbra := x.xbra, xstb := m.xstb, xexc := x.xexc, xwre := m.xwre, xbpc := x.xbpc, xoff := x.xoff
    xepc := xepc, dhart := dhart }

theorem recordedMcause_of_encodes (X : DontCare) (hw : Encodes w i)
    (ht : i.traps (byteAdr pc) a b = true) (h0 : rs1 w = 0#5 → a = 0#32) (h : BitVec 2)
    (csr c : Csr) (xepc : BitVec 30) (dhart : BitVec 2) :
    recordedMcause (executeInputs (execute X h csr (T5Ctrl.decode X pc w a b))
      (T5Data.advance (T5Ctrl.decode X pc w a b)) xepc dhart) c = i.cause := by
  let d := T5Ctrl.decode X pc w a b
  rw [recordedMcause]
  show (if andR (xbraNext d) then if d.dexc then _ else _ else if d.dexc then _ else _) = _
  cases hsys : i.isSystem with
  | true =>
    have hexc : i = .ecall ∨ i = .ebreak := by
      cases i with
      | ecall => exact Or.inl rfl
      | ebreak => exact Or.inr rfl
      | mret | csr => exact Bool.noConfusion ht
      | lui | auipc | jal | jalr | branch | load | store | opImm | opReg | fence | fenceI =>
        exact Bool.noConfusion hsys
    have hrs1 : rs1 w = 0#5 := by
      rcases hexc with rfl | rfl <;> cases hw.format with | _ h => rw [h]; rfl
    obtain ⟨he, hcause⟩ := xbrk_of_exc X hw hexc (h0 hrs1) pc b h csr
    have h11 : xbraNext d = 0b11#2 := by
      rw [show xbraNext d = _ from xbraNext_of_encodes X hw]
      rcases hexc with rfl | rfl <;> rfl
    rw [h11, show d.dexc = true from he]
    exact hcause
  | false =>
    rw [show d.dexc = false from dexc_of_not_system X hw hsys]
    rcases trap_of_encodes X hw ht with ⟨h11, -, hmem⟩ | ⟨h00, -, hmem⟩
    · rw [show xbraNext d = _ from h11]
      cases i with
      | load | store => exact Bool.noConfusion hmem
      | ecall | ebreak | mret | csr => exact Bool.noConfusion hsys
      | lui | auipc | jal | jalr | branch | opImm | opReg | fence | fenceI => rfl
    · rw [show xbraNext d = _ from h00]
      exact xwre_of_memory hw hmem

theorem andR_branchCode (ht : i.traps (byteAdr pc) a b = false) :
    andR (branchCode i (byteAdr pc) a b) = false := by
  by_cases hret : i = .mret
  · rw [hret]
    rfl
  · rw [branchCode_of_quiet ht hret, andR_pair, Bool.and_false]

end Trap

namespace Soc

variable {X : DontCare} {s : Soc} {h : BitVec 2} {i : Instr}

theorem csrsIssued_of_traps (ht : s.traps h i = true) : s.csrsIssued h i = s.csrs := by
  cases i with
  | csr => exact Bool.noConfusion ht
  | lui | auipc | jal | jalr | branch | load | store | opImm | opReg | fence | fenceI | ecall
  | ebreak | mret => rfl

theorem rs1_of_zero (h0 : Rv32.rs1 (s.word h) = 0#5) : s.rs1 h = 0#32 := by
  rw [Soc.rs1, h0, (s.regs h).zero]

theorem xbpc_of_faultValue (hw : Encodes (s.word h) i) (ht : s.traps h i = true) {v : BitVec 32}
    (hv : s.faultValue h i = some v) (k : BitVec 2) (csr : Csr) :
    let x := execute X k csr (T5Ctrl.decode X (s.pc h) (s.word h) (s.rs1 h) (s.rs2 h))
    x.xbpc ++ x.xoff = v := by
  intro x
  have hexc : i ≠ .ecall ∧ i ≠ .ebreak := by
    constructor <;> rintro rfl <;> exact absurd hv.symm (Option.some_ne_none v)
  have hfault : s.faultValue h i =
      some (i.faultAddress (byteAdr (s.pc h)) (s.rs1 h) (s.rs2 h)) := by
    cases i with
    | ecall => exact absurd rfl hexc.1
    | ebreak => exact absurd rfl hexc.2
    | lui | auipc | jal | jalr | branch | load | store | opImm | opReg | fence | fenceI | mret
    | csr => rfl
  rw [hfault] at hv
  rw [← Option.some.inj hv]
  exact faultAddress_of_encodes X hw (target_of_traps ht hexc) k csr

/-- The inputs of the CSR blocks while the instruction `i` of the hart `h` is in the
execute slot. -/
def inputs (X : DontCare) (s : Soc) (h : BitVec 2) (csr : Csr) (k dhart : BitVec 2) : CsrInputs :=
  executeInputs (execute X k csr (T5Ctrl.decode X (s.pc h) (s.word h) (s.rs1 h) (s.rs2 h)))
    (T5Data.advance (T5Ctrl.decode X (s.pc h) (s.word h) (s.rs1 h) (s.rs2 h))) (s.pc h) dhart

theorem andR_inputs (hw : Encodes (s.word h) i) (csr : Csr) (k dhart : BitVec 2) :
    let e := inputs X s h csr k dhart
    (andR e.xbra && andR e.xstb) = false ∧ (andR e.xbra || andR e.xstb) = s.traps h i := by
  intro e
  cases ht : s.traps h i with
  | true =>
    rcases trap_of_encodes X hw ht with ⟨h1, h2, -⟩ | ⟨h1, h2, -⟩
    · rw [show e.xbra = _ from h1, show andR e.xstb = _ from h2]
      exact ⟨rfl, rfl⟩
    · rw [show e.xbra = _ from h1, show andR e.xstb = _ from h2]
      exact ⟨rfl, rfl⟩
  | false =>
    have hbra : andR e.xbra = false := by
      rw [show e.xbra = _ from xbraNext_of_encodes X hw]
      exact andR_branchCode ht
    have hstb : andR e.xstb = false :=
      (andR_xstb_of_encodes X hw).trans (Instr.aligned_of_not_traps ht).2
    rw [hbra, hstb]
    exact ⟨rfl, rfl⟩

/-- The execute slot takes the CSRs that `i` has issued to those that it leaves. -/
theorem sees_settle {c : Csr} (hs : CsrSees c (s.csrsIssued h i)) (hw : Encodes (s.word h) i)
    (csr : Csr) (k dhart : BitVec 2) :
    CsrSees (settle (inputs X s h csr k dhart) c) (s.csrsAfter h i) := by
  have hand := (andR_inputs (X := X) hw csr k dhart).2
  rw [settle, hand, csrsAfter]
  cases ht : s.traps h i with
  | false => exact hs
  | true =>
    rw [csrsIssued_of_traps ht] at hs
    refine ⟨hs.mtvec, hs.mscratch, hs.medeleg, T5Inst.extractLsb_adr _ _, ?_, fun v hv => ?_⟩
    · exact recordedMcause_of_encodes X hw ht rs1_of_zero k csr c (s.pc h) dhart
    · exact xbpc_of_faultValue hw ht hv k csr

/-- Of the instructions that raise `xexc` only `mret` does not trap. -/
theorem xexc_inputs (hw : Encodes (s.word h) i) (ht : s.traps h i = false) (hret : i ≠ .mret)
    (csr : Csr) (k dhart : BitVec 2) : (inputs X s h csr k dhart).xexc = false := by
  show (T5Ctrl.decode X (s.pc h) (s.word h) (s.rs1 h) (s.rs2 h)).dexc = false
  cases hsys : i.isSystem with
  | false => exact dexc_of_not_system X hw hsys
  | true =>
    cases i with
    | ecall | ebreak => exact Bool.noConfusion ht
    | mret => exact absurd rfl hret
    | csr =>
      cases hw.format with
      | csr hopc hf => rw [T5Ctrl.decode_csr hopc (bits_of_csr hf)]
    | lui | auipc | jal | jalr | branch | load | store | opImm | opReg | fence | fenceI =>
      exact Bool.noConfusion hsys

end Soc

/-! ## The instruction behind -/

theorem dcsr_of_encodes (X : DontCare) {w : BitVec 32} {i : Instr} (hw : Encodes w i)
    (hi : ∀ op isImm r q num, i ≠ .csr op isImm r q num) (pc : BitVec 30) (a b : BitVec 32) :
    (T5Ctrl.decode X pc w a b).dcsr = false := by
  show T5Ctrl.ctype (opcode w) w = false
  cases hw.format with
  | lui h | auipc h | jal h | jalr h | branch h | load h | store h | opImm h | opReg h | fence h
  | fenceI h => rw [h]; rfl
  | ecall h | ebreak h | mret h => rw [h]; rfl
  | csr => exact absurd rfl (hi _ _ _ _ _)

namespace Soc

variable {X : DontCare} {s : Soc} {i j : Instr}

theorem clashes_eq_false {op : CsrOp} {isImm : Bool} {r q : BitVec 5} {num : BitVec 12}
    (hc : s.clashes i (.csr op isImm r q num) = false) :
    (s.traps s.turn i = true → num ≠ csrMepc ∧ num ≠ csrMcause ∧ num ≠ csrMtval) ∧
      (num = csrMcause → i ≠ .mret) := by
  simp only [clashes, Bool.or_eq_false_iff, Bool.and_eq_false_iff, beq_eq_false_iff_ne] at hc
  refine ⟨fun ht => ?_, fun hn => ?_⟩
  · obtain ⟨⟨h1, h2⟩, h3⟩ := hc.1.resolve_left (by rw [ht]; exact Bool.true_eq_false_eq_False)
    exact ⟨h1, h2, h3⟩
  · exact hc.2.resolve_right fun h => h hn

/-- The instruction of the decode slot makes its update, if it is a CSR instruction, of
what the execute slot leaves. -/
theorem sees_issued {e : CsrInputs} {d : Decode} {c : Csr} {h : BitVec 2}
    (hs : CsrSees (settle e c) s.csrs) (hboth : (andR e.xbra && andR e.xstb) = false)
    (hh : e.dhart = h) (hj : Encodes (s.word h) j)
    (hd : d = T5Ctrl.decode X (s.pc h) (s.word h) (s.rs1 h) (s.rs2 h))
    (hclash : ∀ op isImm r q num, j = .csr op isImm r q num →
      ((andR e.xbra || andR e.xstb) = true →
        num ≠ csrMepc ∧ num ≠ csrMcause ∧ num ≠ csrMtval) ∧
      (num = csrMcause → e.xexc = false)) :
    CsrSees (nextCsr X e d c) (s.csrsIssued h j) := by
  subst hh
  by_cases hcsr : ∀ op isImm r q num, j ≠ .csr op isImm r q num
  · have hissue : s.csrsIssued e.dhart j = s.csrs := by
      cases j with
      | csr => exact absurd rfl (hcsr _ _ _ _ _)
      | lui | auipc | jal | jalr | branch | load | store | opImm | opReg | fence | fenceI | ecall
      | ebreak | mret => rfl
    rw [hissue]
    exact hs.of_no_csr hboth (by rw [hd]; exact dcsr_of_encodes X hj hcsr _ _ _)
  · simp only [ne_eq, not_forall, not_not] at hcsr
    obtain ⟨op, isImm, r, q, num, rfl⟩ := hcsr
    obtain ⟨hc, hx⟩ := hclash op isImm r q num rfl
    exact hs.of_csr (hd ▸ csrSlot_of_encodes X hj) hboth hc hx

/-- One edge: `i` leaves the execute slot and `j` the decode slot. -/
theorem sees_nextCsr {c csr : Csr} {k : BitVec 2} (hr : Regular s i j)
    (hs : CsrSees c (s.csrsIssued s.turn i)) {d : Decode}
    (hd : d = T5Ctrl.decode X ((s.exec i).pc (T5Inst.whart s.turn))
      ((s.exec i).word (T5Inst.whart s.turn)) ((s.exec i).rs1 (T5Inst.whart s.turn))
      ((s.exec i).rs2 (T5Inst.whart s.turn))) :
    CsrSees (nextCsr X (inputs X s s.turn csr k (T5Inst.whart s.turn)) d c)
      ((s.exec i).csrsIssued (T5Inst.whart s.turn) j) := by
  have hafter := sees_settle (X := X) hs hr.encodes csr k (T5Inst.whart s.turn)
  obtain ⟨hboth, htrap⟩ := andR_inputs (X := X) hr.encodes csr k (T5Inst.whart s.turn)
  have hj : Encodes ((s.exec i).word (T5Inst.whart s.turn)) j := by
    rw [(word_exec_next hr).1]
    exact hr.behind
  refine sees_issued hafter hboth rfl hj hd ?_
  rintro op isImm r q num rfl
  obtain ⟨hc, hret⟩ := clashes_eq_false hr.clashes
  refine ⟨by rw [htrap]; exact hc, fun hn => ?_⟩
  cases ht : s.traps s.turn i with
  | true => exact absurd hn (hc ht).2.1
  | false => exact xexc_inputs hr.encodes ht (hret hn) csr k _

end Soc

end Tra5
