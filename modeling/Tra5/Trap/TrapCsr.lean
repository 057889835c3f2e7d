/-
The trap registers `mepc`, `mcause` and `mtval`.

Each of the three has a port for the trap of the execute slot and a port for the
CSR instruction of the decode slot, which belongs to another hart.  A CSR
instruction takes the port whether or not it changes the register, since `wecsr`
is `dcsr` alone, so a mere read stops a trap from being recorded.  The selector of
`mcause` also contains `xexc`, and the arm for a write covers `xexc` low only.
-/
import Tra5.Trap.CsrSlot

namespace Tra5

open Rv32 T5Aslu

/-! ## The multiplexers -/

section Multiplexers

variable {e : CsrInputs} (w : BitVec 32) (c : Csr)

/-- What a trap leaves in `mcause`.  A misaligned access with `xexc` high, which
no instruction has, leaves it alone. -/
def recordedMcause (e : CsrInputs) (c : Csr) : BitVec 4 :=
  if andR e.xbra then
    if e.xexc then BitVec.ofBool (!xbrk e.xbpc) ++ 3#3 else 0#4
  else
    if e.xexc then c.mcause else 1#2 ++ BitVec.ofBool e.xwre ++ 0#1

theorem nextMepc_write (e : CsrInputs) : nextMepc e true w c = w := by
  rw [nextMepc, Bool.or_true, Bool.or_true]

theorem nextMtval_write (e : CsrInputs) : nextMtval e true w c = w := by
  rw [nextMtval, Bool.or_true, Bool.or_true]

theorem nextMcause_write (e : CsrInputs) :
    nextMcause e true w c = if e.xexc then c.mcause else w.extractLsb 3 0 := by
  rw [nextMcause, Bool.or_true, Bool.or_true]
  cases e.xexc <;> rfl

theorem next_of_quiet (hb : andR e.xbra = false) (hs : andR e.xstb = false) :
    nextMepc e false w c = c.mepc ∧ nextMcause e false w c = c.mcause ∧
      nextMtval e false w c = c.mtval := by
  simp only [nextMepc, nextMcause, nextMtval, hb, hs, Bool.or_false]
  cases e.xexc <;> simp

theorem next_of_trap (h : andR e.xbra ≠ andR e.xstb) :
    nextMepc e false w c = e.xepc ++ 0#2 ∧ nextMcause e false w c = recordedMcause e c ∧
      nextMtval e false w c = e.xbpc ++ e.xoff := by
  simp only [nextMepc, nextMcause, nextMtval, recordedMcause, Bool.or_false]
  revert h
  cases andR e.xbra <;> cases andR e.xstb <;> cases e.xexc <;> simp

theorem nextMepc_of_both (hb : andR e.xbra = true) (hs : andR e.xstb = true) :
    nextMepc e false w c = w := by
  rw [nextMepc, hb, hs]
  rfl

end Multiplexers

/-! ## Values read -/

theorem rcsr_mepc (c : Csr) (h : BitVec 2) :
    rcsr c h csrMepc = c.mepc.extractLsb 31 2 ++ 0#2 := rfl

theorem rcsr_mcause (c : Csr) (h : BitVec 2) : rcsr c h csrMcause = 0#28 ++ c.mcause := rfl

theorem rcsr_mtval (c : Csr) (h : BitVec 2) : rcsr c h csrMtval = c.mtval := rfl

theorem low_rcsr_mcause (c : Csr) (h : BitVec 2) :
    (rcsr c h csrMcause).extractLsb 3 0 = c.mcause := by
  rw [rcsr_mcause]
  exact BitVec.extractLsb'_append_eq_right

def trapCsrs (c : Csr) : BitVec 32 × BitVec 4 × BitVec 32 := (c.mepc, c.mcause, c.mtval)

/-- The trap registers after an edge with a mere read of the CSR `num` in the
decode slot: the register it names is written with the value that was read. -/
theorem trapCsrs_of_read {X : DontCare} {d : Decode} {op : CsrOp} {num : BitVec 12}
    (h : CsrSlot X d op num 0#32) (hop : op ≠ .write) (e : CsrInputs) (c : Csr) :
    trapCsrs (nextCsr X e d c) =
      (if num = csrMepc then c.mepc.extractLsb 31 2 ++ 0#2
        else nextMepc e false (rcsr c e.dhart num) c,
      if num = csrMcause then c.mcause else nextMcause e false (rcsr c e.dhart num) c,
      if num = csrMtval then c.mtval else nextMtval e false (rcsr c e.dhart num) c) := by
  simp only [trapCsrs, nextCsr, h.wcsr_of_read hop, h.wenable, h.num, Prod.mk.injEq]
  refine ⟨?_, ?_, ?_⟩
  · by_cases hn : num = csrMepc
    · rw [if_pos hn, hn, beq_self_eq_true, nextMepc_write, rcsr_mepc]
    · rw [if_neg hn, beq_false_of_ne hn]
  · by_cases hn : num = csrMcause
    · rw [if_pos hn, hn, beq_self_eq_true, nextMcause_write, low_rcsr_mcause, ite_self]
    · rw [if_neg hn, beq_false_of_ne hn]
  · by_cases hn : num = csrMtval
    · rw [if_pos hn, hn, beq_self_eq_true, nextMtval_write, rcsr_mtval]
    · rw [if_neg hn, beq_false_of_ne hn]

theorem trapCsrs_of_not_csr {X : DontCare} {d : Decode} (h : d.dcsr = false) (e : CsrInputs)
    (c : Csr) :
    trapCsrs (nextCsr X e d c) =
      (nextMepc e false (wcsr X d (rcsr c e.dhart (csrNum d))) c,
        nextMcause e false (wcsr X d (rcsr c e.dhart (csrNum d))) c,
        nextMtval e false (wcsr X d (rcsr c e.dhart (csrNum d))) c) := by
  have hw (n : BitVec 12) : wenable d n = false := by rw [wenable, h, Bool.and_false]
  simp only [trapCsrs, nextCsr, hw]

/-- Every value occurs at the output of the CSR write multiplexer while the decode
slot holds no CSR instruction. -/
theorem exists_wcsr_eq (X : DontCare) (v : BitVec 32) :
    ∃ d : Decode, d.dcsr = false ∧ ∀ old, wcsr X d old = v := by
  have hw (d : Decode) (h : d.dfn3 = 1#3) (old : BitVec 32) : wcsr X d old = d.dop1 := by
    unfold wcsr mask
    rw [h]
    rfl
  exact ⟨{ T5Ctrl.reset.toDecode with dfn3 := 1#3, dop1 := v }, rfl, hw _ rfl⟩

/-! ## Reads -/

/-- The edge records the same with a read of the CSR `num` in the decode slot as
without.  Either the execute slot does not trap, or it does in one way and the
register that is read holds already what the trap records. -/
def ReadHarmless (e : CsrInputs) (c : Csr) (num : BitVec 12) : Prop :=
  (andR e.xbra = false ∧ andR e.xstb = false ∧ (num = csrMepc → c.mepc.extractLsb 1 0 = 0#2)) ∨
  (andR e.xbra ≠ andR e.xstb ∧ (num = csrMepc → c.mepc.extractLsb 31 2 = e.xepc) ∧
    (num = csrMcause → c.mcause = recordedMcause e c) ∧
    (num = csrMtval → c.mtval = e.xbpc ++ e.xoff))

theorem append_zero_eq_iff (x : BitVec 32) :
    x.extractLsb 31 2 ++ 0#2 = x ↔ x.extractLsb 1 0 = 0#2 := by
  constructor
  · intro h
    have := congrArg (BitVec.extractLsb' 0 2) h
    rw [BitVec.extractLsb'_append_eq_right] at this
    exact this.symm
  · exact fun h => Word.extractLsb'_append_zero x h

theorem append_zero_inj {x y : BitVec 30} : x ++ 0#2 = y ++ 0#2 ↔ x = y := by
  constructor
  · intro h
    have := congrArg (BitVec.extractLsb' 2 30) h
    rwa [BitVec.extractLsb'_append_eq_left, BitVec.extractLsb'_append_eq_left] at this
  · exact congrArg (· ++ 0#2)

section Harmless

variable {X : DontCare} {d : Decode} {op : CsrOp} {num : BitVec 12} {e : CsrInputs}

/-- One trap.  What it records does not depend on the write multiplexer. -/
theorem readHarmless_iff_of_trap (h : CsrSlot X d op num 0#32) (hop : op ≠ .write)
    (hne : andR e.xbra ≠ andR e.xstb) (c : Csr) :
    (∀ d' : Decode, d'.dcsr = false →
      trapCsrs (nextCsr X e d c) = trapCsrs (nextCsr X e d' c)) ↔ ReadHarmless e c num := by
  have hn (w : BitVec 32) := next_of_trap w c hne
  have hrec (d' : Decode) (hd' : d'.dcsr = false) :
      trapCsrs (nextCsr X e d' c) = (e.xepc ++ 0#2, recordedMcause e c, e.xbpc ++ e.xoff) := by
    rw [trapCsrs_of_not_csr hd', (hn _).1, (hn _).2.1, (hn _).2.2]
  obtain ⟨d₀, hd₀, -⟩ := exists_wcsr_eq X 0#32
  rw [trapCsrs_of_read h hop, (hn _).1, (hn _).2.1, (hn _).2.2]
  constructor
  · intro hall
    have heq := (hall d₀ hd₀).trans (hrec d₀ hd₀)
    simp only [Prod.mk.injEq, ite_eq_right_iff] at heq
    exact Or.inr ⟨hne, fun hm => append_zero_inj.mp (heq.1 hm), heq.2⟩
  · rintro (⟨hb, hs, -⟩ | ⟨-, hcond⟩) d' hd'
    · exact absurd (hb.trans hs.symm) hne
    · rw [hrec d' hd']
      simp only [Prod.mk.injEq, ite_eq_right_iff]
      exact ⟨fun hm => append_zero_inj.mpr (hcond.1 hm), hcond.2⟩

/-- No trap.  Only a read of `mepc` may change anything, its two low bits. -/
theorem readHarmless_iff_of_quiet (h : CsrSlot X d op num 0#32) (hop : op ≠ .write)
    (hb : andR e.xbra = false) (hs : andR e.xstb = false) (c : Csr) :
    (∀ d' : Decode, d'.dcsr = false →
      trapCsrs (nextCsr X e d c) = trapCsrs (nextCsr X e d' c)) ↔ ReadHarmless e c num := by
  have hn (w : BitVec 32) := next_of_quiet w c hb hs
  have hrec (d' : Decode) (hd' : d'.dcsr = false) :
      trapCsrs (nextCsr X e d' c) = (c.mepc, c.mcause, c.mtval) := by
    rw [trapCsrs_of_not_csr hd', (hn _).1, (hn _).2.1, (hn _).2.2]
  obtain ⟨d₀, hd₀, -⟩ := exists_wcsr_eq X 0#32
  rw [trapCsrs_of_read h hop, (hn _).1, (hn _).2.1, (hn _).2.2]
  constructor
  · intro hall
    have hall₀ := (hall d₀ hd₀).trans (hrec d₀ hd₀)
    simp only [Prod.mk.injEq, ite_eq_right_iff, append_zero_eq_iff] at hall₀
    exact Or.inl ⟨hb, hs, hall₀.1⟩
  · rintro (⟨-, -, hcond⟩ | ⟨hne, -⟩) d' hd'
    · rw [hrec d' hd']
      simp only [Prod.mk.injEq, ite_eq_right_iff, append_zero_eq_iff]
      exact ⟨hcond, fun _ => trivial, fun _ => trivial⟩
    · exact absurd (hb.trans hs.symm) hne

/-- Both traps at once.  `mepc` takes whatever the write multiplexer has, so the
instructions that are no reads do not agree among themselves. -/
theorem not_all_of_both (hb : andR e.xbra = true) (hs : andR e.xstb = true) (c : Csr) :
    ¬ ∀ d' : Decode, d'.dcsr = false →
      trapCsrs (nextCsr X e d c) = trapCsrs (nextCsr X e d' c) := by
  have hrec (d' : Decode) (hd' : d'.dcsr = false) :
      (trapCsrs (nextCsr X e d' c)).1 = wcsr X d' (rcsr c e.dhart (csrNum d')) := by
    rw [trapCsrs_of_not_csr hd', nextMepc_of_both _ _ hb hs]
  obtain ⟨d₀, hd₀, hv₀⟩ := exists_wcsr_eq X 0#32
  obtain ⟨d₁, hd₁, hv₁⟩ := exists_wcsr_eq X 1#32
  intro hall
  have h01 := congrArg Prod.fst ((hall d₀ hd₀).symm.trans (hall d₁ hd₁))
  rw [hrec d₀ hd₀, hrec d₁ hd₁, hv₀, hv₁] at h01
  exact absurd h01 (by decide)

theorem readHarmless_iff (h : CsrSlot X d op num 0#32) (hop : op ≠ .write) (e : CsrInputs)
    (c : Csr) :
    (∀ d' : Decode, d'.dcsr = false →
      trapCsrs (nextCsr X e d c) = trapCsrs (nextCsr X e d' c)) ↔ ReadHarmless e c num := by
  by_cases hne : andR e.xbra ≠ andR e.xstb
  · exact readHarmless_iff_of_trap h hop hne c
  · have heq : andR e.xbra = andR e.xstb := Classical.not_not.mp hne
    cases hb : andR e.xbra with
    | false => exact readHarmless_iff_of_quiet h hop hb (heq.symm.trans hb) c
    | true =>
      refine iff_of_false (not_all_of_both hb (heq.symm.trans hb) c) ?_
      rintro (⟨hb', -, -⟩ | ⟨hne', -⟩)
      · exact absurd (hb'.symm.trans hb) Bool.false_ne_true
      · exact hne hne'

end Harmless

/-- A mere read of a CSR in the decode slot leaves in `mepc`, `mcause` and `mtval`
what any instruction that is not a CSR instruction would leave there, exactly when
the execute slot does not trap, or the register that is read holds already what
the trap records. -/
theorem csr_read_keeps_trap_iff (X : DontCare) {s d : T5Rv32i} (hs : Reachable X s) {i : Input}
    {op : CsrOp} {isImm : Bool} {r : BitVec 5} {num : BitVec 12}
    (hw : Encodes i.iwbDat (.csr op isImm r 0#5 num)) (hop : op ≠ .write) (hd : InDecode X s i d)
    {j : Input} (ha : d.advancing j = true) :
    (∀ e : Decode, e.dcsr = false →
      trapCsrs (d.step X j).aslu.toCsr = trapCsrs ((d.withDecode e).step X j).aslu.toCsr) ↔
      ReadHarmless d.csrInputs d.aslu.toCsr num := by
  rw [← readHarmless_iff (hd.csrRead hs hw) hop, T5Rv32i.toCsr_step X ha]
  constructor
  · intro h e he
    rw [h e he, T5Rv32i.toCsr_step_withDecode X ha]
  · intro h e he
    rw [h e he, T5Rv32i.toCsr_step_withDecode X ha]

/-- `csrrs x1, mtval, x0` behind `addi x0, x0, 0`. -/
theorem csr_read_keeps_trap_behind_nop :
    let s := (machine default).run (coldStart default) (List.replicate 3 (Input.fetch nop))
    let d := s.step default (Input.fetch 0x343020F3#32)
    ∀ e : Decode, e.dcsr = false → trapCsrs (d.step default (Input.fetch nop)).aslu.toCsr =
      trapCsrs ((d.withDecode e).step default (Input.fetch nop)).aslu.toCsr := by
  intro s d
  have hw : Encodes (Input.fetch 0x343020F3#32).iwbDat (.csr .set false 1#5 0#5 csrMtval) :=
    ⟨by decide, .csr (by decide) (by decide)⟩
  have hlow : ∀ i ∈ List.replicate 3 (Input.fetch nop), i.sysRst = false := by decide
  exact (csr_read_keeps_trap_iff default (reachable_run_coldStart default hlow) hw (by decide)
    (InDecode.of_step (by decide +kernel) rfl) (by decide +kernel)).mpr
    (Or.inl ⟨by decide +kernel, by decide +kernel, by decide⟩)

/-- `csrrs x1, mcause, x0` of hart 1 behind `ecall` of hart 0.  The cause of the
trap is lost, while `addi x0, x0, 0` in place of the read lets it be recorded. -/
theorem csr_read_loses_ecall :
    let s := (machine default).run (coldStart default)
      [Input.fetch nop, Input.fetch nop, Input.fetch 0x00000073#32]
    let i := Input.fetch 0x342020F3#32
    let d := s.step default i
    Reachable default s ∧ Encodes i.iwbDat (.csr .set false 1#5 0#5 csrMcause) ∧
      InDecode default s i d ∧ d.advancing (Input.fetch nop) = true ∧
      (d.step default (Input.fetch nop)).aslu.mcause = 0#4 ∧
      ((d.withDecode T5Ctrl.reset.toDecode).step default (Input.fetch nop)).aslu.mcause = 11#4 ∧
      ((s.step default (Input.fetch nop)).step default (Input.fetch nop)).aslu.mcause = 11#4 := by
  refine ⟨reachable_run_coldStart default (by decide), ⟨by decide, .csr (by decide) (by decide)⟩,
    InDecode.of_step (by decide +kernel) rfl, by decide +kernel, by decide +kernel,
    by decide +kernel, by decide +kernel⟩

/-! ## Writes -/

/-- The trap register `num` holds the value `v`. -/
def HoldsCsr (c : Csr) (num : BitVec 12) (v : BitVec 32) : Prop :=
  (num = csrMepc → c.mepc = v) ∧ (num = csrMcause → c.mcause = v.extractLsb 3 0) ∧
    (num = csrMtval → c.mtval = v)

/-- After a CSR instruction that names `mepc`, `mcause` or `mtval` the register
holds the value written, exactly when it is not `mcause`, or the execute slot does
not hold an exception or a return, or `mcause` has that value already. -/
theorem csr_write_kept_iff (X : DontCare) {s d : T5Rv32i} (hs : Reachable X s) {i : Input}
    {op : CsrOp} {isImm : Bool} {r q : BitVec 5} {num : BitVec 12}
    (hw : Encodes i.iwbDat (.csr op isImm r q num)) (hd : InDecode X s i d) {j : Input}
    (ha : d.advancing j = true) :
    let v := op.eval (rcsr d.aslu.toCsr d.inst.dhart num) (csrOperand isImm q (s.rs1d i.iwbDat))
    HoldsCsr (d.step X j).aslu.toCsr num v ↔
      (num = csrMcause → d.aslu.xexc = false ∨ v.extractLsb 3 0 = d.aslu.mcause) := by
  intro v
  have hslot := hd.csrSlot hs hw
  have hv : wcsr X d.ctrl.toDecode (rcsr d.aslu.toCsr d.csrInputs.dhart
      (csrNum d.ctrl.toDecode)) = v := by
    rw [hslot.wcsr, hslot.num]
    rfl
  rw [T5Rv32i.toCsr_step X ha]
  simp only [HoldsCsr, nextCsr, hv, hslot.wenable]
  constructor
  · rintro ⟨-, hcause, -⟩ hn
    have h := hcause hn
    rw [hn, beq_self_eq_true, nextMcause_write] at h
    cases hx : d.aslu.xexc with
    | false => exact Or.inl rfl
    | true =>
      rw [show d.csrInputs.xexc = true from hx, if_pos rfl] at h
      exact Or.inr h.symm
  · intro hcond
    refine ⟨fun hn => ?_, fun hn => ?_, fun hn => ?_⟩
    · rw [hn, beq_self_eq_true, nextMepc_write]
    · rw [hn, beq_self_eq_true, nextMcause_write]
      rcases hcond hn with hx | hx
      · rw [show d.csrInputs.xexc = false from hx, if_neg Bool.false_ne_true]
      · rw [hx, ite_self]
    · rw [hn, beq_self_eq_true, nextMtval_write]

/-- `csrrwi x0, mtval, 5` of hart 1 behind `ecall` of hart 0. -/
theorem csr_write_mtval_kept :
    let s := (machine default).run (coldStart default)
      [Input.fetch nop, Input.fetch nop, Input.fetch 0x00000073#32]
    let d := s.step default (Input.fetch 0x3432D073#32)
    (d.step default (Input.fetch nop)).aslu.mtval = 5#32 := by
  intro s d
  have hw : Encodes (Input.fetch 0x3432D073#32).iwbDat (.csr .write true 0#5 5#5 csrMtval) :=
    ⟨by decide, .csr (by decide) (by decide)⟩
  have hlow : ∀ i ∈ [Input.fetch nop, Input.fetch nop, Input.fetch 0x00000073#32],
      i.sysRst = false := by decide
  have hd : InDecode default s (Input.fetch 0x3432D073#32) d :=
    InDecode.of_step (by decide +kernel) rfl
  have ha : d.advancing (Input.fetch nop) = true := by decide +kernel
  have h := (csr_write_kept_iff default (reachable_run_coldStart default hlow) hw hd ha).mpr
    (fun hn => absurd hn (by decide))
  exact h.2.2 rfl

/-- `csrrwi x0, mcause, 5` of hart 1 behind `ecall` of hart 0.  Neither the write
nor the trap reaches `mcause`. -/
theorem csr_write_mcause_lost :
    let s := (machine default).run (coldStart default)
      [Input.fetch nop, Input.fetch nop, Input.fetch 0x00000073#32]
    let i := Input.fetch 0x3422D073#32
    let d := s.step default i
    Reachable default s ∧ Encodes i.iwbDat (.csr .write true 0#5 5#5 csrMcause) ∧
      InDecode default s i d ∧ d.advancing (Input.fetch nop) = true ∧
      (d.step default (Input.fetch nop)).aslu.mcause = 0#4 := by
  refine ⟨reachable_run_coldStart default (by decide), ⟨by decide, .csr (by decide) (by decide)⟩,
    InDecode.of_step (by decide +kernel) rfl, by decide +kernel, by decide +kernel⟩

end Tra5
