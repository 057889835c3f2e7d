/-
SYSTEM words and the causes of traps.

The decoder does not look at most bits of a SYSTEM word.  What is no CSR instruction returns
if bit 21 is set, and otherwise traps as `ebreak` if bit 20 is set and as `ecall` if not.
So `wfi` is a breakpoint, and `sret` returns as `mret` does.  Nothing is ever reported as
an illegal instruction.
-/
import Tra5.Trap.Return

namespace Tra5

open Rv32 T5Aslu

variable {X : DontCare}

/-! ## A SYSTEM word that is no CSR instruction -/

/-- The decoder takes the word for `ecall`, `ebreak` or `mret`. -/
structure IsExc (w : BitVec 32) : Prop where
  rv32 : T5Ctrl.rv32 w = true
  opcode : opcode w = 0b11100#5
  funct3 : (w.getLsbD 13 || w.getLsbD 12) = false

section Word

variable {w : BitVec 32} (h : IsExc w) (pc : BitVec 30) (a b : BitVec 32)

include h

theorem IsExc.xbraNext :
    T5Aslu.xbraNext (T5Ctrl.decode X pc w a b) = BitVec.ofBool (!w.getLsbD 21) ++ 0b1#1 := by
  rw [T5Ctrl.decode_exc h.opcode h.funct3, xbraNext_of_exc rfl rfl]
  simp only [bit21_of_dcp2]

theorem IsExc.andR_xstb : andR (T5Data.advance (T5Ctrl.decode X pc w a b)).xstb = false := by
  have hstrobe : T5Data.strobe 0b11100#5 = false := rfl
  rw [T5Ctrl.decode_exc h.opcode h.funct3, T5Data.advance, andR_pair, hstrobe, Bool.false_and]

/-- The cause is taken from the sum of the first register and the word. -/
theorem IsExc.xbrk (h21 : w.getLsbD 21 = false) (dhart : BitVec 2) (csr : Csr) :
    T5Aslu.xbrk (execute X dhart csr (T5Ctrl.decode X pc w 0#32 b)).xbpc = w.getLsbD 20 := by
  rw [T5Ctrl.decode_exc h.opcode h.funct3]
  simp only [execute, xbpcNext, bit21_of_dcp2, h21, Bool.and_false, Bool.false_eq_true, if_false,
    xadr]
  exact bit20_of_dcp2 w X.dcp2

theorem IsExc.xexc (dhart : BitVec 2) (csr : Csr) :
    (execute X dhart csr (T5Ctrl.decode X pc w a b)).xexc = true := by
  rw [T5Ctrl.decode_exc h.opcode h.funct3]
  rfl

end Word

/-- What the core does with a SYSTEM word that is no CSR instruction, whatever its other bits
are.  Neither is it refused nor has it an effect of its own: it is a return, a breakpoint or a
call.  The word behind it has to end in `11`, or `xepc` stands still, and must not enable a write
of one of the trap registers, as a mere read of one does too. -/
theorem system_word_by_two_bits (X : DontCare) {s d x : T5Rv32i} {i k l : Input}
    (hs : Reachable X s) (hd : InDecode X s i d) (hx : InDecode X d k x)
    (ha : x.advancing l = true) (hl : l.sysRst = false) (hw : IsExc i.iwbDat)
    (hk : T5Ctrl.rv32 k.iwbDat = true) (hfree : x.TrapCsrsFree) :
    (x.step X l).inst.hart = s.owner ∧
    (i.iwbDat.getLsbD 21 = true →
      (x.step X l).iwbAdr = x.aslu.mepc.extractLsb 31 2 ∧
      trapCsrs (x.step X l).aslu.toCsr = trapCsrs x.aslu.toCsr) ∧
    (i.iwbDat.getLsbD 21 = false →
      (x.step X l).iwbAdr = x.aslu.mtvec.extractLsb 31 2 ∧
      (x.step X l).aslu.mepc = byteAdr (s.inst.fpc.extractLsb 31 2) ∧
      (rs1 i.iwbDat = 0#5 →
        (x.step X l).aslu.mcause = if i.iwbDat.getLsbD 20 then 3#4 else 11#4)) := by
  have htransit : Transit X s i d k x l (x.step X l) := ⟨hd, hx, .of_step ha hl⟩
  have hexec := hd.inExecute_next hx
  obtain ⟨dhart, csr, hslot, hdata⟩ := hexec.slot hs.running hw.rv32
  have hbra : x.aslu.xbra = BitVec.ofBool (!i.iwbDat.getLsbD 21) ++ 0b1#1 :=
    (congrArg Execute.xbra hslot).trans (hw.xbraNext _ _ _)
  have hstb : andR x.data.xstb = false := by
    rw [hdata]
    exact hw.andR_xstb _ _ _
  refine ⟨(htransit.passage.owner hs.running).1, fun h21 => ?_, fun h21 => ?_⟩
  · rw [h21] at hbra
    refine ⟨?_, T5Rv32i.trapCsrs_step_of_quiet X ha hfree (by rw [hbra]; rfl) hstb⟩
    rw [T5Rv32i.iwbAdr_step X ha hl]
    exact nextAdr_of_return hbra hstb _ _ _ _
  · rw [h21] at hbra
    have hone : andR x.csrInputs.xbra ≠ andR x.csrInputs.xstb := by
      show andR x.aslu.xbra ≠ andR x.data.xstb
      rw [hbra, hstb]
      decide
    obtain ⟨hmepc, hmcause, -⟩ := next_of_trap (x.csrValue X) x.aslu.toCsr hone
    have hcsrs := T5Rv32i.trapCsrs_step X ha hfree
    rw [hmepc, hmcause] at hcsrs
    simp only [trapCsrs, Prod.mk.injEq] at hcsrs
    refine ⟨?_, ?_, fun h0 => ?_⟩
    · rw [T5Rv32i.iwbAdr_step X ha hl]
      exact nextAdr_of_trap (Or.inl ⟨hbra, hstb⟩) _ _ _ _
    · refine hcsrs.1.trans ?_
      show x.ctrl.xepc ++ 0#2 = _
      rw [(htransit.pcs hs.running hw.rv32).2 hk]
      rfl
    · rw [rs1d_of_zero hs hexec.advancing h0] at hslot
      have hbpc : x.csrInputs.xbpc = _ := congrArg Execute.xbpc hslot
      have hexc : x.csrInputs.xexc = true :=
        (congrArg Execute.xexc hslot).trans (hw.xexc _ _ _ _ _)
      have hb : x.csrInputs.xbra = 0b11#2 := hbra
      refine hcsrs.2.1.trans ?_
      rw [recordedMcause, hb, hexc, hbpc, hw.xbrk _ _ h21]
      cases i.iwbDat.getLsbD 20 <;> rfl

/-- `wfi` of hart 0 at address 0, with `mtvec` at zero. -/
theorem wfi_is_breakpoint :
    let s := (machine default).run (coldStart default) [Input.fetch nop, Input.fetch nop]
    let d := s.step default (Input.fetch 0x10500073#32)
    let x := d.step default (Input.fetch nop)
    let y := x.step default (Input.fetch nop)
    y.iwbAdr = 0#30 ∧ y.aslu.mepc = 0#32 ∧ y.aslu.mcause = 3#4 := by
  intro s d x y
  have hw : IsExc (Input.fetch 0x10500073#32).iwbDat := ⟨by decide, by decide, by decide⟩
  have h := system_word_by_two_bits default (reachable_run_coldStart default (by decide))
    (s := s) (d := d) (x := x) (i := Input.fetch 0x10500073#32) (k := Input.fetch nop)
    (l := Input.fetch nop) (.of_step (by decide +kernel) rfl) (.of_step (by decide +kernel) rfl)
    (by decide +kernel) rfl hw (by decide) (by decide +kernel)
  obtain ⟨hadr, hmepc, hmcause⟩ := h.2.2 (by decide)
  exact ⟨hadr.trans (by decide +kernel), hmepc.trans (by decide +kernel),
    (hmcause (by decide)).trans (by decide)⟩

/-! ## The causes -/

/-- Misaligned jump, breakpoint, misaligned load, misaligned store and call. -/
def causes : List (BitVec 4) := [0#4, 3#4, 4#4, 6#4, 11#4]

/-- The execute slot traps in one way only, or the cause stays, and `mcause` holds a cause. -/
structure KnownCause (p : Pipe) : Prop where
  single : p.aslu.xexc = false → andR p.aslu.xbra = true → andR p.data.xstb = false
  mcause : p.aslu.mcause ∈ causes

/-- Without `dexc` a jump is needed for one of the traps and an access for the other, which is
one bit of the same register. -/
theorem single_of_decode {d : Decode} (he : d.dexc = false) (hb : andR (xbraNext d) = true) :
    andR (T5Data.advance d).xstb = false := by
  rw [xbraNext, andR_pair, he, Bool.false_and, Bool.or_false, Bool.and_eq_true, wbra] at hb
  have h4 : d.dopc.getLsbD 4 = true := by
    revert hb
    cases d.dopc.getLsbD 4 <;> simp
  rw [T5Data.advance, andR_pair, T5Data.strobe, h4]
  rfl

theorem nextMcause_mem {e : CsrInputs} {c : Csr} (w : BitVec 32)
    (hs : e.xexc = false → andR e.xbra = true → andR e.xstb = false) (hc : c.mcause ∈ causes) :
    nextMcause e false w c ∈ causes := by
  rw [nextMcause, Bool.or_false, Bool.or_false]
  cases hx : e.xexc with
  | false =>
    cases hb : andR e.xbra with
    | false =>
      cases andR e.xstb with
      | false => exact hc
      | true =>
        show 1#2 ++ BitVec.ofBool e.xwre ++ 0#1 ∈ causes
        cases e.xwre <;> decide
    | true =>
      rw [hs hx hb]
      show 0#4 ∈ causes
      decide
  | true =>
    cases andR e.xbra with
    | false => exact hc
    | true =>
      cases andR e.xstb with
      | false =>
        show BitVec.ofBool (!xbrk e.xbpc) ++ 3#3 ∈ causes
        cases xbrk e.xbpc <;> decide
      | true => exact hc

theorem KnownCause.advance {p : Pipe} (h : KnownCause p)
    (hfree : wenable p.ctrl.toDecode csrMcause = false) (k : Sample) :
    KnownCause (p.advance X k) := by
  refine ⟨fun he hb => single_of_decode he hb, ?_⟩
  show nextMcause _ (wenable p.ctrl.toDecode csrMcause) _ p.aslu.toCsr ∈ causes
  rw [hfree]
  exact nextMcause_mem _ h.single h.mcause

theorem Pipe.AtReset.knownCause {p : Pipe} (h : p.AtReset) : KnownCause p := by
  constructor
  · intro _ _
    rw [h.data]
    rfl
  · rw [h.aslu]
    decide

/-- In every run after reset, whatever 32-bit words the four harts fetch: unless the decode
slot enables a write of `mcause`, it holds one of the five causes that the core knows.  In
particular no word is ever reported as an illegal instruction.  The write is enabled by a CSR
instruction that names `mcause`, and by any other word with the flag of one. -/
theorem only_known_causes (X : DontCare) {c : T5Rv32i} (hc : PostReset X c) {is : List Input}
    (his : ∀ i ∈ is, i.sysRst = false)
    (hfree : (machine X).AtEdges c is
      (fun t _ => wenable t.ctrl.toDecode csrMcause = false)) :
    ((machine X).run c is).aslu.mcause ∈ causes := by
  have hrun : KnownCause ((machine X).run c is).pipe := by
    refine (stallFree X).abs_invariant (Q := KnownCause) hc.running hc.atReset.knownCause ?_ his
      hfree
    intro t i _ _ _ hP hQ
    exact hQ.advance hP i.sample
  exact hrun.mcause

/-- A word that is no instruction at all, and then `wfi`. -/
theorem only_known_causes_wfi :
    let is := [nop, nop, 0xFFFFFFFF#32, 0x00000000#32, nop, nop, 0x10500073#32, nop, nop].map
      Input.fetch
    ((machine default).run (coldStart default) is).aslu.mcause ∈ causes ∧
      ((machine default).run (coldStart default) is).aslu.mcause = 3#4 := by
  intro is
  have hlow : ∀ i ∈ is, i.sysRst = false := by decide
  have hfree : (machine default).AtEdges (coldStart default) is
      (fun t _ => wenable t.ctrl.toDecode csrMcause = false) :=
    Clocked.Machine.AtEdges.of_index (by decide +kernel)
  exact ⟨only_known_causes default (postReset_coldStart default) hlow hfree, by decide +kernel⟩

end Tra5
