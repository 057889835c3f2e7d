/-
From a trap to the return.

`mepc` is one register for four harts, and it is loaded at every advancing edge,
from the execute slot, from the decode slot or from itself.  After the trap of one
hart it holds the PC of the trap as long as nothing else traps and nothing writes
it, whatever else the slots hold, so that the `mret` at the end of the handler goes
back there, or to the address that the handler has written.
-/
import Tra5.Trap.Entry

namespace Tra5

open Rv32 T5Aslu

variable {X : DontCare}

/-! ## Mere reads -/

/-- A CSR instruction in the decode slot that names `x0` has read it as zero. -/
def Pipe.ReadsZero (p : Pipe) : Prop :=
  p.ctrl.dcsr = true → p.ctrl.dcp2.extractLsb 19 15 = 0#5 → p.ctrl.dop1 = 0#32

theorem Pipe.readsZero_advance {p : Pipe} (hz : p.gprf.ZeroClear) {k : Sample}
    (hk : T5Ctrl.rv32 k.iwbDat = true) : (p.advance X k).ReadsZero := by
  intro hcsr hrs1
  rw [p.advance_ctrl_of_rv32 X hk] at hcsr hrs1 ⊢
  have hcsr : T5Ctrl.ctype (T5Ctrl.opc k.iwbDat) k.iwbDat = true := hcsr
  simp only [T5Ctrl.decode, hcsr, Bool.true_or, if_true, rs1_of_dcp2] at hrs1
  simp only [T5Ctrl.decode, hcsr, Bool.or_true, if_true]
  show p.gprf.rs1d p.inst.fhart (rs1 k.iwbDat) = 0#32
  rw [hrs1]
  exact (hz _).1

/-! ## The trap -/

/-- A word that ends in `11` does not trap in both ways at once. -/
theorem not_both_of_decode (X : DontCare) (pc : BitVec 30) (w a b : BitVec 32)
    (h : andR (xbraNext (T5Ctrl.decode X pc w a b)) = true) :
    andR (T5Data.advance (T5Ctrl.decode X pc w a b)).xstb = false := by
  rw [T5Data.advance, andR_pair]
  rw [xbraNext, andR_pair] at h
  have hstrobe : (T5Ctrl.decode X pc w a b).dopc.getLsbD 4 = true := by
    cases h4 : (T5Ctrl.decode X pc w a b).dopc.getLsbD 4 with
    | true => rfl
    | false =>
      have hexc : (T5Ctrl.decode X pc w a b).dexc = false := by
        have h4 : (T5Ctrl.opc w).getLsbD 4 = false := h4
        show T5Ctrl.etype (T5Ctrl.opc w) w = false
        rw [T5Ctrl.etype, h4, Bool.false_and, Bool.false_and]
      rw [wbra, h4, hexc] at h
      exact absurd h (by simp)
  rw [T5Data.strobe, hstrobe]
  rfl

theorem mepc_of_trap {s d x : T5Rv32i} {i k t : Input} (hs : Reachable X s)
    (hd : InDecode X s i d) (hx : InDecode X d k x) (ha : x.advancing t = true)
    (ht : t.sysRst = false) (hi : T5Ctrl.rv32 i.iwbDat = true) (hk : T5Ctrl.rv32 k.iwbDat = true)
    (htrap : x.csrInputs.traps = true) (hfree : wenable x.ctrl.toDecode csrMepc = false) :
    (x.step X t).aslu.mepc = byteAdr (s.inst.fpc.extractLsb 31 2) := by
  have htransit : Transit X s i d k x t (x.step X t) := ⟨hd, hx, .of_step ha ht⟩
  obtain ⟨dhart, csr, hexec, hdata⟩ := htransit.passage.slot hs.running hi
  have hbra : x.csrInputs.xbra = xbraNext _ := congrArg Execute.xbra hexec
  have hstb : x.csrInputs.xstb = (T5Data.advance _).xstb := congrArg T5Data.xstb hdata
  have hone : andR x.csrInputs.xbra ≠ andR x.csrInputs.xstb := by
    rw [hbra, hstb]
    rw [CsrInputs.traps, hbra, hstb] at htrap
    cases hb : andR (xbraNext (T5Ctrl.decode X (s.inst.fpc.extractLsb 31 2) i.iwbDat
        (s.rs1d i.iwbDat) (s.rs2d i.iwbDat))) with
    | true =>
      rw [not_both_of_decode X _ _ _ _ hb]
      decide
    | false =>
      rw [hb, Bool.false_or] at htrap
      rw [htrap]
      decide
  have hmepc : (x.step X t).aslu.mepc = nextMepc x.csrInputs _ (x.csrValue X) x.aslu.toCsr :=
    congrArg Csr.mepc (T5Rv32i.toCsr_step X ha)
  rw [hmepc, hfree, (next_of_trap (x.csrValue X) x.aslu.toCsr hone).1]
  show x.ctrl.xepc ++ 0#2 = _
  rw [(htransit.pcs hs.running hi).2 hk]
  rfl

/-! ## The handler -/

/-- The value written to `mepc` last, when the edge is added to the run.  A CSR
instruction that only reads does not count as a write. -/
def lastMepc (X : DontCare) (e : Option (BitVec 32)) (edge : T5Rv32i × Input) :
    Option (BitVec 32) :=
  if wenable edge.1.ctrl.toDecode csrMepc && !pureRead edge.1.ctrl.toDecode then
    some (edge.1.csrValue X)
  else e

/-- The value written to `mepc` last in a run, if there is one. -/
def mepcWritten (X : DontCare) (y : T5Rv32i) (js : List Input) : Option (BitVec 32) :=
  ((machine X).trace y js).foldl (lastMepc X) none

/-- The address to return to: that of the trap, unless `mepc` has been written. -/
def returnAdr (p : BitVec 30) (e : Option (BitVec 32)) : BitVec 30 :=
  match e with
  | none => p
  | some v => v.extractLsb 31 2

/-- What holds inside the handler. -/
structure InHandler (X : DontCare) (p : BitVec 30) (u : T5Rv32i) (e : Option (BitVec 32)) :
    Prop where
  reachable : Reachable X u
  readsZero : u.pipe.ReadsZero
  mepc : u.aslu.mepc.extractLsb 31 2 = returnAdr p e

theorem InHandler.stall {p : BitVec 30} {u : T5Rv32i} {e : Option (BitVec 32)}
    (h : InHandler X p u e) {j : Input} (hj : j.sysRst = false) (ha : u.advancing j = false) :
    InHandler X p (u.step X j) e := by
  have hpipe : (u.step X j).pipe = u.pipe :=
    (stallFree X).abs_stall u j h.reachable.running hj ha
  refine ⟨h.reachable.step hj, by rw [hpipe]; exact h.readsZero, ?_⟩
  rw [show (u.step X j).aslu = u.aslu from congrArg Pipe.aslu hpipe]
  exact h.mepc

theorem csrValue_of_read {u : T5Rv32i} (hz : u.pipe.ReadsZero)
    (hw : wenable u.ctrl.toDecode csrMepc = true) (hr : pureRead u.ctrl.toDecode = true) :
    u.csrValue X = u.aslu.mepc.extractLsb 31 2 ++ 0#2 := by
  simp only [wenable, Bool.and_eq_true, beq_iff_eq] at hw
  rw [T5Rv32i.csrValue, hw.1, rcsr_mepc]
  refine wcsr_of_pureRead hr (fun _ => hz hw.2 ?_) _
  simp only [pureRead, Bool.and_eq_true, beq_iff_eq] at hr
  exact hr.2

theorem InHandler.edge {p : BitVec 30} {u : T5Rv32i} {e : Option (BitVec 32)}
    (h : InHandler X p u e) {j : Input} (hj : j.sysRst = false) (ha : u.advancing j = true)
    (hrv : T5Ctrl.rv32 j.iwbDat = true) (hquiet : u.csrInputs.traps = false) :
    InHandler X p (u.step X j) (lastMepc X e (u, j)) := by
  have hrun := h.reachable.running
  have hpipe := T5Rv32i.pipe_step_of_advancing X hrun.readSafe ha hj
  refine ⟨h.reachable.step hj, ?_, ?_⟩
  · rw [hpipe]
    exact Pipe.readsZero_advance h.reachable.zeroClear hrv
  · have hmepc : (u.step X j).aslu.mepc = nextMepc u.csrInputs _ (u.csrValue X) u.aslu.toCsr :=
      congrArg Csr.mepc (T5Rv32i.toCsr_step X ha)
    rw [hmepc, lastMepc]
    cases hw : wenable u.ctrl.toDecode csrMepc with
    | false =>
      obtain ⟨hb, hs⟩ := Bool.or_eq_false_iff.mp hquiet
      rw [(next_of_quiet (e := u.csrInputs) (u.csrValue X) u.aslu.toCsr hb hs).1]
      exact h.mepc
    | true =>
      rw [nextMepc_write]
      cases hr : pureRead u.ctrl.toDecode with
      | false => rfl
      | true =>
        rw [csrValue_of_read h.readsZero hw hr]
        exact (BitVec.extractLsb'_append_eq_left).trans h.mepc

theorem InHandler.run {p : BitVec 30} {y : T5Rv32i} (h : InHandler X p y none) {js : List Input}
    (hjs : ∀ j ∈ js, j.sysRst = false)
    (hedges : (machine X).AtEdges y js
      (fun u j => T5Ctrl.rv32 j.iwbDat = true ∧ u.csrInputs.traps = false)) :
    InHandler X p ((machine X).run y js) (mepcWritten X y js) :=
  Clocked.Machine.ghost_run (M := machine X) (P := InHandler X p)
    (fun _ _ _ h hj ha hR => h.edge hj ha hR.1 hR.2) (fun _ _ _ h hj ha => h.stall hj ha) h hjs
    hedges

theorem inHandler_of_trap {s d x : T5Rv32i} {i k t : Input} (hs : Reachable X s)
    (hd : InDecode X s i d) (hx : InDecode X d k x) (ha : x.advancing t = true)
    (ht : t.sysRst = false) (hi : T5Ctrl.rv32 i.iwbDat = true) (hk : T5Ctrl.rv32 k.iwbDat = true)
    (htv : T5Ctrl.rv32 t.iwbDat = true) (htrap : x.csrInputs.traps = true)
    (hfree : wenable x.ctrl.toDecode csrMepc = false) :
    InHandler X (s.inst.fpc.extractLsb 31 2) (x.step X t) none := by
  have hxr : Reachable X x := hx.reachable (hd.reachable hs)
  refine ⟨hxr.step ht, ?_, ?_⟩
  · rw [T5Rv32i.pipe_step_of_advancing X hxr.running.readSafe ha ht]
    exact Pipe.readsZero_advance hxr.zeroClear htv
  · rw [mepc_of_trap hs hd hx ha ht hi hk htrap hfree]
    exact BitVec.extractLsb'_append_eq_left

/-! ## The return -/

theorem passage_of_step {s x : T5Rv32i} {i l : Input} (h : InExecute X s i x)
    (ha : x.advancing l = true) (hl : l.sysRst = false) : Passage X s i x (x.step X l) := by
  refine ⟨h, [l], by simpa using hl, ?_, rfl⟩
  rw [Clocked.Machine.edges_cons_of_enabled ha]
  rfl

/-- A trap and the return from it.  At the edge `t` a word of one hart traps at the
address `p`, and in the run `js` after it every word ends in `11` and nothing traps.
An `mret` of the same hart in the execute slot at the end of the run then sends it to
`p`, or to the address last written to `mepc`, and a CSR instruction of the hart that
names `mepc` before it has been written loads `p`.  The run may be of any length and
stall anywhere. -/
theorem trap_return (X : DontCare) {s d x : T5Rv32i} {i k t : Input} (hs : Reachable X s)
    (hd : InDecode X s i d) (hx : InDecode X d k x) (ha : x.advancing t = true)
    (ht : t.sysRst = false) (hi : T5Ctrl.rv32 i.iwbDat = true) (hk : T5Ctrl.rv32 k.iwbDat = true)
    (htv : T5Ctrl.rv32 t.iwbDat = true) (htrap : x.csrInputs.traps = true)
    (hfree : wenable x.ctrl.toDecode csrMepc = false) {js : List Input}
    (hjs : ∀ j ∈ js, j.sysRst = false)
    (hedges : (machine X).AtEdges (x.step X t) js
      (fun u j => T5Ctrl.rv32 j.iwbDat = true ∧ u.csrInputs.traps = false)) :
    let y := x.step X t
    let z := (machine X).run y js
    let p := s.inst.fpc.extractLsb 31 2
    (∀ (s' : T5Rv32i) (i' l : Input), Reachable X s' → InExecute X s' i' z →
      Encodes i'.iwbDat .mret → s'.owner = s.owner → z.advancing l = true → l.sysRst = false →
      (z.step X l).inst.hart = s.owner ∧ (z.step X l).iwbAdr = returnAdr p (mepcWritten X y js)) ∧
    (∀ (as bs : List Input) (j : Input) (s' m : T5Rv32i) (i' : Input) (op : CsrOp) (isImm : Bool)
      (r q : BitVec 5), js = as ++ j :: bs → Reachable X s' →
      InDecode X s' i' ((machine X).run y as) → Encodes i'.iwbDat (.csr op isImm r q csrMepc) →
      s'.owner = s.owner → ((machine X).run y as).advancing j = true →
      mepcWritten X y as = none → Passage X s' i' (((machine X).run y as).step X j) m →
      m.inst.mhart = s.owner ∧ m.back.mwre = orR r ∧ m.rd0a = r ∧ m.rd0d = byteAdr p) := by
  intro y z p
  have hy := inHandler_of_trap hs hd hx ha ht hi hk htv htrap hfree
  refine ⟨?_, ?_⟩
  · intro s' i' l hs' hexec hw howner hl hlr
    obtain ⟨hbra, hstb⟩ := hexec.code hs'.running hw
    refine ⟨((passage_of_step hexec hl hlr).owner hs'.running).1.trans howner, ?_⟩
    rw [T5Rv32i.iwbAdr_step X hl hlr, ← (hy.run hjs hedges).mepc]
    exact nextAdr_of_return hbra hstb _ _ _ _
  · rintro as bs j s' m i' op isImm r q rfl hs' hdec hw howner hj hnone hm
    have has : ∀ i ∈ as, i.sysRst = false := fun i hi => hjs i (List.mem_append_left _ hi)
    have hjr : j.sysRst = false := hjs j (List.mem_append_right _ List.mem_cons_self)
    obtain ⟨hwre, hrd, hval⟩ := hdec.csr_port hs' hw hj hjr hm
    refine ⟨(hm.owner hs'.running).1.trans howner, hwre, hrd, ?_⟩
    have hmepc := (hy.run has hedges.of_append).mepc
    rw [hnone] at hmepc
    rw [hval, rcsr_mepc, hmepc]
    rfl

/-- `ecall` of hart 0 at address 0, a handler that consists of `mret` alone, and
`addi x0, x0, 0` in all other slots. -/
theorem trap_return_ecall :
    let s := (machine default).run (coldStart default) [Input.fetch nop, Input.fetch nop]
    let d := s.step default (Input.fetch 0x00000073#32)
    let x := d.step default (Input.fetch nop)
    let z := (machine default).run (x.step default (Input.fetch nop))
      [Input.fetch nop, Input.fetch 0x30200073#32, Input.fetch nop]
    (z.step default (Input.fetch nop)).iwbAdr = 0#30 := by
  intro s d x z
  let s' := (x.step default (Input.fetch nop)).step default (Input.fetch nop)
  have hs : Reachable default s := reachable_run_coldStart default (by decide)
  have hlow : ∀ k ∈ [Input.fetch 0x00000073#32, Input.fetch nop, Input.fetch nop, Input.fetch nop],
      k.sysRst = false := by decide
  have hs' : Reachable default s' := hs.run hlow
  have hw : Encodes (Input.fetch 0x30200073#32).iwbDat .mret := ⟨by decide, .mret rfl⟩
  have hd : InDecode default s (Input.fetch 0x00000073#32) d := .of_step (by decide +kernel) rfl
  have hx : InDecode default d (Input.fetch nop) x := .of_step (by decide +kernel) rfl
  have hexec : InExecute default s' (Input.fetch 0x30200073#32) z :=
    (InDecode.of_step (by decide +kernel) rfl).inExecute (by decide +kernel) rfl
  have hquiet : (machine default).AtEdges (x.step default (Input.fetch nop))
      [Input.fetch nop, Input.fetch 0x30200073#32, Input.fetch nop]
      (fun u j => T5Ctrl.rv32 j.iwbDat = true ∧ u.csrInputs.traps = false) :=
    Clocked.Machine.AtEdges.of_index (by decide +kernel)
  have h := (trap_return default hs hd hx (t := Input.fetch nop) (by decide +kernel) rfl (by decide)
    (by decide) (by decide) (by decide +kernel) (by decide +kernel)
    (by decide) hquiet).1
    s' (Input.fetch 0x30200073#32) (Input.fetch nop) hs' hexec hw (by decide +kernel)
    (by decide +kernel) rfl
  exact h.2.trans (by decide +kernel)

/-- The word `0x341FD053` is no CSR instruction but one of the opcode OP-FP, and the
decoder takes it for `csrrwi x0, mepc, 31`.  Executed by hart 3 after the trap of hart
0 at address 0, it makes the `mret` of hart 0 go to address 28. -/
theorem trap_return_lost :
    let opfp := Input.fetch 0x341FD053#32
    let s := (machine default).run (coldStart default) [Input.fetch nop, Input.fetch nop]
    let d := s.step default (Input.fetch 0x00000073#32)
    let x := d.step default (Input.fetch nop)
    let y := x.step default opfp
    let s' := y.step default (Input.fetch nop)
    let z := (machine default).run y [Input.fetch nop, Input.fetch 0x30200073#32, Input.fetch nop]
    (Reachable default s ∧ Encodes (Input.fetch 0x00000073#32).iwbDat .ecall ∧
      Transit default s (Input.fetch 0x00000073#32) d (Input.fetch nop) x opfp y) ∧
    (∀ j ∈ [Input.fetch nop, opfp, Input.fetch 0x30200073#32], T5Ctrl.rv32 j.iwbDat = true ∧
      ∀ op isImm r q num, ¬ Encodes j.iwbDat (.csr op isImm r q num)) ∧
    (x.csrInputs.traps = true ∧ (machine default).AtEdges y
      [Input.fetch nop, Input.fetch 0x30200073#32, Input.fetch nop]
      (fun u _ => u.csrInputs.traps = false)) ∧
    (Encodes (Input.fetch 0x30200073#32).iwbDat .mret ∧
      InExecute default s' (Input.fetch 0x30200073#32) z ∧ s'.owner = s.owner ∧
      z.advancing (Input.fetch nop) = true) ∧
    s.inst.fpc.extractLsb 31 2 = 0#30 ∧ (z.step default (Input.fetch nop)).iwbAdr = 7#30 := by
  intro opfp s d x y s' z
  have hno {w : BitVec 32} (hw : opcode w ≠ 0b11100#5 ∨ funct3 w = 0#3) (op : CsrOp) (isImm : Bool)
      (r q : BitVec 5) (num : BitVec 12) : ¬ Encodes w (.csr op isImm r q num) := by
    intro he
    cases he.format with
    | csr h hf =>
      rcases hw with hw | hw
      · exact hw h
      · rw [hw] at hf
        revert hf
        cases op <;> cases isImm <;> decide
  refine ⟨⟨reachable_run_coldStart default (by decide), ⟨by decide, .ecall rfl⟩,
    transit_of_edges (by decide +kernel) (by decide +kernel) (by decide +kernel) (by decide)⟩, ?_,
    ⟨by decide +kernel, Clocked.Machine.AtEdges.of_index (by decide +kernel)⟩,
    ⟨⟨by decide, .mret rfl⟩,
      (InDecode.of_step (by decide +kernel) rfl).inExecute (by decide +kernel) rfl,
      by decide +kernel, by decide +kernel⟩, by decide +kernel, by decide +kernel⟩
  intro j hj
  simp only [List.mem_cons, List.not_mem_nil, or_false] at hj
  rcases hj with rfl | rfl | rfl
  · exact ⟨by decide, hno (Or.inl (by decide))⟩
  · exact ⟨by decide, hno (Or.inl (by decide))⟩
  · exact ⟨by decide, hno (Or.inr (by decide))⟩

end Tra5
