/-
The slots of the core.

A word is decoded at an advancing edge.  It is then in the decode slot for as
long as the core stalls, in the execute slot after the next advancing edge and
in the memory slot after the one that follows.  The predicates here say so of
states of the core, and relate the registers of the slot to the word.
-/
import Tra5.Pipeline.Passage
import Tra5.Pipeline.Zero
import Tra5.Isa.Instr

namespace Tra5

variable {X : DontCare}

/-! ## The decode slot -/

/-- The word decoded at the edge `i` of the state `s` is in the decode slot of
`d`. -/
structure InDecode (X : DontCare) (s : T5Rv32i) (i : Input) (d : T5Rv32i) : Prop where
  advancing : s.advancing i = true
  sysRst : i.sysRst = false
  stalls : ∃ ks, (∀ k ∈ ks, k.sysRst = false) ∧ (machine X).edges (s.step X i) ks = [] ∧
    d = (machine X).run (s.step X i) ks

theorem InDecode.pipe {s d : T5Rv32i} {i : Input} (hs : T5Rv32i.Running s)
    (h : InDecode X s i d) : d.pipe = s.pipe.advance X i.sample := by
  obtain ⟨ks, hks, he, rfl⟩ := h.stalls
  rw [pipe_run_of_stalls (hs.step X h.sysRst) hks he,
    T5Rv32i.pipe_step_of_advancing X hs.readSafe h.advancing h.sysRst]

theorem InDecode.running {s d : T5Rv32i} {i : Input} (hs : T5Rv32i.Running s)
    (h : InDecode X s i d) : T5Rv32i.Running d := by
  obtain ⟨ks, hks, -, rfl⟩ := h.stalls
  exact (stallFree X).inv_run (hs.step X h.sysRst) hks

theorem InDecode.of_step {s : T5Rv32i} {i : Input} (ha : s.advancing i = true)
    (hi : i.sysRst = false) : InDecode X s i (s.step X i) :=
  ⟨ha, hi, [], fun _ hk => absurd hk List.not_mem_nil, rfl, rfl⟩

theorem operands_of_advancing {s : T5Rv32i} {i : Input} (hs : T5Rv32i.Running s)
    (ha : s.advancing i = true) (w : BitVec 32) :
    s.rs1d w = s.pipe.rs1d w ∧ s.rs2d w = s.pipe.rs2d w := by
  have hena := T5Rv32i.ena_of_sena (T5Rv32i.advancing_iff.mp ha).2
  exact ⟨T5Rv32i.rs1d_eq_of_readSafe hs.readSafe hena w,
    T5Rv32i.rs2d_eq_of_readSafe hs.readSafe hena w⟩

theorem InDecode.toDecode {s d : T5Rv32i} {i : Input} (hs : T5Rv32i.Running s)
    (h : InDecode X s i d) (hrv : T5Ctrl.rv32 i.iwbDat = true) :
    d.ctrl.toDecode = T5Ctrl.decode X (s.inst.fpc.extractLsb 31 2) i.iwbDat (s.rs1d i.iwbDat)
      (s.rs2d i.iwbDat) := by
  obtain ⟨h1, h2⟩ := operands_of_advancing hs h.advancing i.iwbDat
  have hctrl : d.ctrl = _ := congrArg Pipe.ctrl (h.pipe hs)
  rw [hctrl, h1, h2, Pipe.advance_ctrl_of_rv32 X s.pipe (k := i.sample) hrv]
  rfl

/-! ## The execute and memory slots -/

/-- The word decoded at the edge `i` of the state `s` is in the execute slot of
`x`. -/
structure InExecute (X : DontCare) (s : T5Rv32i) (i : Input) (x : T5Rv32i) : Prop where
  advancing : s.advancing i = true
  sysRst : i.sysRst = false
  execute : ∃ ks, (∀ k ∈ ks, k.sysRst = false) ∧
    ((machine X).edges (s.step X i) ks).length = 1 ∧ x = (machine X).run (s.step X i) ks

theorem InExecute.running {s x : T5Rv32i} {i : Input} (hs : T5Rv32i.Running s)
    (h : InExecute X s i x) : T5Rv32i.Running x := by
  obtain ⟨ks, hks, -, rfl⟩ := h.execute
  exact (stallFree X).inv_run (hs.step X h.sysRst) hks

theorem InExecute.pipe {s x : T5Rv32i} {i : Input} (hs : T5Rv32i.Running s)
    (h : InExecute X s i x) : ∃ k, x.pipe = (s.pipe.advance X i.sample).advance X k := by
  obtain ⟨ks, hks, hx, rfl⟩ := h.execute
  obtain ⟨k, -, hk⟩ := pipe_run_one (hs.step X h.sysRst) hks hx
  exact ⟨k.sample, by
    rw [hk, T5Rv32i.pipe_step_of_advancing X hs.readSafe h.advancing h.sysRst]⟩

theorem InExecute.slot {s x : T5Rv32i} {i : Input} (hs : T5Rv32i.Running s)
    (h : InExecute X s i x) (hrv : T5Ctrl.rv32 i.iwbDat = true) :
    let d := T5Ctrl.decode X (s.inst.fpc.extractLsb 31 2) i.iwbDat (s.rs1d i.iwbDat)
      (s.rs2d i.iwbDat)
    ∃ dhart csr, x.aslu.toExecute = T5Aslu.execute X dhart csr d ∧ x.data = T5Data.advance d := by
  intro d
  obtain ⟨k, hx⟩ := h.pipe hs
  obtain ⟨h1, h2⟩ := operands_of_advancing hs h.advancing i.iwbDat
  have hd : (s.pipe.advance X i.sample).ctrl.toDecode = d := by
    rw [Pipe.advance_ctrl_of_rv32 X s.pipe (k := i.sample) hrv]
    show T5Ctrl.decode _ _ _ _ _ = T5Ctrl.decode _ _ _ _ _
    rw [h1, h2]
    rfl
  have haslu : x.aslu.toExecute = _ := congrArg (fun p : Pipe => p.aslu.toExecute) hx
  have hdata : x.data = T5Data.advance (s.pipe.advance X i.sample).ctrl.toDecode :=
    congrArg Pipe.data hx
  exact ⟨(s.pipe.advance X i.sample).inst.dhart, (s.pipe.advance X i.sample).aslu.toCsr,
    by rw [haslu, ← hd]; rfl, by rw [hdata, hd]⟩

theorem InDecode.inExecute {s d : T5Rv32i} {i j : Input} (h : InDecode X s i d)
    (ha : d.advancing j = true) (hj : j.sysRst = false) : InExecute X s i (d.step X j) := by
  obtain ⟨ks, hks, he, rfl⟩ := h.stalls
  refine ⟨h.advancing, h.sysRst, ks ++ [j], ?_, ?_, ?_⟩
  · intro k hk
    rcases List.mem_append.mp hk with hk | hk
    · exact hks k hk
    · rw [List.mem_singleton.mp hk]
      exact hj
  · rw [Clocked.Machine.edges_append, he, Clocked.Machine.edges_cons_of_enabled ha]
    rfl
  · rw [Clocked.Machine.run_append]
    rfl

/-- The word in the execute slot of `x` is in the memory slot of `m`. -/
structure Passage (X : DontCare) (s : T5Rv32i) (i : Input) (x m : T5Rv32i) : Prop
    extends InExecute X s i x where
  memory : ∃ ks, (∀ k ∈ ks, k.sysRst = false) ∧
    ((machine X).edges x ks).length = 1 ∧ m = (machine X).run x ks

theorem Passage.pipes {s x m : T5Rv32i} {i : Input} (hs : T5Rv32i.Running s)
    (h : Passage X s i x m) :
    ∃ k l, x.pipe = (s.pipe.advance X i.sample).advance X k ∧ m.pipe = x.pipe.advance X l := by
  obtain ⟨k, hx⟩ := h.toInExecute.pipe hs
  obtain ⟨ls, hls, hm, rfl⟩ := h.memory
  obtain ⟨l, -, hl⟩ := pipe_run_one (h.toInExecute.running hs) hls hm
  exact ⟨k, l.sample, hx, hl⟩

theorem commit_of_pipe {x m : T5Rv32i} {l : Sample} (h : m.pipe = x.pipe.advance X l) :
    m.commit = x.commit.step (x.pipe.outcome X l).wre (T5Inst.whart x.inst.hart)
      (x.pipe.outcome X l).rd (x.pipe.outcome X l).value :=
  congrArg Pipe.gprf h

/-- The write port carries the outcome of the instruction that has left the
execute slot. -/
theorem port_of_pipe {m : T5Rv32i} {p : Pipe} {l : Sample} (h : m.pipe = p.advance X l) :
    m.back.mwre = (p.outcome X l).wre ∧ m.rd0a = (p.outcome X l).rd ∧
      m.rd0d = (p.outcome X l).value :=
  ⟨congrArg (fun q : Pipe => q.back.mwre) h, congrArg (fun q : Pipe => q.back.mrd) h,
    congrArg (fun q : Pipe => T5Back.dmux q.back.mopc q.back.dext q.aslu.malu) h⟩

theorem passage_of_edges {s : T5Rv32i} {i j k : Input} (hi : s.advancing i = true)
    (hj : (s.step X i).advancing j = true) (hk : ((s.step X i).step X j).advancing k = true)
    (hlow : i.sysRst = false ∧ j.sysRst = false ∧ k.sysRst = false) :
    Passage X s i ((s.step X i).step X j) (((s.step X i).step X j).step X k) := by
  refine ⟨(InDecode.of_step hi hlow.1).inExecute hj hlow.2.1, [k], ?_, ?_, rfl⟩
  · intro l hl
    rw [List.mem_singleton.mp hl]
    exact hlow.2.2
  · rw [Clocked.Machine.edges_cons_of_enabled hk]
    rfl

/-! ## The slots with the words behind -/

/-- The word decoded at the edge `i` of `s` is in the decode slot of `d`, in the
execute slot of `x` with the word of the edge `k` behind it, and in the memory
slot of `m`. -/
structure Transit (X : DontCare) (s : T5Rv32i) (i : Input) (d : T5Rv32i) (k : Input)
    (x : T5Rv32i) (l : Input) (m : T5Rv32i) : Prop where
  decode : InDecode X s i d
  execute : InDecode X d k x
  memory : InDecode X x l m

theorem InDecode.inExecute_next {s d x : T5Rv32i} {i k : Input} (h : InDecode X s i d)
    (hx : InDecode X d k x) : InExecute X s i x := by
  obtain ⟨ks, hks, hedges, hrun⟩ := (h.inExecute hx.advancing hx.sysRst).execute
  obtain ⟨ls, hls, hstall, rfl⟩ := hx.stalls
  refine ⟨h.advancing, h.sysRst, ks ++ ls, ?_, ?_, ?_⟩
  · intro j hj
    exact (List.mem_append.mp hj).elim (hks j) (hls j)
  · rw [Clocked.Machine.edges_append, ← hrun, hstall, List.append_nil, hedges]
  · rw [Clocked.Machine.run_append, ← hrun]

theorem InDecode.reachable {s d : T5Rv32i} {i : Input} (hs : Reachable X s)
    (h : InDecode X s i d) : Reachable X d := by
  obtain ⟨ks, hks, -, rfl⟩ := h.stalls
  exact (hs.step h.sysRst).run hks

namespace Transit

variable {s d x m : T5Rv32i} {i k l : Input}

theorem pipes (hs : T5Rv32i.Running s) (h : Transit X s i d k x l m) :
    d.pipe = s.pipe.advance X i.sample ∧
      x.pipe = (s.pipe.advance X i.sample).advance X k.sample ∧
      m.pipe = x.pipe.advance X l.sample := by
  have hd := h.decode.pipe hs
  have hdrun := h.decode.running hs
  refine ⟨hd, ?_, h.memory.pipe (h.execute.running hdrun)⟩
  rw [h.execute.pipe hdrun, hd]

theorem passage (h : Transit X s i d k x l m) : Passage X s i x m := by
  refine ⟨h.decode.inExecute_next h.execute, ?_⟩
  obtain ⟨ls, hls, hstall, rfl⟩ := h.memory.stalls
  refine ⟨l :: ls, ?_, ?_, rfl⟩
  · intro j hj
    rcases List.mem_cons.mp hj with rfl | hj
    · exact h.memory.sysRst
    · exact hls j hj
  · rw [Clocked.Machine.edges_cons_of_enabled h.memory.advancing]
    exact congrArg (·.length + 1) hstall

/-- The execute slot is entered at the edge `k`, before the stalls that lead to `x`. -/
theorem passage_step (h : Transit X s i d k x l m) : Passage X s i (d.step X k) m := by
  refine ⟨h.decode.inExecute h.execute.advancing h.execute.sysRst, ?_⟩
  obtain ⟨ks, hks, hstall, hx⟩ := h.execute.stalls
  obtain ⟨ls, hls, hedges, hm⟩ := h.passage.memory
  refine ⟨ks ++ ls, fun j hj => (List.mem_append.mp hj).elim (hks j) (hls j), ?_, ?_⟩
  · rw [Clocked.Machine.edges_append, hstall, ← hx]
    exact hedges
  · rw [Clocked.Machine.run_append, ← hx]
    exact hm

/-- What the word does when it leaves the execute slot. -/
theorem outcome (hs : T5Rv32i.Running s) (h : Transit X s i d k x l m)
    (hrv : T5Ctrl.rv32 i.iwbDat = true) :
    x.pipe.outcome X l.sample =
      Tra5.outcome X x.aslu.toCsr l.dwbDti
        (T5Aslu.execute X d.inst.dhart d.aslu.toCsr
          (T5Ctrl.decode X (s.inst.fpc.extractLsb 31 2) i.iwbDat (s.rs1d i.iwbDat)
            (s.rs2d i.iwbDat)))
        (T5Data.advance (T5Ctrl.decode X (s.inst.fpc.extractLsb 31 2) i.iwbDat (s.rs1d i.iwbDat)
          (s.rs2d i.iwbDat))) x.ctrl.xpc (Rv32.rd i.iwbDat) := by
  obtain ⟨hd, hx, -⟩ := h.pipes hs
  obtain ⟨h1, h2⟩ := operands_of_advancing hs h.decode.advancing i.iwbDat
  show x.pipe.outcome X l.sample = Tra5.outcome X x.pipe.aslu.toCsr l.dwbDti
    (T5Aslu.execute X d.pipe.inst.dhart d.pipe.aslu.toCsr _) (T5Data.advance _) x.pipe.ctrl.xpc _
  rw [h1, h2, hx, hd]
  have hrv : T5Ctrl.rv32 i.sample.iwbDat = true := hrv
  exact s.pipe.outcome_eq X k.sample l.sample hrv

/-- The PC pipeline moves with the word behind, if that ends in `11`. -/
theorem pcs (hs : T5Rv32i.Running s) (h : Transit X s i d k x l m)
    (hi : T5Ctrl.rv32 i.iwbDat = true) :
    x.ctrl.xpc = (if T5Ctrl.rv32 k.iwbDat then T5Ctrl.npc (s.inst.fpc.extractLsb 31 2)
        else s.ctrl.dpc) ∧
      (T5Ctrl.rv32 k.iwbDat = true → x.ctrl.xepc = s.inst.fpc.extractLsb 31 2) := by
  have hx : x.ctrl = _ := congrArg Pipe.ctrl (h.pipes hs).2.1
  have hd := Pipe.advance_ctrl_of_rv32 X s.pipe (k := i.sample) hi
  cases hk : T5Ctrl.rv32 k.iwbDat with
  | true =>
    have hc := Pipe.advance_ctrl_of_rv32 X (s.pipe.advance X i.sample) (k := k.sample) hk
    rw [hx, hc, hd]
    exact ⟨rfl, fun _ => rfl⟩
  | false =>
    have hc : T5Ctrl.advance X ((s.pipe.advance X i.sample).inst.fpc.extractLsb 31 2)
        k.sample.iwbDat ((s.pipe.advance X i.sample).rs1d k.sample.iwbDat)
        ((s.pipe.advance X i.sample).rs2d k.sample.iwbDat) (s.pipe.advance X i.sample).ctrl =
          x.ctrl := hx.symm
    rw [T5Ctrl.advance, if_neg (by rw [show k.sample.iwbDat = k.iwbDat from rfl, hk]; decide),
      hd] at hc
    refine ⟨?_, fun h => Bool.noConfusion h⟩
    rw [← hc]
    rfl

end Transit

theorem transit_of_edges {s : T5Rv32i} {i k l : Input} (hi : s.advancing i = true)
    (hk : (s.step X i).advancing k = true) (hl : ((s.step X i).step X k).advancing l = true)
    (hlow : i.sysRst = false ∧ k.sysRst = false ∧ l.sysRst = false) :
    Transit X s i (s.step X i) k ((s.step X i).step X k) l (((s.step X i).step X k).step X l) :=
  ⟨.of_step hi hlow.1, .of_step hk hlow.2.1, .of_step hl hlow.2.2⟩

/-- The last word of a run is in the decode slot at its end. -/
theorem inDecode_of_trace {b c : T5Rv32i} {is : List Input} {i : Input}
    {p : List (T5Rv32i × Input)} (his : ∀ k ∈ is, k.sysRst = false)
    (h : (machine X).trace b is = p ++ [(c, i)]) :
    InDecode X c i ((machine X).run b is) ∧
      ∃ js, (∀ k ∈ js, k.sysRst = false) ∧ (machine X).trace b js = p ∧
        c = (machine X).run b js := by
  obtain ⟨js, ks, rfl, hjs, rfl, ha, hks⟩ := Clocked.Machine.exists_of_trace_eq h
  obtain ⟨hjlow, hilow⟩ := List.forall_mem_append.mp his
  obtain ⟨hi, hklow⟩ := List.forall_mem_cons.mp hilow
  refine ⟨⟨ha, hi, ks, hklow, ?_, ?_⟩, js, hjlow, hjs, rfl⟩
  · rw [← Clocked.Machine.map_snd_trace]
    exact congrArg (List.map Prod.snd) hks
  · rw [Clocked.Machine.run_append]
    rfl

end Tra5
