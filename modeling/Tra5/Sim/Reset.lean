/-
The core in the loop, and its reset.

The loop clocks the core once a round, so a run of the loop is a run of the core on the
inputs that the rounds put on its ports.  It starts with `sys_rst` high for five rounds and
with four in which the core shifts it out.
-/
import Tra5.Sim.Round
import Tra5.Pipeline.Slots
import Mathlib.Data.List.GetD

namespace Tra5

namespace T5Sim

variable {X : DontCare} {s t : T5Sim}

/-! ## The core in the loop -/

/-- Every round clocks the core once, with `sys_rst` as it was. -/
theorem round_fields (h : s.round X = .ok t) :
    t.cpu = s.cpu.step X s.edgeInput ∧ s.edgeInput.sysRst = s.sysRst ∧
      (s.sysRst = false → t.sysRst = false) := by
  cases hr : s.sysRst with
  | true =>
    rw [clock_of_reset hr h, edgeInput, if_pos hr]
    exact ⟨rfl, hr, fun h => Bool.noConfusion h⟩
  | false =>
    obtain ⟨ho, -⟩ := onward_of_round hr h
    refine ⟨ho.cpu, ?_, fun _ => ho.sysRst⟩
    rw [ho.edgeInput]
    exact hr

theorem inputs_succ (h : s.round X = .ok t) (n : Nat) :
    s.inputs X (n + 1) = s.edgeInput :: t.inputs X n := by rw [inputs, h]

theorem cpu_of_steps {n : Nat} (h : Loop.steps (round X) n s = some t) :
    t.cpu = (machine X).run s.cpu (s.inputs X n) := by
  induction n generalizing s with
  | zero =>
    cases h
    rfl
  | succ n ih =>
    obtain ⟨u, hu, hrest⟩ := Loop.steps_succ.mp h
    rw [inputs_succ hu, ih hrest, (round_fields hu).1]
    rfl

theorem length_inputs {n : Nat} (h : Loop.steps (round X) n s = some t) :
    (s.inputs X n).length = n := by
  induction n generalizing s with
  | zero => rfl
  | succ n ih =>
    obtain ⟨u, hu, hrest⟩ := Loop.steps_succ.mp h
    rw [inputs_succ hu, List.length_cons, ih hrest]

theorem inputs_add {m : Nat} (h : Loop.steps (round X) m s = some t) (n : Nat) :
    s.inputs X (m + n) = s.inputs X m ++ t.inputs X n := by
  induction m generalizing s with
  | zero =>
    cases h
    rw [Nat.zero_add]
    rfl
  | succ m ih =>
    obtain ⟨u, hu, hrest⟩ := Loop.steps_succ.mp h
    rw [Nat.succ_add, inputs_succ hu, inputs_succ hu, ih hrest, List.cons_append]

theorem sysRst_of_mem_inputs (hr : s.sysRst = false) {n : Nat} {i : Input}
    (hi : i ∈ s.inputs X n) : i.sysRst = false := by
  induction n generalizing s with
  | zero => exact absurd hi List.not_mem_nil
  | succ n ih =>
    cases hu : s.round X with
    | error u =>
      rw [inputs, hu] at hi
      exact absurd hi List.not_mem_nil
    | ok u =>
      obtain ⟨-, hedge, hlow⟩ := round_fields hu
      rw [inputs_succ hu] at hi
      rcases List.mem_cons.mp hi with rfl | hi
      · exact hedge.trans hr
      · exact ih (hlow hr) hi

/-- The trace of a run grows by the first round if the pipeline advances in it. -/
theorem trace_succ (h : s.round X = .ok t) (n : Nat) :
    s.trace X (n + 1) =
      if s.cpu.advancing s.edgeInput then (s.cpu, s.edgeInput) :: t.trace X n
      else t.trace X n := by
  rw [trace, inputs_succ h, trace, (round_fields h).1]
  rfl

/-- The last two words of a run are in the execute and the decode slot at its end. -/
theorem slots_of_trace (hr : s.sysRst = false) {n : Nat} (h : Loop.steps (round X) n s = some t)
    {p : List (T5Rv32i × Input)} {c d : T5Rv32i} {i j : Input}
    (ht : s.trace X n = p ++ [(c, i), (d, j)]) :
    InDecode X c i d ∧ InDecode X d j t.cpu ∧
      ∃ js, (∀ k ∈ js, k.sysRst = false) ∧ c = (machine X).run s.cpu js := by
  have hlow (k : Input) (hk : k ∈ s.inputs X n) := sysRst_of_mem_inputs hr hk
  rw [List.append_cons] at ht
  obtain ⟨hexec, js, hjs, hp, rfl⟩ := inDecode_of_trace hlow ht
  obtain ⟨hdec, ks, hks, -, rfl⟩ := inDecode_of_trace hjs hp
  rw [← cpu_of_steps h] at hexec
  exact ⟨hdec, hexec, ks, hks, rfl⟩

/-! ## The reset -/

/-- A round with `sys_rst` high. -/
theorem next_of_reset (hr : s.sysRst = true) (h : s.round X = .ok t) :
    t.cpu = s.cpu.step X s.input ∧ (t.sysRst = if s.cnt = 50#32 then false else true) ∧
      t.cnt = s.cnt + 10#32 ∧ t.ram = s.ram ∧ t.cout = s.cout := by
  rw [clock_of_reset hr h, ← hr]
  exact ⟨rfl, rfl, rfl, rfl, rfl⟩

/-- A round while `sys_rst` is being shifted out. -/
theorem next_of_flushed (hr : s.sysRst = false) (hf : T5Rv32i.Flushed s.cpu)
    (h : s.round X = .ok t) :
    t.cpu = s.cpu.step X s.input ∧ t.sysRst = false ∧ t.dwbAck = false ∧ t.ram = s.ram ∧
      t.cout.filter isStore = s.cout.filter isStore := by
  have hstb : s.cpu.dwbStb = false := by
    rw [T5Rv32i.dwbStb, hf.data]
    rfl
  have hcomp : s.completes = false := completes_of_idle hstb
  have hn := next_of_round (fun h => absurd (hstb.symm.trans h) Bool.false_ne_true) hr h
  refine ⟨hn.cpu, hn.sysRst, ?_, ?_, ?_⟩
  · rw [hn.dwbAck, hstb, Bool.false_and]
  · rw [hn.ram, hcomp, if_neg Bool.false_ne_true]
  · rw [hn.cout, hcomp, if_neg Bool.false_ne_true, List.append_nil]

/-- After `k` rounds with `sys_rst` high. -/
structure Held (s₀ : T5Sim) (k : Nat) (s : T5Sim) : Prop where
  cnt : s.cnt = BitVec.ofNat 32 (10 * k + 10)
  sysRst : s.sysRst = decide (k < 5)
  rst : 0 < k → s.cpu.sysc.rst = 0xF#4
  flushed : 1 < k → T5Rv32i.Flushed s.cpu
  ram : s.ram = s₀.ram
  cout : s.cout = s₀.cout

theorem AtEntry.held {s₀ : T5Sim} (h : s₀.AtEntry) : Held s₀ 0 s₀ :=
  ⟨h.cnt, h.sysRst, fun h => absurd h (by decide), fun h => absurd h (by decide), rfl, rfl⟩

/-- `sys_rst` falls in the fifth round, in which `cnt` is 50. -/
theorem Held.round {s₀ : T5Sim} {k : Nat} (h : Held s₀ k s) (hk : k < 5)
    (hr : s.round X = .ok t) : Held s₀ (k + 1) t := by
  have hs : s.sysRst = true := h.sysRst.trans (decide_eq_true hk)
  obtain ⟨hcpu, hrst, hcnt, hram, hcout⟩ := next_of_reset hs hr
  refine ⟨?_, ?_, fun _ => ?_, fun hpos => ?_, hram.trans h.ram, hcout.trans h.cout⟩
  · rw [hcnt, h.cnt, ← BitVec.ofNat_add]
    rfl
  · rw [hrst, h.cnt]
    interval_cases k <;> rfl
  · rw [hcpu]
    exact (T5Rv32i.step_of_sysRst X s.cpu hs).1
  · have hsrst : s.cpu.srst = true := by
      rw [T5Rv32i.srst, T5Sysc.srst, h.rst (Nat.lt_of_succ_lt_succ hpos)]
      decide
    rw [hcpu]
    exact T5Rv32i.flushed_step_of_srst X hsrst _

theorem Held.steps {s₀ : T5Sim} {k n : Nat} (h : Held s₀ k s) (hk : k + n ≤ 5)
    (hn : Loop.steps (T5Sim.round X) n s = some t) :
    Held s₀ (k + n) t ∧ ∀ i ∈ s.inputs X n, i.sysRst = true := by
  induction n generalizing s k with
  | zero =>
    cases hn
    exact ⟨h, fun i hi => absurd hi List.not_mem_nil⟩
  | succ n ih =>
    obtain ⟨u, hu, hrest⟩ := Loop.steps_succ.mp hn
    obtain ⟨hheld, hhigh⟩ := ih (h.round (by omega) hu) (by omega) hrest
    refine ⟨Nat.succ_add_eq_add_succ k n ▸ hheld, ?_⟩
    rw [inputs_succ hu, List.forall_mem_cons]
    refine ⟨?_, hhigh⟩
    rw [(round_fields hu).2.1, h.sysRst]
    exact decide_eq_true (by omega)

/-- `sys_rst` is being shifted out. -/
structure Draining (s₀ : T5Sim) (v : BitVec 4) (s : T5Sim) : Prop where
  sysRst : s.sysRst = false
  rst : s.cpu.sysc.rst = v
  flushed : T5Rv32i.Flushed s.cpu
  ram : s.ram = s₀.ram
  cout : s.cout.filter isStore = s₀.cout.filter isStore

theorem Held.draining {s₀ : T5Sim} (h : Held s₀ 5 s) : Draining s₀ 0xF#4 s :=
  ⟨h.sysRst, h.rst (by decide), h.flushed (by decide), h.ram, by rw [h.cout]⟩

theorem Draining.round {s₀ : T5Sim} {v : BitVec 4} (h : Draining s₀ v s)
    (hv : v.getLsbD 3 = true) (hr : s.round X = .ok t) :
    Draining s₀ (v.extractLsb 2 0 ++ 0#1) t ∧ t.dwbAck = false := by
  obtain ⟨hcpu, hrst, hack, hram, hcout⟩ := next_of_flushed h.sysRst h.flushed hr
  have hi : s.input.sysRst = false := h.sysRst
  obtain ⟨hsrst, hshift, -⟩ := T5Rv32i.drain_edge X h.rst rfl hv hi
  rw [← hcpu] at hshift
  refine ⟨⟨hrst, hshift, ?_, hram.trans h.ram, hcout.trans h.cout⟩, hack⟩
  rw [hcpu]
  exact T5Rv32i.flushed_step_of_srst X hsrst _

/-- The state in which reset has ended, nine rounds after the loop was entered: five with
`sys_rst` high and four in which it is shifted out. -/
structure Boots (X : DontCare) (s₀ b : T5Sim) : Prop where
  entry : s₀.AtEntry
  rounds : Loop.steps (T5Sim.round X) 9 s₀ = some b

theorem Boots.fields {s₀ b : T5Sim} (h : Boots X s₀ b) :
    b.sysRst = false ∧ PostReset X b.cpu ∧ b.dwbAck = false ∧ b.ram = s₀.ram ∧
      b.cout.filter isStore = s₀.cout.filter isStore := by
  have hrounds : Loop.steps (T5Sim.round X) (5 + 4) s₀ = some b := h.rounds
  obtain ⟨s, hs, hrest⟩ := Loop.steps_add.mp hrounds
  obtain ⟨hheld, hhigh⟩ := h.entry.held.steps (by decide) hs
  have hdrain : Draining s₀ 0xF#4 s := hheld.draining
  have hlow (i : Input) (hi : i ∈ s.inputs X 4) := sysRst_of_mem_inputs hdrain.sysRst hi
  have hlen := length_inputs hrest
  obtain ⟨s₆, h₆, hrest⟩ := Loop.steps_succ.mp hrest
  obtain ⟨s₇, h₇, hrest⟩ := Loop.steps_succ.mp hrest
  obtain ⟨s₈, h₈, hrest⟩ := Loop.steps_succ.mp hrest
  obtain ⟨s₉, h₉, hrest⟩ := Loop.steps_succ.mp hrest
  cases hrest
  obtain ⟨hlast, hack⟩ := (((hdrain.round rfl h₆).1.round rfl h₇).1.round rfl h₈).1.round rfl h₉
  refine ⟨hlast.sysRst, ⟨s₀.cpu, s₀.inputs X (5 + 4), ⟨s₀.inputs X 5, s.inputs X 4, ?_, ?_, hhigh,
    hlen, hlow⟩, cpu_of_steps hrounds⟩, hack, hlast.ram, hlast.cout⟩
  · exact inputs_add hs 4
  · intro hnil
    have := length_inputs hs
    rw [hnil] at this
    exact absurd this (by decide)

/-- The word before the last of a run after reset is in the execute slot at its end. -/
theorem Boots.inExecute {s₀ b : T5Sim} (hb : Boots X s₀ b) {n m : Nat}
    (hn : Loop.steps (round X) n b = some t) (hm : (b.trace X n).length = m + 2) :
    let e := (b.trace X n).getD m default
    Reachable X e.1 ∧ InExecute X e.1 e.2 t.cpu := by
  intro e
  obtain ⟨hr, hpost, -⟩ := hb.fields
  have hlast : b.trace X n =
      (b.trace X n).take m ++ [(e.1, e.2), (b.trace X n).getD (m + 1) default] := by
    rw [List.getD_eq_getElem _ _ (show m + 1 < (b.trace X n).length by omega), Prod.mk.eta,
      show e = _ from List.getD_eq_getElem _ _ (show m < (b.trace X n).length by omega),
      List.append_cons, List.take_append_getElem, List.take_append_getElem,
      List.take_of_length_le (Nat.le_of_eq hm)]
  obtain ⟨hdec, hexec, js, hjs, he⟩ := slots_of_trace hr hn hlast
  refine ⟨?_, hdec.inExecute_next hexec⟩
  rw [he]
  exact hpost.reachable.run hjs

end T5Sim

end Tra5
