/-
The progress of the simulation.

Every round raises `cnt` by ten, so that the loop is left from whatever state it is in.
While it runs, a round either moves the pipeline or is the first of the two that an
access takes.  So the rounds of a run are its edges and its accesses, and no program on
three of the harts can keep the fourth from its turn for more than eight rounds.
-/
import Tra5.Sim.Reset
import Tra5.Hart.Slave

namespace Tra5

namespace T5Sim

variable {X : DontCare} {s t : T5Sim}

/-! ## The end of the loop -/

/-- The rounds that are left by the count alone. -/
def remaining (s : T5Sim) : Nat := (8388608 - s.cnt.toNat + 9) / 10

theorem cnt_of_round (h : s.round X = .ok t) : s.cnt < 8388608#32 ∧ t.cnt = s.cnt + 10#32 := by
  have hc : s.cnt < 8388608#32 := by
    by_contra hc
    rw [round, if_neg hc] at h
    cases h
  refine ⟨hc, ?_⟩
  cases hr : s.sysRst with
  | true => exact (next_of_reset hr h).2.2.1
  | false => exact (onward_of_round hr h).1.cnt

theorem remaining_of_round (h : s.round X = .ok t) : t.remaining < s.remaining := by
  obtain ⟨hc, hcnt⟩ := cnt_of_round h
  have hlt : s.cnt.toNat < 8388608 := hc
  have hadd : t.cnt.toNat = s.cnt.toNat + 10 := by
    rw [hcnt, BitVec.toNat_add, show (10#32 : BitVec 32).toNat = 10 from rfl]
    omega
  rw [remaining, remaining, hadd]
  omega

/-- Why a round leaves the loop. -/
def Stops (s : T5Sim) : Prop :=
  8388608#32 ≤ s.cnt ∨ (s.sysRst = false ∧ (inBuf s.fetchIndex = false ∨ s.testEnds = true))

theorem stops_of_error {u : T5Sim} (h : s.round X = .error u) : s.Stops ∧ u.world = s.world := by
  by_cases hc : s.cnt < 8388608#32
  · cases hr : s.sysRst with
    | true =>
      rw [round, if_pos hc, if_pos hr] at h
      cases h
    | false =>
      obtain ⟨hg, hw⟩ := stops_of_round hr h
      refine ⟨Or.inr ⟨hr, ?_⟩, hw⟩
      rw [goesOn, decide_eq_true hc, Bool.true_and, Bool.and_eq_false_iff] at hg
      exact hg.imp id fun he => by simpa using he
  · refine ⟨Or.inl (BitVec.not_lt.mp hc), ?_⟩
    rw [round, if_neg hc] at h
    cases h
    rfl

/-- The loop is left from every state, after 838861 rounds at most.  The round in which it
is left writes nothing, and either the count is over, or the fetch is outside the array,
or the test has stored to its last word. -/
theorem loop_is_left (X : DontCare) (s : T5Sim) :
    ∃ n ≤ 838861, ∃ t u, Loop.steps (round X) n s = some t ∧ t.round X = .error u ∧
      Loop.Exits (round X) s u ∧ t.Stops ∧ u.world = t.world := by
  have hleft : ∃ n ≤ s.remaining, ∃ t u, Loop.steps (round X) n s = some t ∧
      t.round X = .error u := Loop.exists_error (fun _ _ h => remaining_of_round h) s
  obtain ⟨n, hn, t, u, ht, hu⟩ := hleft
  obtain ⟨hstop, hworld⟩ := stops_of_error hu
  have hle : s.remaining ≤ 838861 := by
    rw [remaining]
    omega
  exact ⟨n, Nat.le_trans hn hle, t, u, ht, hu, (Loop.exits_of_error hu).of_steps ht, hstop, hworld⟩

/-! ## Rounds, edges and accesses -/

/-- The core is enabled, and an acknowledge is only there while the core strobes. -/
structure Steady (s : T5Sim) : Prop where
  sysRst : s.sysRst = false
  running : T5Rv32i.Running s.cpu
  ena : s.cpu.sysc.ena = true
  strobed : s.dwbAck = true → s.cpu.dwbStb = true

theorem advancing_of_steady (h : s.Steady) (ho : Onward X s t) :
    s.cpu.advancing s.edgeInput = (s.cpu.dwbStb == s.dwbAck) := by
  have he : s.edgeInput.sysEna = true := by rw [ho.edgeInput]; rfl
  have ha : s.edgeInput.dwbAck = s.dwbAck := by rw [ho.edgeInput]; rfl
  have hx : s.cpu.data.xstb.getLsbD 1 = s.cpu.dwbStb := rfl
  rw [T5Rv32i.advancing, T5Rv32i.srst_of_rst h.running.rst, T5Rv32i.sena, T5Sysc.sena, h.ena, he,
    ha, hx]
  cases s.cpu.dwbStb <;> cases s.dwbAck <;> rfl

theorem running_of_onward (hr : s.sysRst = false) (hrun : T5Rv32i.Running s.cpu)
    (ho : Onward X s t) : T5Rv32i.Running t.cpu ∧ t.cpu.sysc.ena = true := by
  have hlow : s.edgeInput.sysRst = false := by rw [ho.edgeInput]; exact hr
  rw [ho.cpu]
  exact ⟨hrun.step X hlow, by rw [T5Rv32i.sysc_step_of_rst X hrun.rst hlow]⟩

theorem strobed_of_onward (hr : s.sysRst = false) (hrun : T5Rv32i.Running s.cpu)
    (ho : Onward X s t) (hst : t.dwbAck = true → s.cpu.advancing s.edgeInput = false) :
    t.dwbAck = true → t.cpu.dwbStb = true := by
  intro hack
  have hlow : s.edgeInput.sysRst = false := by rw [ho.edgeInput]; exact hr
  have hsrst := T5Rv32i.srst_of_rst hrun.rst
  rw [ho.cpu, T5Rv32i.dwbStb_step_of_stall X hsrst hlow (hst hack)]
  rw [ho.dwbAck, Bool.and_eq_true] at hack
  exact hack.1

theorem Steady.round (h : s.Steady) (ht : s.round X = .ok t) : t.Steady := by
  obtain ⟨ho, -⟩ := onward_of_round h.sysRst ht
  obtain ⟨hrun, hena⟩ := running_of_onward h.sysRst h.running ho
  refine ⟨ho.sysRst, hrun, hena, strobed_of_onward h.sysRst h.running ho fun hack => ?_⟩
  rw [ho.dwbAck, Bool.and_eq_true, Bool.not_eq_true'] at hack
  rw [advancing_of_steady h ho, hack.1, hack.2]
  rfl

/-- The first round after reset stalls, since the core is not enabled yet. -/
theorem Boots.steady {s₀ b : T5Sim} (hb : Boots X s₀ b) (ht : b.round X = .ok t) : t.Steady := by
  obtain ⟨hr, hpost, -⟩ := hb.fields
  obtain ⟨ho, -⟩ := onward_of_round hr ht
  obtain ⟨hrun, hena⟩ := running_of_onward hr hpost.running ho
  refine ⟨ho.sysRst, hrun, hena, strobed_of_onward hr hpost.running ho fun _ => ?_⟩
  rw [T5Rv32i.advancing, T5Rv32i.sena, T5Sysc.sena, hpost.flushed.ena, Bool.and_false,
    Bool.false_and, Bool.and_false]

theorem Steady.steps {n : Nat} (h : s.Steady) (hn : Loop.steps (T5Sim.round X) n s = some t) :
    t.Steady := by
  induction n generalizing s with
  | zero =>
    cases hn
    exact h
  | succ n ih =>
    obtain ⟨u, hu, hrest⟩ := Loop.steps_succ.mp hn
    exact ih (h.round hu) hrest

theorem Boots.steady_of_steps {s₀ b : T5Sim} (hb : Boots X s₀ b) {m : Nat}
    (hm : Loop.steps (T5Sim.round X) (m + 1) b = some s) : s.Steady := by
  obtain ⟨u, hu, hrest⟩ := Loop.steps_succ.mp hm
  exact (hb.steady hu).steps hrest

/-- The accesses that complete in the first rounds. -/
def accessCount (X : DontCare) (n : Nat) (s : T5Sim) : Nat :=
  ((Tra5.dataBus X).edges s.cpu (s.inputs X n)).length

theorem accessCount_succ (h : s.round X = .ok t) (n : Nat) :
    accessCount X (n + 1) s =
      (s.cpu.dwbStb && s.edgeInput.dwbAck).toNat + accessCount X n t := by
  rw [accessCount, inputs_succ h, accessCount, (round_fields h).1]
  cases hc : (s.cpu.dwbStb && s.edgeInput.dwbAck) with
  | false =>
    rw [Clocked.Machine.edges_cons_of_stall (M := Tra5.dataBus X) hc]
    exact (Nat.zero_add _).symm
  | true =>
    rw [Clocked.Machine.edges_cons_of_enabled (M := Tra5.dataBus X) hc, List.length_cons]
    exact Nat.add_comm _ _

theorem length_trace_succ (h : s.round X = .ok t) (n : Nat) :
    (s.trace X (n + 1)).length =
      (s.cpu.advancing s.edgeInput).toNat + (t.trace X n).length := by
  rw [trace_succ h]
  cases s.cpu.advancing s.edgeInput with
  | false => exact (Nat.zero_add _).symm
  | true => exact Nat.add_comm _ _

/-- One round: an edge, the first round of an access, or the second, which is both an edge
and the end of the access. -/
theorem Steady.count_round (h : s.Steady) (ht : s.round X = .ok t) :
    1 + s.dwbAck.toNat = (s.cpu.advancing s.edgeInput).toNat +
        (s.cpu.dwbStb && s.edgeInput.dwbAck).toNat + t.dwbAck.toNat ∧
      (s.cpu.dwbStb && s.edgeInput.dwbAck).toNat ≤ (s.cpu.advancing s.edgeInput).toNat := by
  obtain ⟨ho, -⟩ := onward_of_round h.sysRst ht
  have ha : s.edgeInput.dwbAck = s.dwbAck := by rw [ho.edgeInput]; rfl
  rw [advancing_of_steady h ho, ha, ho.dwbAck]
  have hst := h.strobed
  revert hst
  cases s.cpu.dwbStb <;> cases s.dwbAck <;> simp

theorem Steady.count {n : Nat} (h : s.Steady) (hn : Loop.steps (T5Sim.round X) n s = some t) :
    n + s.dwbAck.toNat =
        (s.trace X n).length + accessCount X n s + t.dwbAck.toNat ∧
      accessCount X n s ≤ (s.trace X n).length := by
  induction n generalizing s with
  | zero =>
    cases hn
    exact ⟨(Nat.zero_add _).trans (Nat.zero_add _).symm, Nat.le_refl _⟩
  | succ n ih =>
    obtain ⟨u, hu, hrest⟩ := Loop.steps_succ.mp hn
    obtain ⟨h1, h2⟩ := h.count_round hu
    obtain ⟨i1, i2⟩ := ih (h.round hu) hrest
    rw [length_trace_succ hu, accessCount_succ hu]
    omega

/-- From the second round after reset on, over any number of rounds and whatever the four
harts execute: the rounds are the edges of the pipeline and the accesses that
complete, up to an access that is half done at the beginning or at the end.  Nothing else
stalls the core. -/
theorem rounds_eq_edges_add_accesses (X : DontCare) {s₀ b : T5Sim} (hb : Boots X s₀ b)
    {m n : Nat} (hm : Loop.steps (T5Sim.round X) (m + 1) b = some s)
    (hn : Loop.steps (T5Sim.round X) n s = some t) :
    n + s.dwbAck.toNat = (s.trace X n).length + accessCount X n s + t.dwbAck.toNat ∧
      accessCount X n s ≤ (s.trace X n).length :=
  (hb.steady_of_steps hm).count hn

/-- Fourteen rounds of `sw x0, 256(x0)` on all harts.  The first two words reach the execute
slot after one round each, and the others take two. -/
theorem rounds_of_stores :
    let image : Ram := fun _ => 0x10002023#32
    ∃ b s t : T5Sim, Boots default (entered image) b ∧
      Loop.steps (round default) (0 + 1) b = some s ∧ Loop.steps (round default) 14 s = some t ∧
      (s.trace default 14).length = 8 ∧ accessCount default 14 s = 6 ∧
      14 + s.dwbAck.toNat = (s.trace default 14).length + accessCount default 14 s +
        t.dwbAck.toNat := by
  intro image
  let b := Loop.after (round default) 9 (entered image)
  let s := Loop.after (round default) 1 b
  let t := Loop.after (round default) 14 s
  have hb : Boots default (entered image) b :=
    ⟨⟨rfl, rfl⟩, Loop.steps_eq_after (by decide +kernel)⟩
  have hs : Loop.steps (round default) (0 + 1) b = some s :=
    Loop.steps_eq_after (by decide +kernel)
  have ht : Loop.steps (round default) 14 s = some t := Loop.steps_eq_after (by decide +kernel)
  have hlen : (s.trace default 14).length = 8 := by decide +kernel
  have hacc : accessCount default 14 s = 6 := by decide +kernel
  exact ⟨b, s, t, hb, hs, ht, hlen, hacc, (rounds_eq_edges_add_accesses default hb hs ht).1⟩

/-! ## Turns -/

/-- In any eight consecutive rounds from the second after reset on every hart has a word
decoded, whatever the others execute. -/
theorem every_hart_within_eight_rounds (X : DontCare) {s₀ b : T5Sim} (hb : Boots X s₀ b)
    {m n : Nat} (hm : Loop.steps (T5Sim.round X) (m + 1) b = some s)
    (hn : Loop.steps (T5Sim.round X) n s = some t) (h8 : 8 ≤ n) (h : BitVec 2) :
    ∃ e ∈ s.trace X n, e.1.owner = h := by
  have hs := hb.steady_of_steps hm
  obtain ⟨hcount, hle⟩ := hs.count hn
  have hack : t.dwbAck.toNat ≤ 1 := Bool.toNat_le _
  have hfour : 4 ≤ (s.trace X n).length := by omega
  obtain ⟨hr, hpost, -⟩ := hb.fields
  obtain ⟨k, hk, hown⟩ := T5Inst.exists_whart_iterate s.cpu.owner h
  have hlt := Nat.lt_of_lt_of_le hk hfour
  rw [trace, cpu_of_steps hm] at hlt ⊢
  rw [cpu_of_steps hm] at hown
  obtain ⟨e, he, howner⟩ := owner_of_edge hpost (fun _ => sysRst_of_mem_inputs hr)
    (fun _ => sysRst_of_mem_inputs hs.sysRst) hlt
  exact ⟨e, he, howner.trans hown⟩

/-- Hart 3 has its turn while all harts store in every instruction. -/
theorem hart_three_within_eight_rounds :
    let image : Ram := fun _ => 0x10002023#32
    ∃ b s : T5Sim, Boots default (entered image) b ∧
      Loop.steps (round default) (4 + 1) b = some s ∧
      ∃ e ∈ s.trace default 8, e.1.owner = 3#2 := by
  intro image
  let b := Loop.after (round default) 9 (entered image)
  let s := Loop.after (round default) 5 b
  have hb : Boots default (entered image) b :=
    ⟨⟨rfl, rfl⟩, Loop.steps_eq_after (by decide +kernel)⟩
  have hs : Loop.steps (round default) (4 + 1) b = some s :=
    Loop.steps_eq_after (by decide +kernel)
  have ht : Loop.steps (round default) 8 s = some (Loop.after (round default) 8 s) :=
    Loop.steps_eq_after (by decide +kernel)
  exact ⟨b, s, hb, hs, every_hart_within_eight_rounds default hb hs ht (Nat.le_refl 8) 3#2⟩

end T5Sim

end Tra5
