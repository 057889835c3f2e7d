/-
What a reset leaves behind.

After the pulse on `sys_rst` nothing moves for five edges: during the first four
`srst` is high, and the fifth is still disabled because `ena` follows `srst` one
cycle late.  Then every flop outside the register file holds a fixed value and
`x0` is zero in every bank, so that two cores that were reset together differ in
`x1` to `x31` and in nothing else.
-/
import Tra5.Pipeline.Zero

namespace Tra5

variable {X : DontCare}

/-! ## The shift register -/

theorem rst_run_of_low (X : DontCare) (c : T5Rv32i) {is : List Input}
    (his : ∀ i ∈ is, i.sysRst = false) :
    ((machine X).run c is).sysc.rst = c.sysc.rst <<< is.length := by
  induction is generalizing c with
  | nil => exact (BitVec.shiftLeft_zero _).symm
  | cons i is ih =>
    have hi : i.sysRst = false := his i List.mem_cons_self
    have hrst : (T5Rv32i.step X c i).sysc.rst = c.sysc.rst <<< 1 := by
      simp only [T5Rv32i.step, T5Sysc.step, hi]
      generalize c.sysc.rst = r
      revert r
      decide
    have htail := ih (T5Rv32i.step X c i) (fun j hj => his j (List.mem_cons_of_mem i hj))
    rw [Clocked.Machine.run_cons, List.length_cons, Nat.add_comm, BitVec.shiftLeft_add, ← hrst]
    exact htail

theorem srst_of_pulse {c : T5Rv32i} (h : c.sysc.rst = 0xF#4) : c.srst = true := by
  rw [T5Rv32i.srst, T5Sysc.srst, h]
  rfl

theorem not_advancing_of_srst {c : T5Rv32i} (h : c.srst = true) (i : Input) :
    c.advancing i = false := by
  rw [T5Rv32i.advancing, h]
  rfl

/-- While `sys_rst` stays high the core does not move. -/
theorem edges_of_pulse (X : DontCare) {c : T5Rv32i} (hc : c.sysc.rst = 0xF#4) {is : List Input}
    (his : ∀ i ∈ is, i.sysRst = true) : (machine X).edges c is = [] := by
  induction is generalizing c with
  | nil => rfl
  | cons i is ih =>
    have hstep := T5Rv32i.step_of_sysRst X c (his i List.mem_cons_self)
    exact Clocked.Machine.edges_cons_eq_nil.mpr
      ⟨not_advancing_of_srst (srst_of_pulse hc) i,
        ih hstep.1 (fun j hj => his j (List.mem_cons_of_mem i hj))⟩

/-- Nor does it while the shift register drains. -/
theorem edges_of_drain (X : DontCare) {c : T5Rv32i} (hc : c.sysc.rst = 0xF#4)
    {is : List Input} (his : ∀ i ∈ is, i.sysRst = false) (hlen : is.length ≤ 4) :
    (machine X).edges c is = [] := by
  by_contra hne
  obtain ⟨e, es, he⟩ := List.exists_cons_of_ne_nil hne
  have he : (machine X).edges c is = [] ++ e :: es := he
  obtain ⟨js, ks, rfl, -, hen, -⟩ := Clocked.Machine.exists_of_edges_eq he
  have hrst := rst_run_of_low X c (fun i hi => his i (List.mem_append_left _ hi))
  have hjs : js.length = 0 ∨ js.length = 1 ∨ js.length = 2 ∨ js.length = 3 := by
    rw [List.length_append, List.length_cons] at hlen
    omega
  have hsrst : ((machine X).run c js).srst = true := by
    rw [T5Rv32i.srst, T5Sysc.srst, hrst, hc]
    rcases hjs with h | h | h | h <;> rw [h] <;> rfl
  exact absurd hen (by
    show ¬ T5Rv32i.advancing _ _ = true
    rw [not_advancing_of_srst hsrst]
    exact Bool.false_ne_true)

/-! ## The fifth edge -/

/-- The edge after a reset raises `ena`, performs the last write to `x0` and moves
nothing. -/
theorem PostReset.step {p : T5Rv32i} (h : PostReset X p) {i : Input} (hi : i.sysRst = false) :
    p.advancing i = false ∧
      p.step X i = { p with sysc := { rst := 0#4, ena := true }, gprf := p.commit } := by
  have hsrst : p.srst = false := T5Rv32i.srst_of_rst h.rst
  have hsena : p.sena i = false := by
    rw [T5Rv32i.sena, T5Sysc.sena, h.flushed.ena, Bool.and_false, Bool.false_and]
  refine ⟨by rw [T5Rv32i.advancing, hsena, Bool.and_false], ?_⟩
  have hsysc : p.sysc.step i.sysRst = { rst := 0#4, ena := true } :=
    T5Rv32i.sysc_step_of_rst X h.rst hi
  rw [T5Rv32i.step_of_stall X hsrst hi hsena, hsysc]

theorem postReset_of_pulse (X : DontCare) (c : T5Rv32i) {first : Input} {pulse tail : List Input}
    (hf : first.sysRst = true) (hp : ∀ i ∈ pulse, i.sysRst = true) (hlen : tail.length = 4)
    (ht : ∀ i ∈ tail, i.sysRst = false) :
    PostReset X ((machine X).run c (first :: pulse ++ tail)) := by
  refine ⟨c, first :: pulse ++ tail,
    ⟨first :: pulse, tail, rfl, List.cons_ne_nil _ _, ?_, hlen, ht⟩, rfl⟩
  intro i hi
  rcases List.mem_cons.mp hi with rfl | hi
  · exact hf
  · exact hp i hi

theorem length_and_sysRst {is : List Input} {n : Nat} {b : Bool}
    (h : is.map Input.sysRst = List.replicate n b) : is.length = n ∧ ∀ i ∈ is, i.sysRst = b := by
  obtain ⟨hlen, hall⟩ := List.eq_replicate_iff.mp h
  exact ⟨by rwa [List.length_map] at hlen, fun i hi => hall _ (List.mem_map_of_mem hi)⟩

/-- The parts of a `sys_rst` waveform that ends in a pulse of `n + 1` edges and
five edges of low.  The last edge is kept apart: it follows the reset proper. -/
theorem exists_parts {lead : List Bool} {n : Nat} {is : List Input}
    (his : is.map Input.sysRst =
      lead ++ List.replicate (n + 1) true ++ List.replicate 5 false) :
    ∃ before first rest drain last, is = (before ++ [first]) ++ (rest ++ drain ++ [last]) ∧
      before.length = lead.length ∧ first.sysRst = true ∧ (∀ i ∈ rest, i.sysRst = true) ∧
      drain.length = 4 ∧ (∀ i ∈ drain, i.sysRst = false) ∧ last.sysRst = false := by
  obtain ⟨high, low, rfl, hhigh, hlow⟩ := List.map_eq_append_iff.mp his
  obtain ⟨before, pulse, rfl, hbefore, hpulse⟩ := List.map_eq_append_iff.mp hhigh
  obtain ⟨hplen, hp⟩ := length_and_sysRst hpulse
  obtain ⟨hllen, hl⟩ := length_and_sysRst hlow
  obtain ⟨first, rest, rfl⟩ := List.exists_cons_of_length_eq_add_one hplen
  obtain ⟨drain, last, rfl⟩ : ∃ drain last, low = drain ++ [last] :=
    ⟨_, _, (List.dropLast_append_getLast (List.ne_nil_of_length_eq_add_one hllen)).symm⟩
  rw [List.length_append, List.length_singleton] at hllen
  exact ⟨before, first, rest, drain, last, by simp, by rw [← hbefore, List.length_map],
    hp first List.mem_cons_self, fun i hi => hp i (List.mem_cons_of_mem _ hi), by omega,
    fun i hi => hl i (List.mem_append_left _ hi),
    hl last (List.mem_append_right _ List.mem_cons_self)⟩

/-- One run through such a waveform: it does not advance after the first edge of
the pulse, and ends one edge after the reset. -/
theorem run_released (X : DontCare) (c : T5Rv32i) {lead : List Bool} {n : Nat} {is : List Input}
    (his : is.map Input.sysRst =
      lead ++ List.replicate (n + 1) true ++ List.replicate 5 false) :
    (machine X).edges ((machine X).run c (is.take (lead.length + 1)))
        (is.drop (lead.length + 1)) = [] ∧
      ∃ p i, PostReset X p ∧ i.sysRst = false ∧ (machine X).run c is = p.step X i := by
  obtain ⟨before, first, rest, drain, last, rfl, hblen, hfirst, hrest, hdlen, hdrain, hlast⟩ :=
    exists_parts his
  have htake : (before ++ [first]).length = lead.length + 1 := by
    rw [List.length_append, hblen, List.length_singleton]
  rw [List.take_left' htake, List.drop_left' htake]
  -- The state after the first edge of the pulse, and the one after the reset.
  generalize hf : (machine X).run c (before ++ [first]) = f
  have hrun : f = T5Rv32i.step X ((machine X).run c before) first := by
    rw [← hf, Clocked.Machine.run_append]
    rfl
  have hpost : PostReset X ((machine X).run f (rest ++ drain)) := by
    rw [hrun]
    exact postReset_of_pulse X ((machine X).run c before) hfirst hrest hdlen hdrain
  have hrst : f.sysc.rst = 0xF#4 := by
    rw [hrun]
    exact (T5Rv32i.step_of_sysRst X _ hfirst).1
  have hpulse : ((machine X).run f rest).sysc.rst = 0xF#4 := by
    cases rest with
    | nil => exact hrst
    | cons j js => exact (run_pulse X (List.cons_ne_nil j js) hrest f).1
  refine ⟨?_, (machine X).run f (rest ++ drain), last, hpost, hlast, ?_⟩
  · rw [Clocked.Machine.edges_append, Clocked.Machine.edges_append, edges_of_pulse X hrst hrest,
      edges_of_drain X hpulse hdrain (Nat.le_of_eq hdlen)]
    exact Clocked.Machine.edges_cons_eq_nil.mpr ⟨(hpost.step hlast).1, rfl⟩
  · rw [Clocked.Machine.run_append, hf, Clocked.Machine.run_append]
    rfl

/-! ## Two cores -/

theorem T5Gprf.eq_of_registers {g h : T5Gprf} (hg : g.ZeroClear) (hh : h.ZeroClear)
    (heq : ∀ k r, r ≠ 0#5 → g.rs1d k r = h.rs1d k r ∧ g.rs2d k r = h.rs2d k r) : g = h := by
  have hall : ∀ k r, g.rs1d k r = h.rs1d k r ∧ g.rs2d k r = h.rs2d k r := by
    intro k r
    by_cases hr : r = 0#5
    · rw [hr, (hg k).1, (hg k).2, (hh k).1, (hh k).2]
      exact ⟨rfl, rfl⟩
    · exact heq k r hr
  have hadr (x : BitVec 7) : x.extractLsb 6 5 ++ x.extractLsb 4 0 = x := by
    revert x
    decide
  cases g with
  | mk g₁ g₂ =>
    cases h with
    | mk h₁ h₂ =>
      refine congrArg₂ T5Gprf.mk (funext fun x => ?_) (funext fun x => ?_)
      · have := (hall (x.extractLsb 6 5) (x.extractLsb 4 0)).1
        simp only [rs1d, hadr] at this
        exact this
      · have := (hall (x.extractLsb 6 5) (x.extractLsb 4 0)).2
        simp only [rs2d, hadr] at this
        exact this

/-- Two cores in arbitrary states go through one `sys_rst` waveform, with other
inputs of their own.  Neither advances after the first edge of the final pulse
until the fifth edge after its release.  Then all their flops agree, and if the
registers `x1` to `x31` do so as well the cores cannot be told apart. -/
theorem reset_converges (X : DontCare) (c d : T5Rv32i) (lead : List Bool) (n : Nat)
    {is js : List Input}
    (his : is.map Input.sysRst =
      lead ++ List.replicate (n + 1) true ++ List.replicate 5 false)
    (hjs : js.map Input.sysRst =
      lead ++ List.replicate (n + 1) true ++ List.replicate 5 false) :
    let a := (machine X).run c is
    let b := (machine X).run d js
    ((machine X).edges ((machine X).run c (is.take (lead.length + 1)))
        (is.drop (lead.length + 1)) = [] ∧
      (machine X).edges ((machine X).run d (js.take (lead.length + 1)))
        (js.drop (lead.length + 1)) = []) ∧
    (a.sysc = b.sysc ∧ a.inst = b.inst ∧ a.ctrl = b.ctrl ∧ a.aslu = b.aslu ∧ a.data = b.data ∧
      a.back = b.back) ∧
    (a.inst.hart = 0#2 ∧ a.inst.dhart = 3#2) ∧
    ((∀ h r, r ≠ 0#5 → a.gprf.rs1d h r = b.gprf.rs1d h r ∧ a.gprf.rs2d h r = b.gprf.rs2d h r) →
      ∀ ks, (machine X).run a ks = (machine X).run b ks) := by
  intro a b
  obtain ⟨hea, p, i, hp, hi, ha⟩ := run_released X c his
  obtain ⟨heb, q, j, hq, hj, hb⟩ := run_released X d hjs
  have ha : a = _ := ha.trans (hp.step hi).2
  have hb : b = _ := hb.trans (hq.step hj).2
  have hflops : a.sysc = b.sysc ∧ a.inst = b.inst ∧ a.ctrl = b.ctrl ∧ a.aslu = b.aslu ∧
      a.data = b.data ∧ a.back = b.back := by
    rw [ha, hb]
    exact ⟨rfl, hp.inst.trans hq.inst.symm, hp.flushed.ctrl.trans hq.flushed.ctrl.symm,
      hp.flushed.aslu.trans hq.flushed.aslu.symm, hp.flushed.data.trans hq.flushed.data.symm,
      hp.flushed.back.trans hq.flushed.back.symm⟩
  refine ⟨⟨hea, heb⟩, hflops, ?_, fun hregs ks => ?_⟩
  · rw [ha, hp.inst]
    exact ⟨rfl, rfl⟩
  · have hza : a.gprf.ZeroClear := by rw [ha]; exact hp.zeroClear
    have hzb : b.gprf.ZeroClear := by rw [hb]; exact hq.zeroClear
    have hgprf : a.gprf = b.gprf := T5Gprf.eq_of_registers hza hzb hregs
    obtain ⟨h1, h2, h3, h4, h5, h6⟩ := hflops
    have hab : a = b := by
      cases ha' : a
      cases hb' : b
      rw [ha', hb'] at h1 h2 h3 h4 h5 h6 hgprf
      simp only [T5Rv32i.mk.injEq]
      exact ⟨h1, h2, h3, h4, h5, h6, hgprf⟩
    rw [hab]

/-- A pulse of one cycle after one of two cycles that has not been shifted out. -/
theorem reset_converges_short_pulse :
    let hi : Input := { Input.fetch nop with sysRst := true }
    let lo : Input := Input.fetch nop
    let is := [hi, hi, lo, hi, lo, lo, lo, lo, lo]
    ((machine default).run default is).inst.dhart = 3#2 := by
  intro hi lo is
  have his : is.map Input.sysRst =
      [true, true, false] ++ List.replicate (0 + 1) true ++ List.replicate 5 false := rfl
  have h := reset_converges default default (coldStart default) _ 0 his his
  exact h.2.2.1.2

/-! ## Register `x0` and the two copies -/

namespace T5Gprf

theorem rs1d_eq_rs2d_step {g : T5Gprf} {k : BitVec 2} {r : BitVec 5}
    (hg : g.rs1d k r = g.rs2d k r) (wre : Bool) (h : BitVec 2) (q : BitVec 5) (v : BitVec 32) :
    (g.step wre h q v).rs1d k r = (g.step wre h q v).rs2d k r := by
  simp only [rs1d, rs2d, step, Dpram.step_read] at hg ⊢
  rw [hg]

theorem rs1d_eq_rs2d_of_write (g : T5Gprf) (k : BitVec 2) (r : BitVec 5) (v : BitVec 32) :
    (g.step true k r v).rs1d k r = (g.step true k r v).rs2d k r := by
  simp only [rs1d, rs2d, step, Dpram.step_read, beq_self_eq_true, Bool.and_true, if_true]

end T5Gprf

/-- The register `r` of hart `h` is written at some edge of the run. -/
def Written (X : DontCare) (c : T5Rv32i) (is : List Input) (h : BitVec 2) (r : BitVec 5) : Prop :=
  ∃ js i ks, is = js ++ i :: ks ∧ ((machine X).run c js).back.mwre = true ∧
    ((machine X).run c js).inst.mhart = h ∧ ((machine X).run c js).rd0a = r

theorem rs1d_eq_rs2d_run {c : T5Rv32i} {h : BitVec 2} {r : BitVec 5}
    (hc : c.gprf.rs1d h r = c.gprf.rs2d h r) (is : List Input) :
    ((machine X).run c is).gprf.rs1d h r = ((machine X).run c is).gprf.rs2d h r :=
  Clocked.Machine.run_invariant (M := machine X) (A := fun _ => True)
    (P := fun c => c.gprf.rs1d h r = c.gprf.rs2d h r)
    (fun _ _ hc _ => T5Gprf.rs1d_eq_rs2d_step hc _ _ _ _) hc (fun _ _ => trivial)

theorem Written.rs1d_eq_rs2d {c : T5Rv32i} {is : List Input} {h : BitVec 2} {r : BitVec 5}
    (hw : Written X c is h r) :
    ((machine X).run c is).gprf.rs1d h r = ((machine X).run c is).gprf.rs2d h r := by
  obtain ⟨js, i, ks, rfl, hwre, rfl, rfl⟩ := hw
  rw [Clocked.Machine.run_append, Clocked.Machine.run_cons]
  refine rs1d_eq_rs2d_run ?_ ks
  show (T5Rv32i.commit _).rs1d _ _ = (T5Rv32i.commit _).rs2d _ _
  rw [T5Rv32i.commit, hwre]
  exact T5Gprf.rs1d_eq_rs2d_of_write _ _ _ _

/-- A cycle after the pulse in which the core is enabled is at least five edges
after it. -/
theorem length_of_enabled (X : DontCare) (c : T5Rv32i) {r : Input} {after : List Input}
    (hr : r.sysRst = true) (hafter : ∀ i ∈ after, i.sysRst = false)
    (hs : ((machine X).run c (r :: after)).srst = false)
    (he : ((machine X).run c (r :: after)).sysc.ena = true) : 5 ≤ after.length := by
  have hrst := rst_run_of_low X (T5Rv32i.step X c r) hafter
  rw [(T5Rv32i.step_of_sysRst X c hr).1] at hrst
  by_contra hlt
  have hcases : after.length = 4 ∨ after.length = 0 ∨ after.length = 1 ∨ after.length = 2 ∨
      after.length = 3 := by omega
  rcases hcases with h4 | hshort
  · have hnone : ∀ i ∈ ([] : List Input), i.sysRst = true := fun _ hi => absurd hi List.not_mem_nil
    have hpost := postReset_of_pulse X c hr hnone h4 hafter
    exact absurd (he.symm.trans hpost.flushed.ena) (by decide)
  · have hsrst : ((machine X).run c (r :: after)).srst = true := by
      rw [T5Rv32i.srst, T5Sysc.srst, Clocked.Machine.run_cons]
      refine (congrArg (fun v : BitVec 4 => v.getLsbD 3) hrst).trans ?_
      rcases hshort with h | h | h | h <;> rw [h] <;> rfl
    exact absurd (hs.symm.trans hsrst) (by decide)

/-- From the first enabled cycle after a reset on, `x0` is zero in every bank of
both copies of the register file, and the copies agree in every register that
has been written since the reset. -/
theorem zero_and_copies (X : DontCare) (c₀ : T5Rv32i) (before : List Input) {r : Input}
    {after onward : List Input} (hr : r.sysRst = true)
    (hafter : ∀ i ∈ after, i.sysRst = false) (honward : ∀ i ∈ onward, i.sysRst = false) :
    let b := (machine X).run c₀ before
    let e := (machine X).run b (r :: after)
    let c := (machine X).run e onward
    e.srst = false → e.sysc.ena = true →
      (∀ h, c.gprf.rs1d h 0#5 = 0#32 ∧ c.gprf.rs2d h 0#5 = 0#32) ∧
      ∀ h q, Written X b (r :: after ++ onward) h q → c.gprf.rs1d h q = c.gprf.rs2d h q := by
  intro b e c hs he
  have hc : c = (machine X).run b (r :: after ++ onward) :=
    (Clocked.Machine.run_append b (r :: after) onward).symm
  refine ⟨?_, fun h q hw => ?_⟩
  · have hlen := length_of_enabled X b hr hafter hs he
    have hnone : ∀ i ∈ ([] : List Input), i.sysRst = true := fun _ hi => absurd hi List.not_mem_nil
    have hfour : (after.take 4).length = 4 := by rw [List.length_take]; omega
    have hpost := postReset_of_pulse X b hr hnone hfour
      (fun i hi => hafter i (List.mem_of_mem_take hi))
    -- The register file is that of the previous cycle with its pending write.
    have hne : after.drop 4 ++ onward ≠ [] := by
      intro e
      have := congrArg List.length e
      rw [List.length_append, List.length_drop, List.length_nil] at this
      omega
    obtain ⟨front, last, hlast⟩ : ∃ front last, after.drop 4 ++ onward = front ++ [last] :=
      ⟨_, _, (List.dropLast_append_getLast hne).symm⟩
    have hlow : ∀ i ∈ front, i.sysRst = false := by
      intro i hi
      have hmem : i ∈ after.drop 4 ++ onward := by
        rw [hlast]
        exact List.mem_append_left _ hi
      rcases List.mem_append.mp hmem with hi | hi
      · exact hafter i (List.mem_of_mem_drop hi)
      · exact honward i hi
    have hsplit : r :: after ++ onward = (r :: [] ++ after.take 4) ++ (front ++ [last]) := by
      rw [← hlast, ← List.append_assoc, List.append_assoc [r], List.take_append_drop]
      rfl
    rw [hc, hsplit, Clocked.Machine.run_append, Clocked.Machine.run_append]
    exact (hpost.reachable.run hlow).zeroClear
  · rw [hc]
    exact hw.rs1d_eq_rs2d

/-- A pulse of one cycle, from a state in which the copies hold 7 and 9 everywhere. -/
theorem zero_and_copies_one_cycle :
    let c₀ : T5Rv32i :=
      { (default : T5Rv32i) with gprf := { rs1 := fun _ => 7#32, rs2 := fun _ => 9#32 } }
    let c := (machine default).run c₀
      ({ Input.fetch nop with sysRst := true } :: List.replicate 5 (Input.fetch nop))
    c.gprf.rs1d 2#2 0#5 = 0#32 ∧ c.gprf.rs2d 2#2 0#5 = 0#32 := by
  intro c₀ c
  have hafter : ∀ i ∈ List.replicate 5 (Input.fetch nop), i.sysRst = false := by decide
  have honward : ∀ i ∈ ([] : List Input), i.sysRst = false := by decide
  have h := zero_and_copies default c₀ [] (r := { Input.fetch nop with sysRst := true }) rfl hafter
    honward (by decide +kernel) (by decide +kernel)
  exact h.1 2#2

end Tra5
