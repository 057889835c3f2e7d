/-
Register `x0`.

Nothing in the register file ties `x0` to zero.  The reset writes zero to it,
one bank in each of the cycles in which the hart counter runs with `srst` high
and the last one in the first cycle after, and the write enable is low for every
instruction with destination `x0`.
-/
import Tra5.Pipeline.Stall

namespace Tra5

namespace T5Gprf

/-- `x0` is zero in every bank, in both copies. -/
def ZeroClear (g : T5Gprf) : Prop := ∀ h, g.rs1d h 0#5 = 0#32 ∧ g.rs2d h 0#5 = 0#32

theorem ZeroClear.step {g : T5Gprf} (hg : ZeroClear g) {wre : Bool} {r : BitVec 5}
    (h : BitVec 2) (v : BitVec 32) (hw : wre = true → r ≠ 0#5) : ZeroClear (g.step wre h r v) := by
  intro k
  cases wre with
  | false => exact hg k
  | true =>
    have hne : k ++ 0#5 ≠ h ++ r := by
      intro e
      have h5 := congrArg (BitVec.extractLsb' 0 5) e
      rw [BitVec.extractLsb'_append_eq_right, BitVec.extractLsb'_append_eq_right] at h5
      exact hw rfl h5.symm
    exact ⟨(Dpram.step_read_of_ne hne g.rs1 true v).trans (hg k).1,
      (Dpram.step_read_of_ne hne g.rs2 true v).trans (hg k).2⟩

theorem rs1d_step_zero (g : T5Gprf) (k h : BitVec 2) :
    (g.step true k 0#5 0#32).rs1d h 0#5 = if h = k then 0#32 else g.rs1d h 0#5 := by
  by_cases hk : h = k
  · rw [if_pos hk, hk, rs1d, step, Dpram.step_read, beq_self_eq_true]
    rfl
  · rw [if_neg hk, rs1d_step_of_ne hk]

theorem rs2d_step_zero (g : T5Gprf) (k h : BitVec 2) :
    (g.step true k 0#5 0#32).rs2d h 0#5 = if h = k then 0#32 else g.rs2d h 0#5 := by
  by_cases hk : h = k
  · rw [if_pos hk, hk, rs2d, step, Dpram.step_read, beq_self_eq_true]
    rfl
  · rw [if_neg hk, rs2d_step_of_ne hk]

theorem zeroClear_of_four (g : T5Gprf) :
    ZeroClear ((((g.step true 1#2 0#5 0#32).step true 3#2 0#5 0#32).step true 2#2 0#5 0#32).step
      true 0#2 0#5 0#32) := by
  intro h
  have hcases : h = 0#2 ∨ h = 1#2 ∨ h = 2#2 ∨ h = 3#2 := by
    revert h
    decide
  simp only [rs1d_step_zero, rs2d_step_zero]
  rcases hcases with rfl | rfl | rfl | rfl <;> exact ⟨rfl, rfl⟩

end T5Gprf

/-! ## Reset -/

theorem T5Rv32i.Flushed.commit_eq {c : T5Rv32i} (h : Flushed c) :
    c.commit = c.gprf.step true c.inst.hart 0#5 0#32 := by
  rw [commit, rd0a, rd0d, h.back, h.aslu]
  rfl

theorem PostReset.zeroClear {X : DontCare} {c : T5Rv32i} (h : PostReset X c) :
    c.commit.ZeroClear := by
  have hc := h.flushed
  obtain ⟨c₀, is, hwave, hrun⟩ := h
  obtain ⟨d, i₁, i₂, i₃, i₄, hr, hh, ⟨h₁, h₂, h₃, h₄⟩, hdrain⟩ := hwave.exists_drain X c₀
  obtain ⟨⟨hs₀, hs₁, hs₂, -⟩, ⟨hh₁, hh₂, hh₃, hh₄⟩, -, -⟩ := drain_edges X hr hh h₁ h₂ h₃ h₄
  have hf₁ := T5Rv32i.flushed_step_of_srst X hs₀ i₁
  have hf₂ := T5Rv32i.flushed_step_of_srst X hs₁ i₂
  have hf₃ := T5Rv32i.flushed_step_of_srst X hs₂ i₃
  have hgprf (c : T5Rv32i) (i : Input) : (T5Rv32i.step X c i).gprf = c.commit := rfl
  rw [hc.commit_eq, hrun, hdrain, hh₄, hgprf, hf₃.commit_eq, hh₃, hgprf, hf₂.commit_eq, hh₂, hgprf,
    hf₁.commit_eq, hh₁]
  exact T5Gprf.zeroClear_of_four _

/-! ## Runs -/

theorem Pipe.zeroClear_advance (X : DontCare) {p : Pipe} (h : p.gprf.ZeroClear) (k : Sample) :
    (p.advance X k).gprf.ZeroClear := by
  refine h.step _ _ (fun hw => ?_)
  have hwrites : T5Back.writes p.data.xstb p.back.xrd p.aslu.xopc = true := hw
  simp only [T5Back.writes, Bool.and_eq_true, orR, bne_iff_ne] at hwrites
  exact hwrites.1.1.2

theorem Pipe.zeroClear_run (X : DontCare) {p : Pipe} (h : p.gprf.ZeroClear) (ks : List Sample) :
    (p.run X ks).gprf.ZeroClear := by
  induction ks generalizing p with
  | nil => exact h
  | cons k ks ih => exact ih (zeroClear_advance X h k)

/-- In every reachable state `x0` is zero in every bank, once the pending write is
applied. -/
theorem Reachable.zeroClear {X : DontCare} {c : T5Rv32i} (h : Reachable X c) :
    c.commit.ZeroClear := by
  obtain ⟨p, is, hp, his, rfl⟩ := h
  show ((machine X).run p is).pipe.gprf.ZeroClear
  rw [pipe_run hp.running his]
  exact Pipe.zeroClear_run X hp.zeroClear _

end Tra5
