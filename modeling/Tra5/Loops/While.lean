/-
Loops.

The body of a loop either goes on with a new state or leaves the loop with a result.
`steps` is the state after a number of rounds that all go on, and `result` is what the
loop leaves with in so many rounds.  The rules say how rounds compose, that a loop leaves
with one result at most, that a loop with an invariant under which it always goes on never
leaves, that a loop whose rounds lower a measure is left, and that two loops whose bodies
keep a relation stay related.
-/
import Mathlib.Data.Nat.Basic

namespace Loop

variable {σ β : Type} (body : σ → Except β σ)

def steps : Nat → σ → Option σ
  | 0, s => some s
  | n + 1, s =>
    match body s with
    | .ok t => steps n t
    | .error _ => none

def result : Nat → σ → Option β
  | 0, _ => none
  | n + 1, s =>
    match body s with
    | .ok t => result n t
    | .error b => some b

/-- The state after `n` rounds, and `s` itself if the loop is left before. -/
def after (n : Nat) (s : σ) : σ := (steps body n s).getD s

/-- The loop leaves with the result `b`. -/
def Exits (s : σ) (b : β) : Prop := ∃ n, result body n s = some b

variable {body}

theorem steps_succ_of_ok {s t : σ} (h : body s = .ok t) (n : Nat) :
    steps body (n + 1) s = steps body n t := by
  rw [steps, h]

theorem result_succ_of_ok {s t : σ} (h : body s = .ok t) (n : Nat) :
    result body (n + 1) s = result body n t := by
  rw [result, h]

theorem steps_eq_after {n : Nat} {s : σ} (h : (steps body n s).isSome = true) :
    steps body n s = some (after body n s) := by
  obtain ⟨t, ht⟩ := Option.isSome_iff_exists.mp h
  rw [after, ht, Option.getD_some]

theorem steps_succ {n : Nat} {s u : σ} :
    steps body (n + 1) s = some u ↔ ∃ t, body s = .ok t ∧ steps body n t = some u := by
  rw [steps]
  cases body s with
  | ok t => simp
  | error b => simp

theorem steps_add {m n : Nat} {s u : σ} :
    steps body (m + n) s = some u ↔ ∃ t, steps body m s = some t ∧ steps body n t = some u := by
  induction m generalizing s with
  | zero =>
    rw [Nat.zero_add]
    exact ⟨fun h => ⟨s, rfl, h⟩, fun ⟨_, hs, h⟩ => Option.some.inj hs ▸ h⟩
  | succ m ih =>
    rw [Nat.succ_add, steps_succ]
    simp only [ih, steps_succ]
    constructor
    · rintro ⟨v, hv, t, hm, hn⟩
      exact ⟨t, ⟨v, hv, hm⟩, hn⟩
    · rintro ⟨t, ⟨v, hv, hm⟩, hn⟩
      exact ⟨v, hv, t, hm, hn⟩

/-- Two loops in step.  The relation only has to be kept by the rounds that the first loop
takes. -/
theorem steps_related {τ γ : Type} {other : τ → Except γ τ} {R : σ → τ → Prop} {P : σ → Prop}
    (hstep : ∀ s s' t, R s s' → P s → body s = .ok t → ∃ t', other s' = .ok t' ∧ R t t')
    {n : Nat} {s t : σ} {s' : τ} (hn : steps body n s = some t)
    (hP : ∀ k < n, ∀ u, steps body k s = some u → P u) (hR : R s s') :
    ∃ t', steps other n s' = some t' ∧ R t t' := by
  induction n generalizing s s' with
  | zero =>
    cases hn
    exact ⟨s', rfl, hR⟩
  | succ n ih =>
    obtain ⟨u, hu, hrest⟩ := steps_succ.mp hn
    obtain ⟨u', hu', hRu⟩ := hstep s s' u hR (hP 0 (Nat.succ_pos n) s rfl) hu
    have hPu : ∀ k < n, ∀ v, steps body k u = some v → P v := fun k hk v hv =>
      hP (k + 1) (Nat.succ_lt_succ hk) v (by rw [steps_succ_of_ok hu, hv])
    obtain ⟨t', ht', hRt⟩ := ih hrest hPu hRu
    exact ⟨t', by rw [steps_succ_of_ok hu', ht'], hRt⟩

/-! ## Divergence -/

/-- A loop that never leaves: the invariant holds and the body always goes on. -/
theorem not_exits_of_invariant {P : σ → Prop} (hstep : ∀ s, P s → ∃ t, body s = .ok t ∧ P t)
    {s : σ} (hs : P s) (b : β) : ¬ Exits body s b := by
  rintro ⟨n, h⟩
  induction n generalizing s with
  | zero => exact absurd h.symm (Option.some_ne_none b)
  | succ n ih =>
    obtain ⟨t, ht, hnext⟩ := hstep s hs
    rw [result_succ_of_ok ht] at h
    exact ih hnext h

/-! ## Results -/

/-- A loop whose rounds lower a measure is left. -/
theorem exists_error {μ : σ → Nat} (hdec : ∀ s t, body s = .ok t → μ t < μ s) (s : σ) :
    ∃ n ≤ μ s, ∃ t b, steps body n s = some t ∧ body t = .error b := by
  induction hm : μ s using Nat.strong_induction_on generalizing s with
  | _ m ih =>
    cases hs : body s with
    | error b => exact ⟨0, Nat.zero_le m, s, b, rfl, hs⟩
    | ok t =>
      have hlt : μ t < m := hm ▸ hdec s t hs
      obtain ⟨n, hn, u, b, hu, hb⟩ := ih (μ t) hlt t rfl
      exact ⟨n + 1, by omega, u, b, by rw [steps_succ_of_ok hs, hu], hb⟩

theorem exits_of_error {s : σ} {b : β} (h : body s = .error b) : Exits body s b :=
  ⟨1, by rw [result, h]⟩

/-- A result comes from a round that leaves. -/
theorem Exits.exists_error {s : σ} {b : β} (h : Exits body s b) : ∃ t, body t = .error b := by
  obtain ⟨n, h⟩ := h
  induction n generalizing s with
  | zero => exact absurd h.symm (Option.some_ne_none b)
  | succ n ih =>
    cases hs : body s with
    | error c =>
      rw [result, hs] at h
      exact ⟨s, hs.trans (congrArg Except.error (Option.some.inj h))⟩
    | ok t =>
      rw [result_succ_of_ok hs] at h
      exact ih h

theorem Exits.of_steps {s t : σ} {b : β} {n : Nat} (hn : steps body n s = some t)
    (h : Exits body t b) : Exits body s b := by
  induction n generalizing s with
  | zero =>
    cases hn
    exact h
  | succ n ih =>
    obtain ⟨u, hu, hrest⟩ := steps_succ.mp hn
    obtain ⟨m, hm⟩ := ih hrest
    exact ⟨m + 1, by rw [result_succ_of_ok hu, hm]⟩

theorem result_mono {n : Nat} {s : σ} {b : β} (h : result body n s = some b) (k : Nat) :
    result body (n + k) s = some b := by
  induction n generalizing s with
  | zero => exact absurd h.symm (Option.some_ne_none b)
  | succ n ih =>
    rw [Nat.succ_add]
    cases hs : body s with
    | error c =>
      rw [result, hs] at h ⊢
      exact h
    | ok t =>
      rw [result_succ_of_ok hs] at h ⊢
      exact ih h

theorem Exits.unique {s : σ} {b c : β} (hb : Exits body s b) (hc : Exits body s c) : b = c := by
  obtain ⟨m, hm⟩ := hb
  obtain ⟨n, hn⟩ := hc
  have h := result_mono hn m
  rw [Nat.add_comm, result_mono hm n] at h
  exact Option.some.inj h

end Loop
