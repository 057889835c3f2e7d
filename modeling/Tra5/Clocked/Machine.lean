/-
Synchronous machines with a clock enable.

A machine takes one step on every clock edge, and an enable computed from its
state and inputs says which edges move it.  The edges where the enable is low
are stalls.  They need not leave the state alone: a memory whose write port is
always on still writes.  What a stall has to preserve is an abstraction of the
state, and `Refinement.abs_run` says that the abstraction after a run is
determined by the inputs sampled at the enabled edges, whatever the stalls
between them.
-/
import Mathlib.Data.List.Basic

namespace Clocked

/-- A step for every clock edge and the enable of the edge. -/
structure Machine (σ ι : Type) where
  step : σ → ι → σ
  enabled : σ → ι → Bool

namespace Machine

variable {σ ι : Type} (M : Machine σ ι)

def run (s : σ) : List ι → σ
  | [] => s
  | i :: is => run (M.step s i) is

/-- The inputs at the enabled edges of a run. -/
def edges (s : σ) : List ι → List ι
  | [] => []
  | i :: is => if M.enabled s i then i :: edges (M.step s i) is else edges (M.step s i) is

/-- The states and the inputs at the enabled edges of a run. -/
def trace (s : σ) : List ι → List (σ × ι)
  | [] => []
  | i :: is => if M.enabled s i then (s, i) :: trace (M.step s i) is else trace (M.step s i) is

@[simp] theorem run_nil (s : σ) : M.run s [] = s := rfl

@[simp] theorem run_cons (s : σ) (i : ι) (is : List ι) :
    M.run s (i :: is) = M.run (M.step s i) is := rfl

@[simp] theorem edges_nil (s : σ) : M.edges s [] = [] := rfl

variable {M}

theorem edges_cons_of_enabled {s : σ} {i : ι} (h : M.enabled s i = true) (is : List ι) :
    M.edges s (i :: is) = i :: M.edges (M.step s i) is := by
  rw [edges, if_pos h]

theorem edges_cons_of_stall {s : σ} {i : ι} (h : M.enabled s i = false) (is : List ι) :
    M.edges s (i :: is) = M.edges (M.step s i) is := by
  rw [edges, if_neg (by rw [h]; exact Bool.false_ne_true)]

theorem edges_cons_eq_nil {s : σ} {i : ι} {is : List ι} :
    M.edges s (i :: is) = [] ↔ M.enabled s i = false ∧ M.edges (M.step s i) is = [] := by
  cases h : M.enabled s i with
  | false => simp [edges_cons_of_stall h]
  | true => simp [edges_cons_of_enabled h]

theorem run_append (s : σ) (is js : List ι) :
    M.run s (is ++ js) = M.run (M.run s is) js := by
  induction is generalizing s with
  | nil => rfl
  | cons i is ih => exact ih (M.step s i)

theorem run_congr {N : Machine σ ι} (h : M.step = N.step) (s : σ) (is : List ι) :
    M.run s is = N.run s is := by
  induction is generalizing s with
  | nil => rfl
  | cons i is ih => rw [run_cons, run_cons, h, ih]

theorem edges_append (s : σ) (is js : List ι) :
    M.edges s (is ++ js) = M.edges s is ++ M.edges (M.run s is) js := by
  induction is generalizing s with
  | nil => rfl
  | cons i is ih =>
    cases h : M.enabled s i with
    | false =>
      rw [List.cons_append, edges_cons_of_stall h, edges_cons_of_stall h, run_cons]
      exact ih (M.step s i)
    | true =>
      rw [List.cons_append, edges_cons_of_enabled h, edges_cons_of_enabled h, run_cons,
        List.cons_append]
      exact congrArg (i :: ·) (ih (M.step s i))

theorem mem_of_mem_edges {s : σ} {is : List ι} {i : ι} (h : i ∈ M.edges s is) : i ∈ is := by
  induction is generalizing s with
  | nil => exact h
  | cons j is ih =>
    cases he : M.enabled s j with
    | false =>
      rw [edges_cons_of_stall he] at h
      exact List.mem_cons_of_mem j (ih h)
    | true =>
      rw [edges_cons_of_enabled he, List.mem_cons] at h
      rcases h with rfl | h
      · exact List.mem_cons_self
      · exact List.mem_cons_of_mem j (ih h)

theorem exists_of_edges_eq {s : σ} {is : List ι} {es fs : List ι} {e : ι}
    (h : M.edges s is = es ++ e :: fs) :
    ∃ js ks, is = js ++ e :: ks ∧ M.edges s js = es ∧ M.enabled (M.run s js) e = true ∧
      M.edges (M.step (M.run s js) e) ks = fs := by
  induction is generalizing s es with
  | nil => exact absurd h (by simp)
  | cons i is ih =>
    cases he : M.enabled s i with
    | false =>
      rw [edges_cons_of_stall he] at h
      obtain ⟨js, ks, rfl, hjs, hen, hks⟩ := ih h
      exact ⟨i :: js, ks, rfl, by rw [edges_cons_of_stall he]; exact hjs, hen, hks⟩
    | true =>
      rw [edges_cons_of_enabled he] at h
      cases es with
      | nil =>
        obtain ⟨rfl, hks⟩ := List.cons.inj h
        exact ⟨[], is, rfl, rfl, he, hks⟩
      | cons d es =>
        obtain ⟨rfl, htail⟩ := List.cons.inj h
        obtain ⟨js, ks, rfl, hjs, hen, hks⟩ := ih htail
        exact ⟨i :: js, ks, rfl, by rw [edges_cons_of_enabled he, hjs], hen, hks⟩

/-- The predicate holds of the state and the input at every enabled edge of the
run. -/
def AtEdges (M : Machine σ ι) (s : σ) (is : List ι) (P : σ → ι → Prop) : Prop :=
  ∀ js i ks, is = js ++ i :: ks → M.enabled (M.run s js) i = true → P (M.run s js) i

theorem AtEdges.of_append {s : σ} {is js : List ι} {P : σ → ι → Prop}
    (h : M.AtEdges s (is ++ js) P) : M.AtEdges s is P :=
  fun as i bs he => h as i (bs ++ js) (by rw [he, List.append_assoc, List.cons_append])

theorem AtEdges.head {s : σ} {i : ι} {is : List ι} {P : σ → ι → Prop}
    (h : M.AtEdges s (i :: is) P) (he : M.enabled s i = true) : P s i :=
  h [] i is rfl he

theorem AtEdges.tail {s : σ} {i : ι} {is : List ι} {P : σ → ι → Prop}
    (h : M.AtEdges s (i :: is) P) : M.AtEdges (M.step s i) is P :=
  fun as j bs he => h (i :: as) j bs (by rw [he, List.cons_append])

theorem trace_cons_of_enabled {s : σ} {i : ι} (h : M.enabled s i = true) (is : List ι) :
    M.trace s (i :: is) = (s, i) :: M.trace (M.step s i) is := by
  rw [trace, if_pos h]

theorem trace_cons_of_stall {s : σ} {i : ι} (h : M.enabled s i = false) (is : List ι) :
    M.trace s (i :: is) = M.trace (M.step s i) is := by
  rw [trace, if_neg (by rw [h]; exact Bool.false_ne_true)]

theorem map_snd_trace (s : σ) (is : List ι) : (M.trace s is).map Prod.snd = M.edges s is := by
  induction is generalizing s with
  | nil => rfl
  | cons i is ih =>
    cases h : M.enabled s i with
    | false => rw [trace_cons_of_stall h, edges_cons_of_stall h, ih]
    | true => rw [trace_cons_of_enabled h, edges_cons_of_enabled h, List.map_cons, ih]

theorem exists_of_trace_eq {s : σ} {is : List ι} {p r : List (σ × ι)} {e : σ × ι}
    (h : M.trace s is = p ++ e :: r) :
    ∃ js ks, is = js ++ e.2 :: ks ∧ M.trace s js = p ∧ M.run s js = e.1 ∧
      M.enabled e.1 e.2 = true ∧ M.trace (M.step e.1 e.2) ks = r := by
  induction is generalizing s p with
  | nil => exact absurd h (by simp [trace])
  | cons i is ih =>
    cases he : M.enabled s i with
    | false =>
      rw [trace_cons_of_stall he] at h
      obtain ⟨js, ks, rfl, hjs, hrun, hen, hks⟩ := ih h
      exact ⟨i :: js, ks, rfl, by rw [trace_cons_of_stall he]; exact hjs, hrun, hen, hks⟩
    | true =>
      rw [trace_cons_of_enabled he] at h
      cases p with
      | nil =>
        obtain ⟨rfl, hr⟩ := List.cons.inj h
        exact ⟨[], is, rfl, rfl, rfl, he, hr⟩
      | cons d p =>
        obtain ⟨rfl, htail⟩ := List.cons.inj h
        obtain ⟨js, ks, rfl, hjs, hrun, hen, hks⟩ := ih htail
        exact ⟨i :: js, ks, rfl, by rw [trace_cons_of_enabled he, hjs], hrun, hen, hks⟩

theorem filter_trace_cons (p : σ × ι → Bool) (s : σ) (i : ι) (is : List ι) :
    (M.trace s (i :: is)).filter p =
      if M.enabled s i && p (s, i) then (s, i) :: (M.trace (M.step s i) is).filter p
      else (M.trace (M.step s i) is).filter p := by
  cases h : M.enabled s i with
  | false =>
    rw [trace_cons_of_stall h]
    rfl
  | true =>
    rw [trace_cons_of_enabled h, List.filter_cons]
    rfl

/-- Two machines that take the same steps have the same edges, up to those that `p` and `q`
leave out, if their enables agree up to the same. -/
theorem filter_trace_congr {N : Machine σ ι} (hstep : M.step = N.step) {p q : σ × ι → Bool}
    {P : σ → Prop} {A : ι → Prop} (hP : ∀ s i, P s → A i → P (M.step s i))
    (henabled : ∀ s i, P s → A i → (M.enabled s i && p (s, i)) = (N.enabled s i && q (s, i)))
    {s : σ} (hs : P s) {is : List ι} (his : ∀ i ∈ is, A i) :
    (M.trace s is).filter p = (N.trace s is).filter q := by
  induction is generalizing s with
  | nil => rfl
  | cons i is ih =>
    have hi : A i := his i List.mem_cons_self
    have htail := ih (hP s i hs hi) fun j hj => his j (List.mem_cons_of_mem i hj)
    rw [filter_trace_cons, filter_trace_cons, henabled s i hs hi, htail, hstep]

/-- A relation between the state and the edges so far holds after every run if it
holds after every edge. -/
theorem trace_run {P : σ → List (σ × ι) → Prop} {A : ι → Prop} {R : σ → ι → Prop}
    (hedge : ∀ s i t, P s t → A i → M.enabled s i = true → R s i → P (M.step s i) (t ++ [(s, i)]))
    (hstall : ∀ s i t, P s t → A i → M.enabled s i = false → P (M.step s i) t)
    {s : σ} {t : List (σ × ι)} (h₀ : P s t) {is : List ι} (his : ∀ i ∈ is, A i)
    (hR : M.AtEdges s is R) : P (M.run s is) (t ++ M.trace s is) := by
  induction is generalizing s t with
  | nil =>
    rw [trace, List.append_nil]
    exact h₀
  | cons i is ih =>
    have hi : A i := his i List.mem_cons_self
    have hrest : ∀ j ∈ is, A j := fun j hj => his j (List.mem_cons_of_mem i hj)
    cases he : M.enabled s i with
    | false =>
      rw [trace_cons_of_stall he]
      exact ih (hstall s i t h₀ hi he) hrest hR.tail
    | true =>
      rw [trace_cons_of_enabled he, List.append_cons]
      exact ih (hedge s i t h₀ hi he (hR.head he)) hrest hR.tail

/-- The same for a value that the enabled edges update by `f`. -/
theorem ghost_run {β : Type} {f : β → σ × ι → β} {P : σ → β → Prop} {A : ι → Prop}
    {R : σ → ι → Prop}
    (hedge : ∀ s i b, P s b → A i → M.enabled s i = true → R s i → P (M.step s i) (f b (s, i)))
    (hstall : ∀ s i b, P s b → A i → M.enabled s i = false → P (M.step s i) b)
    {s : σ} {b : β} (h₀ : P s b) {is : List ι} (his : ∀ i ∈ is, A i) (hR : M.AtEdges s is R) :
    P (M.run s is) ((M.trace s is).foldl f b) := by
  refine trace_run (P := fun s t => P s (t.foldl f b)) (t := []) ?_ ?_ h₀ his hR
  · intro s i t h hi he hr
    rw [List.foldl_append]
    exact hedge s i _ h hi he hr
  · exact fun s i t => hstall s i _

/-- The relation holds of the states and the inputs at every pair of enabled
edges with the same number of enabled edges before them. -/
def Lockstep (M : Machine σ ι) (s t : σ) (is js : List ι) (P : σ → ι → σ → ι → Prop) : Prop :=
  ∀ as i bs cs j ds, is = as ++ i :: bs → js = cs ++ j :: ds →
    (M.edges s as).length = (M.edges t cs).length → M.enabled (M.run s as) i = true →
    M.enabled (M.run t cs) j = true → P (M.run s as) i (M.run t cs) j

theorem Lockstep.of_append {s t : σ} {is is' js js' : List ι} {P : σ → ι → σ → ι → Prop}
    (h : M.Lockstep s t (is ++ is') (js ++ js') P) : M.Lockstep s t is js P := by
  intro as i bs cs j ds hi hj
  exact h as i (bs ++ is') cs j (ds ++ js') (by rw [hi, List.append_assoc, List.cons_append])
    (by rw [hj, List.append_assoc, List.cons_append])

/-! The two are decidable on concrete runs, through the positions of the edges. -/

theorem AtEdges.of_index {s : σ} {is : List ι} {P : σ → ι → Prop}
    (h : ∀ m : Fin is.length, M.enabled (M.run s (is.take m)) (is.get m) = true →
      P (M.run s (is.take m)) (is.get m)) : M.AtEdges s is P := by
  rintro as i bs rfl ha
  have hm := h ⟨as.length, by simp⟩
  simp only [List.take_left, List.get_eq_getElem, List.getElem_append_right, Nat.sub_self,
    List.getElem_cons_zero, Nat.le_refl] at hm
  exact hm ha

theorem Lockstep.of_index {s t : σ} {is js : List ι} {P : σ → ι → σ → ι → Prop}
    (h : ∀ (m : Fin is.length) (n : Fin js.length),
      (M.edges s (is.take m)).length = (M.edges t (js.take n)).length →
      M.enabled (M.run s (is.take m)) (is.get m) = true →
      M.enabled (M.run t (js.take n)) (js.get n) = true →
      P (M.run s (is.take m)) (is.get m) (M.run t (js.take n)) (js.get n)) :
    M.Lockstep s t is js P := by
  rintro as i bs cs j ds rfl rfl hlen ha hb
  have hm := h ⟨as.length, by simp⟩ ⟨cs.length, by simp⟩
  simp only [List.take_left, List.get_eq_getElem, List.getElem_append_right, Nat.sub_self,
    List.getElem_cons_zero, Nat.le_refl] at hm
  exact hm hlen ha hb

theorem run_invariant {P : σ → Prop} {A : ι → Prop}
    (hstep : ∀ s i, P s → A i → P (M.step s i)) {s : σ} (hs : P s) {is : List ι}
    (his : ∀ i ∈ is, A i) : P (M.run s is) := by
  induction is generalizing s with
  | nil => exact hs
  | cons i is ih =>
    exact ih (hstep s i hs (his i List.mem_cons_self))
      (fun j hj => his j (List.mem_cons_of_mem i hj))

end Machine

/-! ## Refinement up to stalls -/

/-- An abstraction of the machine `M` that stalls leave alone and that the
enabled edges move by `next`.  The fields are required of the states that
satisfy `inv` and the inputs that satisfy `ok`. -/
structure Refinement {σ ι : Type} (M : Machine σ ι) (α κ : Type) where
  inv : σ → Prop
  ok : ι → Prop
  abs : σ → α
  sample : ι → κ
  next : α → κ → α
  inv_step : ∀ s i, inv s → ok i → inv (M.step s i)
  abs_enabled : ∀ s i, inv s → ok i → M.enabled s i = true →
    abs (M.step s i) = next (abs s) (sample i)
  abs_stall : ∀ s i, inv s → ok i → M.enabled s i = false → abs (M.step s i) = abs s

namespace Refinement

variable {σ ι α κ : Type} {M : Machine σ ι} (R : Refinement M α κ)

def samples (s : σ) (is : List ι) : List κ := (M.edges s is).map R.sample

theorem samples_append (s : σ) (is js : List ι) :
    R.samples s (is ++ js) = R.samples s is ++ R.samples (M.run s is) js := by
  rw [samples, Machine.edges_append, List.map_append]
  rfl

theorem inv_run {s : σ} (hs : R.inv s) {is : List ι} (his : ∀ i ∈ is, R.ok i) :
    R.inv (M.run s is) :=
  Machine.run_invariant R.inv_step hs his

theorem abs_run {s : σ} (hs : R.inv s) {is : List ι} (his : ∀ i ∈ is, R.ok i) :
    R.abs (M.run s is) = (R.samples s is).foldl R.next (R.abs s) := by
  induction is generalizing s with
  | nil => rfl
  | cons i is ih =>
    have hi : R.ok i := his i List.mem_cons_self
    have hrest : ∀ j ∈ is, R.ok j := fun j hj => his j (List.mem_cons_of_mem i hj)
    have htail := ih (R.inv_step s i hs hi) hrest
    rw [Machine.run_cons, htail]
    cases he : M.enabled s i with
    | false =>
      rw [R.abs_stall s i hs hi he, samples, samples, Machine.edges_cons_of_stall he]
    | true =>
      rw [R.abs_enabled s i hs hi he, samples, samples, Machine.edges_cons_of_enabled he,
        List.map_cons, List.foldl_cons]

/-- Two runs from one state that sample the same inputs end in the same
abstract state, however they stall. -/
theorem abs_run_eq_of_samples {s : σ} (hs : R.inv s) {is js : List ι}
    (his : ∀ i ∈ is, R.ok i) (hjs : ∀ i ∈ js, R.ok i)
    (h : R.samples s is = R.samples s js) :
    R.abs (M.run s is) = R.abs (M.run s js) := by
  rw [R.abs_run hs his, R.abs_run hs hjs, h]

theorem exists_last_edge {s : σ} (hs : R.inv s) {is : List ι} (his : ∀ i ∈ is, R.ok i) {n : Nat}
    (hn : (M.edges s is).length = n + 1) :
    ∃ js i ks, is = js ++ i :: ks ∧ (M.edges s js).length = n ∧
      M.enabled (M.run s js) i = true ∧
      R.abs (M.run s is) = R.next (R.abs (M.run s js)) (R.sample i) := by
  have hne : M.edges s is ≠ [] := fun e => by rw [e] at hn; exact absurd hn (by simp)
  obtain ⟨es, e, hes⟩ : ∃ es e, M.edges s is = es ++ [e] :=
    ⟨_, _, (List.dropLast_append_getLast hne).symm⟩
  obtain ⟨js, ks, rfl, hjs, he, hks⟩ := Machine.exists_of_edges_eq hes
  refine ⟨js, e, ks, rfl, ?_, he, ?_⟩
  · rw [hes, List.length_append, List.length_singleton] at hn
    rw [hjs]
    omega
  · have hinv : R.inv (M.run s js) :=
      R.inv_run hs (fun i hi => his i (List.mem_append_left _ hi))
    have hok := his _ (List.mem_append_right js List.mem_cons_self)
    rw [Machine.run_append, Machine.run_cons, R.abs_run (R.inv_step _ _ hinv hok) (fun i hi =>
      his i (List.mem_append_right js (List.mem_cons_of_mem _ hi))), samples, hks,
      R.abs_enabled _ _ hinv hok he]
    rfl

/-- A relation that every pair of corresponding edges preserves holds after two
runs with the same number of enabled edges. -/
theorem rel_run {S : α → α → Prop} {P : σ → ι → σ → ι → Prop} {s t : σ} (hs : R.inv s)
    (ht : R.inv t) (h₀ : S (R.abs s) (R.abs t))
    (hstep : ∀ s i t j, R.inv s → R.inv t → R.ok i → R.ok j → M.enabled s i = true →
      M.enabled t j = true → P s i t j → S (R.abs s) (R.abs t) →
      S (R.next (R.abs s) (R.sample i)) (R.next (R.abs t) (R.sample j)))
    {is js : List ι} (his : ∀ i ∈ is, R.ok i) (hjs : ∀ j ∈ js, R.ok j)
    (hlen : (M.edges s is).length = (M.edges t js).length) (hP : M.Lockstep s t is js P) :
    S (R.abs (M.run s is)) (R.abs (M.run t js)) := by
  generalize hn : (M.edges s is).length = n at hlen
  induction n generalizing is js with
  | zero =>
    rw [R.abs_run hs his, R.abs_run ht hjs, samples, samples, List.length_eq_zero_iff.mp hn,
      List.length_eq_zero_iff.mp hlen.symm]
    exact h₀
  | succ n ih =>
    obtain ⟨as, i, bs, rfl, has, hi, hsi⟩ := R.exists_last_edge hs his hn
    obtain ⟨cs, j, ds, rfl, hcs, hj, htj⟩ := R.exists_last_edge ht hjs hlen.symm
    have has' : ∀ i ∈ as, R.ok i := fun i h => his i (List.mem_append_left _ h)
    have hcs' : ∀ j ∈ cs, R.ok j := fun j h => hjs j (List.mem_append_left _ h)
    rw [hsi, htj]
    exact hstep _ i _ j (R.inv_run hs has') (R.inv_run ht hcs')
      (his i (List.mem_append_right as List.mem_cons_self))
      (hjs j (List.mem_append_right cs List.mem_cons_self)) hi hj
      (hP as i bs cs j ds rfl rfl (has.trans hcs.symm) hi hj)
      (ih has' hcs' hP.of_append has hcs.symm)

theorem abs_invariant {Q : α → Prop} {P : σ → ι → Prop} {s : σ} (hs : R.inv s)
    (h₀ : Q (R.abs s))
    (hstep : ∀ s i, R.inv s → R.ok i → M.enabled s i = true → P s i → Q (R.abs s) →
      Q (R.next (R.abs s) (R.sample i)))
    {is : List ι} (his : ∀ i ∈ is, R.ok i) (hP : M.AtEdges s is P) : Q (R.abs (M.run s is)) := by
  -- The run next to itself.
  refine R.rel_run (S := fun a _ => Q a) (P := fun t i _ _ => P t i) hs hs h₀ ?_ his his rfl ?_
  · intro t i _ _ ht _ hi _ he _ hp hq
    exact hstep t i ht hi he hp hq
  · intro as i bs _ _ _ he _ _ ha _
    exact hP as i bs he ha

end Refinement

end Clocked
