/-
The variables `iadr` and `dadr` when the loop is entered.

The source does not initialise them, and the core does not strobe the buses until reset has
ended.  In the rounds before that the loop takes `iadr` as it is: if it fails the test
`iadr << 2 < buf.size()` the simulation ends before the core has done anything, and otherwise
the loop reads `ram[iadr]`, and `ram[dadr]` if that passes the test too.  The shift drops the
upper two bits, so an index that passes need not be in the array.  This is the only way in
which the loop can leave the array: the indices that it takes from the core have 29 bits.
-/
import Tra5.System.Boot
import Tra5.Sim.Log

namespace Tra5

theorem World.cerr_ticks (n : Nat) (w : World) : (World.tick^[n] w).cerr = w.cerr := by
  induction n generalizing w with
  | zero => rfl
  | succ n ih => exact ih w.tick

namespace T5Sim

variable {X : DontCare} {s₀ s t : T5Sim}

/-! ## The rounds with `sys_rst` high -/

theorem exists_round_of_reset (X : DontCare) (hr : s.sysRst = true) (hc : s.cnt < 8388608#32) :
    ∃ t, s.round X = .ok t := by
  rw [round, if_pos hc, if_pos hr]
  exact ⟨_, rfl⟩

theorem Held.exists_steps (X : DontCare) {k n : Nat} (h : Held s₀ k s) (hk : k + n ≤ 5) :
    ∃ t, Loop.steps (T5Sim.round X) n s = some t := by
  induction n generalizing s k with
  | zero => exact ⟨s, rfl⟩
  | succ n ih =>
    have hr : s.sysRst = true := h.sysRst.trans (decide_eq_true (by omega))
    have hc : s.cnt < 8388608#32 := by
      rw [h.cnt, BitVec.lt_def, BitVec.toNat_ofNat, Nat.mod_eq_of_lt (by omega)]
      show 10 * k + 10 < 8388608
      omega
    obtain ⟨u, hu⟩ := exists_round_of_reset X hr hc
    obtain ⟨t, ht⟩ := ih (h.round (by omega) hu) (by omega)
    exact ⟨t, Loop.steps_succ.mpr ⟨u, hu, ht⟩⟩

/-! ## The rounds in which it is shifted out -/

/-- The core is held in reset, and the loop has left everything but the time alone. -/
structure Waiting (s₀ : T5Sim) (v : BitVec 4) (n : Nat) (s : T5Sim) : Prop where
  draining : Draining s₀ v s
  idle : Idle s₀ n s
  bound : n < 9

theorem Waiting.fetchIndex {v : BitVec 4} {n : Nat} (h : Waiting s₀ v n s) :
    s.fetchIndex = s₀.iadr := by
  rw [T5Sim.fetchIndex, T5Rv32i.iwbStb, T5Rv32i.sena, T5Sysc.sena, h.draining.flushed.ena,
    Bool.and_false, Bool.false_and, if_neg Bool.false_ne_true, h.idle.iadr]

theorem Waiting.cnt_lt {v : BitVec 4} {n : Nat} (h : Waiting s₀ v n s) : s.cnt < 8388608#32 :=
  h.idle.cnt_lt (Nat.lt_trans h.bound (by decide))

theorem Waiting.goesOn {v : BitVec 4} {n : Nat} (h : Waiting s₀ v n s) :
    s.goesOn = inBuf s₀.iadr := by
  have hends : s.testEnds = false :=
    testEnds_of_not_completes (completes_of_idle (dwbStb_of_flushed h.draining.flushed))
  rw [T5Sim.goesOn, decide_eq_true h.cnt_lt, h.fetchIndex, hends, Bool.not_false, Bool.and_true,
    Bool.true_and]

theorem Waiting.next {v : BitVec 4} {n : Nat} (h : Waiting s₀ v n s) (hv : v.getLsbD 3 = true)
    (hin : inBuf s₀.iadr = true) :
    ∃ t, s.round X = .ok t ∧ Draining s₀ (v.extractLsb 2 0 ++ 0#1) t ∧ Idle s₀ (n + 1) t := by
  obtain ⟨t, ht, -⟩ := T5Sim.exists_round X h.draining.sysRst (h.goesOn.trans hin)
  obtain ⟨hdrain, hidle, -⟩ := h.draining.idle hv h.idle ht
  exact ⟨t, ht, hdrain, hidle⟩

/-- The line of the error is the only one, since no branch is in the core. -/
theorem Waiting.error {v : BitVec 4} {n : Nat} (h : Waiting s₀ v n s)
    (hout : inBuf s₀.iadr = false) :
    ∃ t, s.round X = .error t ∧ t.cout = s.cout ++ [.errIadr s₀.iadr] ∧ t.world = s.world := by
  have hindex : s.fetch.printPc.iadr = s₀.iadr := by
    rw [(s.fetch.printPc_fields).2.2.1, (s.fetch_fields).2.2.1, h.fetchIndex]
  have hworld : s.fetch.printPc.world = s.world := by
    rw [(s.fetch.printPc_fields).2.2.2.2.2, (s.fetch_fields).2.2.2.2.2]
  have hpc : s.pcLine = none := by
    rw [pcLine, h.draining.flushed.aslu]
    rfl
  refine ⟨s.fetch.printPc.print (.errIadr s.fetch.printPc.iadr), ?_, ?_, hworld⟩
  · rw [round, if_pos h.cnt_lt, h.draining.sysRst, if_neg Bool.false_ne_true, respond, hindex, hout]
    rfl
  · show s.fetch.printPc.cout ++ [.errIadr s.fetch.printPc.iadr] = _
    rw [cout_look, hpc, hindex, Option.toList_none, List.append_nil]

theorem AtEntry.waiting (h : s₀.AtEntry) (X : DontCare) :
    ∃ s, Loop.steps (T5Sim.round X) 5 s₀ = some s ∧ Waiting s₀ 0xF#4 5 s ∧ s.cout = s₀.cout := by
  obtain ⟨s, hs⟩ := h.held.exists_steps X (show 0 + 5 ≤ 5 by decide)
  obtain ⟨hheld, -⟩ := h.held.steps (by decide) hs
  exact ⟨s, hs, ⟨hheld.draining, h.held.idle h.idle (by decide) hs, by decide⟩, hheld.cout⟩

/-! ## The indices of a round -/

/-- The indices at which the round reads or writes `ram[..]`: that of a store, which is read
and written, that of the word for the instruction bus and that of the word for `dwb_dti`. -/
def indexed (s : T5Sim) : List (BitVec 32) :=
  if s.cnt < 8388608#32 then
    match s.sysRst, s.respond with
    | false, .ok u =>
      (if s.completes && inBuf (index s.cpu.dwbAdr) then [index s.cpu.dwbAdr] else []) ++
        u.iadr :: if inBuf u.dadr then [u.dadr] else []
    | _, _ => []
  else []

/-- The index is in the array if it passes the test. -/
def Fits (k : BitVec 32) : Prop := inBuf k = true → k.toNat < 2 ^ 18

theorem fits_index (adr : BitVec 30) : Fits (index adr) := lt_of_inBuf

theorem indexed_of_reset (hr : s.sysRst = true) : s.indexed = [] := by
  rw [indexed, hr]
  exact ite_self _

theorem indexed_of_error (hr : s.sysRst = false) (h : s.round X = .error t) : s.indexed = [] := by
  rw [round, hr, if_neg Bool.false_ne_true] at h
  rw [indexed, hr]
  by_cases hc : s.cnt < 8388608#32
  · rw [if_pos hc] at h ⊢
    cases hu : s.respond with
    | ok u =>
      rw [hu] at h
      cases h
    | error u => rfl
  · exact if_neg hc

theorem indexed_of_ok (hr : s.sysRst = false) (h : s.round X = .ok t) :
    s.indexed =
      (if s.completes && inBuf (index s.cpu.dwbAdr) then [index s.cpu.dwbAdr] else []) ++
        t.iadr :: if inBuf t.dadr then [t.dadr] else [] := by
  have hc : s.cnt < 8388608#32 := by
    by_contra hc
    rw [round, if_neg hc] at h
    cases h
  obtain ⟨u, hu, rfl⟩ := respond_of_round hr h
  rw [indexed, if_pos hc, hr, hu]
  rfl

/-- A round keeps the two variables as they are or takes them from the core. -/
theorem fits_of_round (hi : Fits s.iadr) (hd : Fits s.dadr) (h : s.round X = .ok t) :
    Fits t.iadr ∧ Fits t.dadr := by
  cases hr : s.sysRst with
  | true =>
    rw [clock_of_reset hr h]
    exact ⟨hi, hd⟩
  | false =>
    obtain ⟨ho, -⟩ := onward_of_round hr h
    rw [ho.iadr, ho.dadr, T5Sim.fetchIndex]
    constructor
    · split
      · exact fits_index _
      · exact hi
    · split
      · exact fits_index _
      · exact hd

theorem indexed_lt (hi : Fits s.iadr) (hd : Fits s.dadr) (hr : s.sysRst = false)
    (h : s.round X = .ok t) {k : BitVec 32} (hk : k ∈ s.indexed) : k.toNat < 2 ^ 18 := by
  obtain ⟨hi', hd'⟩ := fits_of_round hi hd h
  obtain ⟨ho, hgoes⟩ := onward_of_round hr h
  rw [T5Sim.goesOn, Bool.and_eq_true, Bool.and_eq_true] at hgoes
  rw [indexed_of_ok hr h, List.mem_append, List.mem_cons] at hk
  rcases hk with hk | rfl | hk
  · split at hk
    next hstore =>
      rw [List.mem_singleton.mp hk]
      exact fits_index _ (Bool.and_eq_true_iff.mp hstore).2
    next => exact absurd hk List.not_mem_nil
  · exact hi' (by rw [ho.iadr]; exact hgoes.1.2)
  · split at hk
    next hbuf =>
      rw [List.mem_singleton.mp hk]
      exact hd' hbuf
    next => exact absurd hk List.not_mem_nil

/-- If the variables fit when the loop is entered, the loop stays in the array. -/
theorem steps_indexed_lt {n : Nat} (hi : Fits s₀.iadr) (hd : Fits s₀.dadr)
    (h : Loop.steps (T5Sim.round X) n s₀ = some s) : ∀ k ∈ s.indexed, k.toNat < 2 ^ 18 := by
  induction n generalizing s₀ with
  | zero =>
    cases h
    intro k hk
    cases hr : s.sysRst with
    | true =>
      rw [indexed_of_reset hr] at hk
      exact absurd hk List.not_mem_nil
    | false =>
      cases ht : s.round X with
      | ok t => exact indexed_lt hi hd hr ht hk
      | error t =>
        rw [indexed_of_error hr ht] at hk
        exact absurd hk List.not_mem_nil
  | succ n ih =>
    obtain ⟨t, ht, hrest⟩ := Loop.steps_succ.mp h
    obtain ⟨hi', hd'⟩ := fits_of_round hi hd ht
    exact ih hi' hd' hrest

/-- The sixth round is the first to use the array, with the variables as they were. -/
theorem Waiting.indexed {v : BitVec 4} {n : Nat} (h : Waiting s₀ v n s)
    (hin : inBuf s₀.iadr = true) (X : DontCare) :
    s.indexed = s₀.iadr :: if inBuf s₀.dadr then [s₀.dadr] else [] := by
  obtain ⟨t, ht, ho⟩ := T5Sim.exists_round X h.draining.sysRst (h.goesOn.trans hin)
  have hstb := dwbStb_of_flushed h.draining.flushed
  rw [indexed_of_ok h.draining.sysRst ht, ho.iadr, h.fetchIndex, ho.dadr, hstb,
    if_neg Bool.false_ne_true, h.idle.dadr, completes_of_idle hstb, Bool.false_and,
    if_neg Bool.false_ne_true, List.nil_append]

theorem Held.indexed_of_steps {k n : Nat} (h : Held s₀ k s) (hk : k + n < 5)
    (hn : Loop.steps (T5Sim.round X) n s = some t) : t.indexed = [] :=
  indexed_of_reset ((h.steps (by omega) hn).1.sysRst.trans (decide_eq_true hk))

/-- Without a passing `iadr` the loop uses no index at all. -/
theorem AtEntry.indexed_of_fails (h : s₀.AtEntry) (hout : inBuf s₀.iadr = false) {n : Nat}
    (hn : Loop.steps (T5Sim.round X) n s₀ = some s) : s.indexed = [] := by
  obtain ⟨w, hw, hwait, -⟩ := h.waiting X
  obtain ⟨t, ht, -⟩ := hwait.error (X := X) hout
  by_cases hlt : n < 5
  · exact h.held.indexed_of_steps (by omega) hn
  · obtain ⟨m, rfl⟩ := Nat.exists_eq_add_of_le (Nat.le_of_not_lt hlt)
    obtain ⟨w', hw', hrest⟩ := Loop.steps_add.mp hn
    obtain rfl : w = w' := Option.some.inj (hw.symm.trans hw')
    cases m with
    | zero =>
      cases hrest
      exact indexed_of_error hwait.draining.sysRst ht
    | succ m =>
      obtain ⟨u, hu, -⟩ := Loop.steps_succ.mp hrest
      rw [ht] at hu
      cases hu

theorem AtEntry.boots (h : s₀.AtEntry) (hin : inBuf s₀.iadr = true) (X : DontCare) :
    ∃ b, Boots X s₀ b ∧ b.iwbDat = s₀.ram.word s₀.iadr := by
  obtain ⟨s, hs, hwait, -⟩ := h.waiting X
  obtain ⟨s₆, h₆, d₆, i₆⟩ := hwait.next (X := X) rfl hin
  obtain ⟨s₇, h₇, d₇, i₇⟩ := Waiting.next (X := X) ⟨d₆, i₆, by decide⟩ rfl hin
  obtain ⟨s₈, h₈, d₈, i₈⟩ := Waiting.next (X := X) ⟨d₇, i₇, by decide⟩ rfl hin
  obtain ⟨s₉, h₉, -, -⟩ := Waiting.next (X := X) ⟨d₈, i₈, by decide⟩ rfl hin
  have hrest : Loop.steps (T5Sim.round X) 4 s = some s₉ := by
    rw [Loop.steps_succ_of_ok h₆, Loop.steps_succ_of_ok h₇, Loop.steps_succ_of_ok h₈,
      Loop.steps_succ_of_ok h₉]
    rfl
  have hboots : Boots X s₀ s₉ := ⟨h, Loop.steps_add.mpr ⟨s, hs, hrest⟩⟩
  obtain ⟨hidle, hdat⟩ := hboots.idle
  exact ⟨s₉, hboots, by rw [hdat, hidle.iadr, hboots.fields.2.2.2.1]⟩

/-- What becomes of the variables that are not initialised.  The loop stays in the array
exactly if `iadr` fails the test, or both are in the array as far as they pass it.  With `iadr`
in the array the core comes out of reset and finds the word there, and with `iadr` failing the
test the simulation ends with one line and has done nothing. -/
theorem array_safe_iff (X : DontCare) (h : s₀.AtEntry) :
    ((∀ n s, Loop.steps (T5Sim.round X) n s₀ = some s → ∀ k ∈ s.indexed, k.toNat < 2 ^ 18) ↔
      (inBuf s₀.iadr = true → Fits s₀.iadr ∧ Fits s₀.dadr)) ∧
    (s₀.iadr.toNat < 2 ^ 18 → Fits s₀.dadr →
      ∃ b, Boots X s₀ b ∧ b.iwbDat = s₀.ram.word s₀.iadr) ∧
    (inBuf s₀.iadr = false → ∃ t, Loop.Exits (T5Sim.round X) s₀ t ∧
      t.cout = s₀.cout ++ [.errIadr s₀.iadr] ∧ t.ram = s₀.ram ∧ t.cerr = s₀.cerr) := by
  obtain ⟨w, hw, hwait, hcout⟩ := h.waiting X
  refine ⟨⟨fun hsafe hin => ?_, fun hfits n s hn => ?_⟩, fun hlt _ => ?_, fun hout => ?_⟩
  · have hsixth := hsafe 5 w hw
    rw [hwait.indexed hin X] at hsixth
    refine ⟨fun _ => hsixth _ List.mem_cons_self, fun hd => hsixth _ ?_⟩
    rw [if_pos hd]
    exact List.mem_cons_of_mem _ List.mem_cons_self
  · cases hin : inBuf s₀.iadr with
    | true => exact steps_indexed_lt (hfits hin).1 (hfits hin).2 hn
    | false =>
      rw [h.indexed_of_fails hin hn]
      exact fun k hk => absurd hk List.not_mem_nil
  · exact h.boots (inBuf_of_lt hlt) X
  · obtain ⟨t, ht, htext, hworld⟩ := hwait.error (X := X) hout
    refine ⟨t, (Loop.exits_of_error ht).of_steps hw, by rw [htext, hcout], ?_, ?_⟩
    · exact (congrArg World.ram hworld).trans hwait.draining.ram
    · exact (congrArg World.cerr (hworld.trans hwait.idle.world)).trans (World.cerr_ticks 5 _)

/-- `iadr` at 0, just behind the array, and at an index that passes the test only because the
shift drops its upper bits. -/
theorem array_safe_at_three_indices :
    let start (k : BitVec 32) := { entered (fun _ => 0x00000013#32) with iadr := k }
    (∃ b, Boots default (start 0#32) b ∧ b.iwbDat = 0x00000013#32) ∧
    (∃ t, Loop.Exits (round default) (start 0x40000#32) t ∧ t.cout = [.errIadr 0x40000#32]) ∧
    ¬ ∀ n s, Loop.steps (round default) n (start 0x40000000#32) = some s →
      ∀ k ∈ s.indexed, k.toNat < 2 ^ 18 := by
  intro start
  have hentry (k : BitVec 32) : (start k).AtEntry := ⟨rfl, rfl⟩
  refine ⟨?_, ?_, fun hsafe => ?_⟩
  · exact (array_safe_iff default (hentry 0#32)).2.1 (by decide) (fun _ => by decide)
  · obtain ⟨t, ht, hcout, -⟩ := (array_safe_iff default (hentry 0x40000#32)).2.2 (by decide)
    exact ⟨t, ht, hcout⟩
  · have hfits := (array_safe_iff default (hentry 0x40000000#32)).1.mp hsafe (by decide)
    exact absurd (hfits.1 (by decide)) (by decide)

end T5Sim

end Tra5
