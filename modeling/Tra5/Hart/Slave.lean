/-
Any slave on the data bus.

The core asks nothing of the other side of its data bus but an acknowledge, at whatever
time.  Each access of the execute slot completes once and in order as long as no
acknowledge comes while `sys_ena` is low, and an acknowledge without a strobe does no more
than stall.  A slave that lets no request wait for more than a bounded number of cycles
keeps all four harts going.
-/
import Tra5.Pipeline.Bus
import Tra5.Hart.Start

namespace Tra5

variable {X : DontCare} {c : T5Rv32i} {i : Input} {is : List Input}

/-! ## Accesses -/

namespace T5Rv32i

/-- The core strobes only when it is enabled. -/
structure Strobes (c : T5Rv32i) : Prop where
  rst : c.sysc.rst = 0#4
  idle : c.sysc.ena = false → c.dwbStb = false

theorem Strobes.step (X : DontCare) (h : Strobes c) (hi : i.sysRst = false) :
    Strobes (c.step X i) := by
  have hsysc := sysc_step_of_rst X h.rst hi
  exact ⟨by rw [hsysc], fun he => by rw [hsysc] at he; exact Bool.noConfusion he⟩

theorem advancing_of_rst (h : c.sysc.rst = 0#4) (i : Input) :
    c.advancing i = (i.sysEna && c.sysc.ena && !(c.dwbStb != i.dwbAck)) := by
  rw [advancing, srst_of_rst h]
  rfl

/-- A transaction with `sys_ena` high is an edge, and an edge with the strobe high is a
transaction. -/
theorem Strobes.completes (h : Strobes c) (i : Input) :
    (c.dwbStb && i.dwbAck && i.sysEna) = (c.advancing i && c.dwbStb) := by
  have hidle := h.idle
  rw [advancing_of_rst h.rst]
  revert hidle
  cases c.sysc.ena <;> cases c.dwbStb <;> cases i.dwbAck <;> cases i.sysEna <;> simp

end T5Rv32i

theorem PostReset.strobes (hc : PostReset X c) : T5Rv32i.Strobes c := by
  refine ⟨hc.rst, fun _ => ?_⟩
  have hx : c.data.xstb = 0#2 := congrArg T5Data.xstb hc.flushed.data
  rw [T5Rv32i.dwbStb, hx]
  rfl

/-- In every run after reset, whatever the slave does: the accesses that complete with
`sys_ena` high are those of the execute slot at the advancing edges, each once and in
order.  They are all there is exactly if no access completes while `sys_ena` is low. -/
theorem accesses_of_any_slave (X : DontCare) {c : T5Rv32i} (hc : PostReset X c) {is : List Input}
    (his : ∀ i ∈ is, i.sysRst = false) :
    ((dataBus X).trace c is).filter (fun e => e.2.sysEna) =
      ((machine X).trace c is).filter (fun e => e.1.dwbStb) ∧
    ((dataBus X).trace c is = ((machine X).trace c is).filter (fun e => e.1.dwbStb) ↔
      ∀ e ∈ (dataBus X).trace c is, e.2.sysEna = true) := by
  have hfilter : ((dataBus X).trace c is).filter (fun e => e.2.sysEna) =
      ((machine X).trace c is).filter (fun e => e.1.dwbStb) :=
    Clocked.Machine.filter_trace_congr (M := dataBus X) (N := machine X) (p := fun e => e.2.sysEna)
      (q := fun e => e.1.dwbStb) (A := fun i => i.sysRst = false) rfl
      (fun _ _ h hi => h.step X hi) (fun _ i h _ => h.completes i) hc.strobes his
  refine ⟨hfilter, ?_⟩
  rw [← hfilter]
  constructor
  · intro h
    exact List.filter_eq_self.mp h.symm
  · intro h
    exact (List.filter_eq_self.mpr h).symm

/-- `sw x0, 0(x0)` between two words, with an acknowledge that comes too early, a wait state
and a cycle with `sys_ena` low. -/
theorem accesses_of_slow_slave :
    let is := [Input.fetch nop, Input.fetch nop, Input.fetch 0x00002023#32,
      { Input.fetch nop with dwbAck := true }, Input.fetch nop, Input.fetch nop,
      { Input.fetch nop with sysEna := false }, { Input.fetch nop with dwbAck := true }]
    (dataBus default).trace (coldStart default) is =
        ((machine default).trace (coldStart default) is).filter (fun e => e.1.dwbStb) ∧
      ((dataBus default).trace (coldStart default) is).length = 1 := by
  intro is
  have hlow : ∀ i ∈ is, i.sysRst = false := by decide
  have hena : ∀ e ∈ (dataBus default).trace (coldStart default) is, e.2.sysEna = true := by
    decide +kernel
  exact ⟨(accesses_of_any_slave default (postReset_coldStart default) hlow).2.mpr hena,
    by decide +kernel⟩

/-! ## Progress -/

/-- The slave lets no request wait for more than `b` cycles and acknowledges nothing else,
and `sys_ena` is high.  The request at the beginning has waited for `w` cycles. -/
def answersWithin (X : DontCare) (b : Nat) : Nat → T5Rv32i → List Input → Bool
  | _, _, [] => true
  | w, c, i :: is => i.sysEna && (!i.dwbAck || c.dwbStb) &&
      if c.dwbStb && !i.dwbAck then decide (w < b) && answersWithin X b (w + 1) (c.step X i) is
      else answersWithin X b 0 (c.step X i) is

/-- The cycles are bounded by the edges.  By induction on the run: a wait state raises `w`,
and an edge pays for all that have waited before it. -/
theorem length_le_edges {b w : Nat} (hr : c.sysc.rst = 0#4) (he : c.sysc.ena = true)
    (his : ∀ i ∈ is, i.sysRst = false) (hw : w ≤ b) (h : answersWithin X b w c is = true) :
    is.length + w ≤ ((machine X).edges c is).length * (b + 1) + b := by
  induction is generalizing c w with
  | nil =>
    simp only [List.length_nil, Clocked.Machine.edges_nil]
    omega
  | cons i is ih =>
    have hi : i.sysRst = false := his i List.mem_cons_self
    have hrest : ∀ j ∈ is, j.sysRst = false := fun j hj => his j (List.mem_cons_of_mem i hj)
    have hsysc := T5Rv32i.sysc_step_of_rst X hr hi
    have htail {v : Nat} (hv : v ≤ b) (ha : answersWithin X b v (c.step X i) is = true) :=
      ih (by rw [hsysc]) (by rw [hsysc]) hrest hv ha
    rw [answersWithin, Bool.and_eq_true, Bool.and_eq_true] at h
    obtain ⟨⟨hena, hack⟩, hnext⟩ := h
    have hadv := T5Rv32i.advancing_of_rst hr i
    rw [hena, he] at hadv
    by_cases hwait : (c.dwbStb && !i.dwbAck) = true
    · have hstall : (machine X).enabled c i = false := by
        rw [Bool.and_eq_true, Bool.not_eq_true'] at hwait
        show c.advancing i = false
        rw [hadv, hwait.1, hwait.2]
        rfl
      rw [if_pos hwait, Bool.and_eq_true, decide_eq_true_eq] at hnext
      have := htail (Nat.succ_le_of_lt hnext.1) hnext.2
      rw [Clocked.Machine.edges_cons_of_stall hstall, List.length_cons]
      have hstep : (machine X).step c i = c.step X i := rfl
      rw [hstep]
      omega
    · have hedge : (machine X).enabled c i = true := by
        show c.advancing i = true
        rw [hadv]
        revert hwait hack
        cases c.dwbStb <;> cases i.dwbAck <;> simp
      rw [if_neg hwait] at hnext
      have := htail (Nat.zero_le b) hnext
      rw [Clocked.Machine.edges_cons_of_enabled hedge, List.length_cons, List.length_cons,
        Nat.succ_mul]
      have hstep : (machine X).step c i = c.step X i := rfl
      rw [hstep]
      omega

theorem T5Inst.exists_whart_iterate (o h : BitVec 2) : ∃ k < 4, T5Inst.whart^[k] o = h := by
  revert o h
  decide

/-- The harts own the words of a run in the order of the counter. -/
theorem owner_of_edge (hc : PostReset X c) {js : List Input}
    (hjs : ∀ j ∈ js, j.sysRst = false) (his : ∀ i ∈ is, i.sysRst = false) {k : Nat}
    (hk : k < ((machine X).trace ((machine X).run c js) is).length) :
    ∃ e ∈ (machine X).trace ((machine X).run c js) is,
      e.1.owner = T5Inst.whart^[k] ((machine X).run c js).owner := by
  let s := (machine X).run c js
  have hsplit : (machine X).trace s is = ((machine X).trace s is).take k ++
      ((machine X).trace s is)[k] :: ((machine X).trace s is).drop (k + 1) := by
    rw [← List.drop_eq_getElem_cons hk, List.take_append_drop]
  obtain ⟨as, bs, hsplit', htrace, hrun, -, -⟩ := Clocked.Machine.exists_of_trace_eq hsplit
  have has : ∀ a ∈ as, a.sysRst = false := fun a ha =>
    his a (by rw [hsplit']; exact List.mem_append_left _ ha)
  have hlen : ((machine X).edges s as).length = k := by
    rw [← Clocked.Machine.map_snd_trace, htrace, List.length_map, List.length_take]
    exact Nat.min_eq_left (Nat.le_of_lt hk)
  refine ⟨_, List.getElem_mem hk, ?_⟩
  rw [← hrun]
  show ((machine X).run s as).owner = T5Inst.whart^[k] s.owner
  rw [← Clocked.Machine.run_append, owner_run hc (List.forall_mem_append.mpr ⟨hjs, has⟩),
    owner_run hc hjs, Clocked.Machine.edges_append, List.length_append, hlen, Nat.add_comm,
    Function.iterate_add_apply]

/-- Whatever the harts execute and however the slave spends its time: if it lets no request
wait for more than `b` cycles and acknowledges nothing else, `n` edges take `n * (b + 1) + b`
cycles at most, and every hart has a word decoded in any `4 * (b + 1)` cycles. -/
theorem every_hart_with_any_slave (X : DontCare) {c : T5Rv32i} (hc : PostReset X c)
    {js is : List Input} (hjs : ∀ j ∈ js, j.sysRst = false) (hne : js ≠ [])
    (his : ∀ i ∈ is, i.sysRst = false) {b : Nat}
    (h : answersWithin X b 0 ((machine X).run c js) is = true) :
    is.length ≤ ((machine X).edges ((machine X).run c js) is).length * (b + 1) + b ∧
    (4 * (b + 1) ≤ is.length → ∀ h : BitVec 2,
      ∃ e ∈ (machine X).trace ((machine X).run c js) is, e.1.owner = h) := by
  obtain ⟨as, a, rfl⟩ : ∃ as a, js = as ++ [a] :=
    ⟨_, _, (List.dropLast_append_getLast hne).symm⟩
  obtain ⟨has, ha⟩ := List.forall_mem_append.mp hjs
  have hrun : T5Rv32i.Running ((machine X).run c as) := (stallFree X).inv_run hc.running has
  have hsysc : ((machine X).run c (as ++ [a])).sysc = { rst := 0#4, ena := true } := by
    rw [Clocked.Machine.run_append]
    exact T5Rv32i.sysc_step_of_rst X hrun.rst (ha a List.mem_cons_self)
  have hlen := length_le_edges (by rw [hsysc]) (by rw [hsysc]) his (Nat.zero_le b) h
  refine ⟨hlen, fun h4 hart => ?_⟩
  obtain ⟨k, hk, hown⟩ := T5Inst.exists_whart_iterate ((machine X).run c (as ++ [a])).owner hart
  have hedges : 4 ≤ ((machine X).edges ((machine X).run c (as ++ [a])) is).length := by
    by_contra hfew
    have hle := Nat.mul_le_mul_right (b + 1) (Nat.le_of_lt_succ (Nat.not_le.mp hfew))
    omega
  have hfour : k < ((machine X).trace ((machine X).run c (as ++ [a])) is).length := by
    rw [← Clocked.Machine.map_snd_trace, List.length_map] at hedges
    exact Nat.lt_of_lt_of_le hk hedges
  obtain ⟨e, he, howner⟩ := owner_of_edge hc hjs his hfour
  exact ⟨e, he, howner.trans hown⟩

/-- A slave that takes one cycle, and four harts that store. -/
theorem every_hart_with_slave_of_one :
    let i := Input.fetch 0x10002023#32
    let k := { Input.fetch 0x10002023#32 with dwbAck := true }
    let s := (machine default).run (coldStart default) [i, i, i]
    answersWithin default 1 0 s [i, k, i, k, i, k, i, k] = true ∧
      ∃ e ∈ (machine default).trace s [i, k, i, k, i, k, i, k], e.1.owner = 3#2 := by
  intro i k s
  have hans : answersWithin default 1 0 s [i, k, i, k, i, k, i, k] = true := by decide +kernel
  have h := every_hart_with_any_slave default (postReset_coldStart default) (by decide)
    (by decide) (by decide) hans
  exact ⟨hans, h.2 (by decide) 3#2⟩

end Tra5
