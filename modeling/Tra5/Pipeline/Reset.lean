/-
Reset.

A reset is one or more clock edges with `sys_rst` high followed by the four with
`sys_rst` low that drain the shift register of `t5_sysc`.  Whatever the state
before it and whatever the other inputs during it, every flop then holds its
reset value and the hart counter is back at hart 0, the state `PostReset`
describes.  The core is enabled by the next edge.
-/
import Tra5.Pipeline.Advance

namespace Tra5

/-- The inputs of a reset: `sys_rst` high at least once, then low for the four
edges that shift it out. -/
structure ResetWave (is : List Input) : Prop where
  exists_pulse : ∃ pulse tail, is = pulse ++ tail ∧ pulse ≠ [] ∧
    (∀ i ∈ pulse, i.sysRst = true) ∧ tail.length = 4 ∧ ∀ i ∈ tail, i.sysRst = false

/-- A state in which reset has just ended. -/
def PostReset (X : DontCare) (c : T5Rv32i) : Prop :=
  ∃ c₀ is, ResetWave is ∧ c = (machine X).run c₀ is

/-- A state reached after a reset with `sys_rst` low since. -/
def Reachable (X : DontCare) (c : T5Rv32i) : Prop :=
  ∃ p is, PostReset X p ∧ (∀ i ∈ is, i.sysRst = false) ∧ c = (machine X).run p is

def T5Inst.reset : T5Inst := { hart := 0#2, dhart := 3#2, fpc := 0#32, iwbAdr := 0#30 }

namespace T5Rv32i

/-! ## One edge of a reset -/

theorem step_of_sysRst (X : DontCare) (c : T5Rv32i) {i : Input} (h : i.sysRst = true) :
    (step X c i).sysc.rst = 0xF#4 ∧ (step X c i).inst.hart = 0#2 ∧
      (step X c i).inst.dhart = 3#2 := by
  simp [step, T5Sysc.step, T5Inst.step, h]

/-- While `srst` is high every module but the hart counter is reset. -/
structure Flushed (c : T5Rv32i) : Prop where
  ena : c.sysc.ena = false
  fpc : c.inst.fpc = 0#32
  iwbAdr : c.inst.iwbAdr = 0#30
  ctrl : c.ctrl = T5Ctrl.reset
  aslu : c.aslu = T5Aslu.reset
  data : c.data = T5Data.reset
  back : c.back = T5Back.reset

theorem flushed_step_of_srst (X : DontCare) {c : T5Rv32i} (h : c.srst = true) (i : Input) :
    Flushed (step X c i) := by
  constructor <;> simp_all [step, T5Sysc.step, T5Inst.step, clocked, srst]

theorem hart_step_of_srst (X : DontCare) {c : T5Rv32i} (h : c.srst = true) {i : Input}
    (hi : i.sysRst = false) :
    (step X c i).inst.hart = T5Inst.whart c.inst.hart ∧
      (step X c i).inst.dhart = ~~~ T5Inst.whart c.inst.hart ∧
      (step X c i).sysc.rst = c.sysc.rst.extractLsb 2 0 ++ 0#1 := by
  simp [step, T5Sysc.step, T5Inst.step, h, hi]

/-- An edge at which the reset shift register drains and the hart counter moves. -/
theorem drain_edge (X : DontCare) {c : T5Rv32i} {v : BitVec 4} {k : BitVec 2}
    (hr : c.sysc.rst = v) (hh : c.inst.hart = k) (hv : v.getLsbD 3 = true) {i : Input}
    (hi : i.sysRst = false) :
    c.srst = true ∧ (step X c i).sysc.rst = v.extractLsb 2 0 ++ 0#1 ∧
      (step X c i).inst.hart = T5Inst.whart k ∧
      (step X c i).inst.dhart = ~~~ T5Inst.whart k := by
  have hsrst : c.srst = true := by rw [srst, T5Sysc.srst, hr, hv]
  obtain ⟨hhart, hdhart, hrst⟩ := hart_step_of_srst X hsrst hi
  rw [hh] at hhart hdhart
  rw [hr] at hrst
  exact ⟨hsrst, hrst, hhart, hdhart⟩

end T5Rv32i

/-! ## A whole reset -/

theorem run_pulse (X : DontCare) {pulse : List Input} (hne : pulse ≠ [])
    (h : ∀ i ∈ pulse, i.sysRst = true) (c : T5Rv32i) :
    ((machine X).run c pulse).sysc.rst = 0xF#4 ∧ ((machine X).run c pulse).inst.hart = 0#2 := by
  -- Only the last edge matters.
  obtain ⟨front, i, rfl⟩ : ∃ front i, pulse = front ++ [i] :=
    ⟨pulse.dropLast, pulse.getLast hne, (List.dropLast_append_getLast hne).symm⟩
  rw [Clocked.Machine.run_append]
  have hs := T5Rv32i.step_of_sysRst X ((machine X).run c front)
    (h i (List.mem_append_right front List.mem_cons_self))
  exact ⟨hs.1, hs.2.1⟩

/-- The four edges after the pulse.  `srst` stays high until the last of them,
and the hart counter goes once around. -/
theorem drain_edges (X : DontCare) {c : T5Rv32i} (hr : c.sysc.rst = 0xF#4)
    (hh : c.inst.hart = 0#2) {i₁ i₂ i₃ i₄ : Input} (h₁ : i₁.sysRst = false)
    (h₂ : i₂.sysRst = false) (h₃ : i₃.sysRst = false) (h₄ : i₄.sysRst = false) :
    let c₁ := T5Rv32i.step X c i₁
    let c₂ := T5Rv32i.step X c₁ i₂
    let c₃ := T5Rv32i.step X c₂ i₃
    let c₄ := T5Rv32i.step X c₃ i₄
    (c.srst = true ∧ c₁.srst = true ∧ c₂.srst = true ∧ c₃.srst = true) ∧
      (c₁.inst.hart = 1#2 ∧ c₂.inst.hart = 3#2 ∧ c₃.inst.hart = 2#2 ∧ c₄.inst.hart = 0#2) ∧
      c₄.inst.dhart = 3#2 ∧ c₄.sysc.rst = 0#4 := by
  intro c₁ c₂ c₃ c₄
  obtain ⟨hs₀, hr₁, hh₁, -⟩ := T5Rv32i.drain_edge X hr hh rfl h₁
  obtain ⟨hs₁, hr₂, hh₂, -⟩ := T5Rv32i.drain_edge X hr₁ hh₁ rfl h₂
  obtain ⟨hs₂, hr₃, hh₃, -⟩ := T5Rv32i.drain_edge X hr₂ hh₂ rfl h₃
  obtain ⟨hs₃, hr₄, hh₄, hd₄⟩ := T5Rv32i.drain_edge X hr₃ hh₃ rfl h₄
  exact ⟨⟨hs₀, hs₁, hs₂, hs₃⟩, ⟨hh₁, hh₂, hh₃, hh₄⟩, hd₄, hr₄⟩

theorem ResetWave.exists_drain {is : List Input} (h : ResetWave is) (X : DontCare)
    (c : T5Rv32i) :
    ∃ d i₁ i₂ i₃ i₄, d.sysc.rst = 0xF#4 ∧ d.inst.hart = 0#2 ∧
      (i₁.sysRst = false ∧ i₂.sysRst = false ∧ i₃.sysRst = false ∧ i₄.sysRst = false) ∧
      (machine X).run c is = T5Rv32i.step X (T5Rv32i.step X (T5Rv32i.step X
        (T5Rv32i.step X d i₁) i₂) i₃) i₄ := by
  obtain ⟨pulse, tail, rfl, hne, hp, hlen, ht⟩ := h
  match tail, hlen, ht with
  | [i₁, i₂, i₃, i₄], _, ht =>
    obtain ⟨hr, hh⟩ := run_pulse X hne hp c
    exact ⟨(machine X).run c pulse, i₁, i₂, i₃, i₄, hr, hh,
      ⟨ht i₁ (by simp), ht i₂ (by simp), ht i₃ (by simp), ht i₄ (by simp)⟩,
      Clocked.Machine.run_append c pulse _⟩

namespace PostReset

variable {X : DontCare} {c : T5Rv32i}

theorem flushed_and_hart (h : PostReset X c) :
    T5Rv32i.Flushed c ∧ c.sysc.rst = 0#4 ∧ c.inst.hart = 0#2 ∧ c.inst.dhart = 3#2 := by
  obtain ⟨c₀, is, hwave, rfl⟩ := h
  obtain ⟨d, i₁, i₂, i₃, i₄, hr, hh, ⟨h₁, h₂, h₃, h₄⟩, hrun⟩ := hwave.exists_drain X c₀
  obtain ⟨⟨-, -, -, hs₃⟩, ⟨-, -, -, hhart⟩, hdhart, hrst⟩ := drain_edges X hr hh h₁ h₂ h₃ h₄
  rw [hrun]
  exact ⟨T5Rv32i.flushed_step_of_srst X hs₃ i₄, hrst, hhart, hdhart⟩

theorem flushed (h : PostReset X c) : T5Rv32i.Flushed c := h.flushed_and_hart.1

theorem rst (h : PostReset X c) : c.sysc.rst = 0#4 := h.flushed_and_hart.2.1

theorem inst (h : PostReset X c) : c.inst = T5Inst.reset := by
  obtain ⟨hf, -, hh, hd⟩ := h.flushed_and_hart
  cases hi : c.inst with
  | mk hart dhart fpc iwbAdr =>
    rw [T5Inst.reset, ← hh, ← hd, ← hf.fpc, ← hf.iwbAdr, hi]

end PostReset

/-! ## A reset from power-up -/

/-- A cycle with the core enabled, the word `w` on the instruction bus and the
data bus idle. -/
def Input.fetch (w : BitVec 32) : Input :=
  { sysRst := false, sysEna := true, iwbDat := w, dwbDti := 0#32, dwbAck := false }

/-- `addi x0, x0, 0` -/
def nop : BitVec 32 := 0x00000013#32

def resetPulse : List Input :=
  { Input.fetch 0#32 with sysRst := true } :: List.replicate 4 (Input.fetch 0#32)

/-- The core after a reset from the state in which every flop and every register
is zero. -/
def coldStart (X : DontCare) : T5Rv32i := (machine X).run default resetPulse

theorem resetWave_resetPulse : ResetWave resetPulse := by
  refine ⟨[_], List.replicate 4 (Input.fetch 0#32), rfl, by simp, ?_, rfl, ?_⟩
  · intro i hi
    rw [List.mem_singleton.mp hi]
  · intro i hi
    rw [List.eq_of_mem_replicate hi]
    rfl

theorem postReset_coldStart (X : DontCare) : PostReset X (coldStart X) :=
  ⟨default, resetPulse, resetWave_resetPulse, rfl⟩

theorem reachable_run_coldStart (X : DontCare) {is : List Input}
    (his : ∀ i ∈ is, i.sysRst = false) : Reachable X ((machine X).run (coldStart X) is) :=
  ⟨coldStart X, is, postReset_coldStart X, his, rfl⟩

theorem Reachable.run {X : DontCare} {c : T5Rv32i} (h : Reachable X c) {is : List Input}
    (his : ∀ i ∈ is, i.sysRst = false) : Reachable X ((machine X).run c is) := by
  obtain ⟨p, js, hp, hjs, rfl⟩ := h
  refine ⟨p, js ++ is, hp, fun i hi => ?_, (Clocked.Machine.run_append p js is).symm⟩
  exact (List.mem_append.mp hi).elim (hjs i) (his i)

theorem Reachable.step {X : DontCare} {c : T5Rv32i} (h : Reachable X c) {i : Input}
    (hi : i.sysRst = false) : Reachable X (c.step X i) := by
  have hlow : ∀ j ∈ [i], j.sysRst = false := by simpa using hi
  exact h.run hlow

theorem PostReset.reachable {X : DontCare} {c : T5Rv32i} (h : PostReset X c) : Reachable X c :=
  ⟨c, [], h, fun _ hi => absurd hi List.not_mem_nil, rfl⟩

end Tra5
