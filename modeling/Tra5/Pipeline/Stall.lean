/-
Stalls.

The core refines the stall-free pipeline of `Tra5.Pipeline.Advance`.  The
abstraction `T5Rv32i.pipe` drops `t5_sysc` and performs the pending write-back,
so that a stall, which writes the register file and moves nothing else, does not
change it.
-/
import Tra5.Pipeline.Reset

namespace Tra5

namespace T5Rv32i

/-- The register file once the pending write is applied. -/
def commit (c : T5Rv32i) : T5Gprf := c.gprf.step c.back.mwre c.inst.mhart c.rd0a c.rd0d

def pipe (c : T5Rv32i) : Pipe :=
  { inst := c.inst, ctrl := c.ctrl, aslu := c.aslu, data := c.data, back := c.back
    gprf := c.commit }

/-- The decode slot does not see the pending write: the core is not enabled, or
the two slots belong to different harts, or the write changes nothing. -/
def ReadSafe (c : T5Rv32i) : Prop :=
  c.sysc.ena = false ∨ c.inst.fhart ≠ c.inst.hart ∨ c.commit = c.gprf

/-- Reset has been shifted out and the register file can be read. -/
structure Running (c : T5Rv32i) : Prop where
  rst : c.sysc.rst = 0#4
  readSafe : ReadSafe c

variable {X : DontCare} {c : T5Rv32i} {i : Input}

theorem srst_of_rst (h : c.sysc.rst = 0#4) : c.srst = false := by
  simp [srst, T5Sysc.srst, h]

/-! ## Stalled edges -/

/-- A stalled edge writes the register file and holds every other flop but
`ena`. -/
theorem step_of_stall (X : DontCare) (hr : c.srst = false) (hi : i.sysRst = false)
    (hs : c.sena i = false) :
    step X c i = { c with sysc := c.sysc.step i.sysRst, gprf := c.commit } := by
  simp [step, clocked, T5Inst.step, commit, hr, hi, hs]

theorem sysc_step_of_rst (X : DontCare) (h : c.sysc.rst = 0#4) (hi : i.sysRst = false) :
    (step X c i).sysc = { rst := 0#4, ena := true } := by
  have hs : c.sysc.srst = false := by simp [T5Sysc.srst, h]
  simp only [step, T5Sysc.step, h, hi, hs]
  rfl

theorem commit_step_of_stall (X : DontCare) (hr : c.srst = false) (hi : i.sysRst = false)
    (hs : c.sena i = false) : (step X c i).commit = c.commit := by
  rw [step_of_stall X hr hi hs]
  exact T5Gprf.step_step c.gprf c.back.mwre c.inst.mhart c.rd0a c.rd0d

theorem pipe_step_of_stall (X : DontCare) (hr : c.srst = false) (hi : i.sysRst = false)
    (hs : c.sena i = false) : (step X c i).pipe = c.pipe := by
  have hc := commit_step_of_stall X hr hi hs
  rw [pipe, hc, step_of_stall X hr hi hs]
  rfl

/-! ## Advancing edges -/

theorem ena_of_sena (h : c.sena i = true) : c.sysc.ena = true := by
  simp only [sena, T5Sysc.sena, Bool.and_eq_true] at h
  exact h.1.2

theorem rs1d_eq_of_readSafe (h : ReadSafe c) (he : c.sysc.ena = true) (w : BitVec 32) :
    c.rs1d w = c.pipe.rs1d w := by
  rcases h with h | h | h
  · exact absurd h (by rw [he]; decide)
  · exact (T5Gprf.rs1d_step_of_ne h c.gprf _ _ _ _).symm
  · show c.gprf.rs1d _ _ = c.commit.rs1d _ _
    rw [h]
    rfl

theorem rs2d_eq_of_readSafe (h : ReadSafe c) (he : c.sysc.ena = true) (w : BitVec 32) :
    c.rs2d w = c.pipe.rs2d w := by
  rcases h with h | h | h
  · exact absurd h (by rw [he]; decide)
  · exact (T5Gprf.rs2d_step_of_ne h c.gprf _ _ _ _).symm
  · show c.gprf.rs2d _ _ = c.commit.rs2d _ _
    rw [h]
    rfl

theorem advancing_iff : c.advancing i = true ↔ c.srst = false ∧ c.sena i = true := by
  simp [advancing]

theorem step_of_advancing (X : DontCare) (ha : c.advancing i = true) (hi : i.sysRst = false) :
    step X c i =
      { sysc := c.sysc.step i.sysRst
        inst := c.pipe.advanceInst
        ctrl := c.ctrl.advance X (c.inst.fpc.extractLsb 31 2) i.iwbDat (c.rs1d i.iwbDat)
          (c.rs2d i.iwbDat)
        aslu := c.pipe.advanceAslu X
        data := T5Data.advance c.ctrl.toDecode
        back := c.pipe.advanceBack X i.sample
        gprf := c.commit } := by
  obtain ⟨hr, hs⟩ := advancing_iff.mp ha
  simp only [step, clocked, T5Inst.step, hr, hi, hs, Bool.false_eq_true, if_false, if_true,
    Bool.true_or]
  rfl

theorem pipe_step_of_advancing (X : DontCare) (h : ReadSafe c) (ha : c.advancing i = true)
    (hi : i.sysRst = false) : (step X c i).pipe = c.pipe.advance X i.sample := by
  have he : c.sysc.ena = true := ena_of_sena (advancing_iff.mp ha).2
  rw [step_of_advancing X ha hi, rs1d_eq_of_readSafe h he, rs2d_eq_of_readSafe h he]
  rfl

/-! ## The invariant -/

/-- After an advancing edge the decode slot belongs to the hart that the counter
has just left. -/
theorem fhart_step_of_advancing (X : DontCare) (ha : c.advancing i = true)
    (hi : i.sysRst = false) : (step X c i).inst.fhart = c.inst.hart := by
  rw [step_of_advancing X ha hi]
  exact T5Inst.extractLsb_hart c.inst.iwbAdr c.inst.hart

theorem readSafe_step_of_advancing (X : DontCare) (ha : c.advancing i = true)
    (hi : i.sysRst = false) : ReadSafe (step X c i) := by
  refine Or.inr (Or.inl ?_)
  rw [fhart_step_of_advancing X ha hi, step_of_advancing X ha hi]
  exact T5Inst.whart_ne c.inst.hart

theorem readSafe_step_of_stall (X : DontCare) (hr : c.srst = false) (hi : i.sysRst = false)
    (hs : c.sena i = false) : ReadSafe (step X c i) := by
  refine Or.inr (Or.inr ?_)
  rw [commit_step_of_stall X hr hi hs, step_of_stall X hr hi hs]

theorem Running.step (X : DontCare) (h : Running c) (hi : i.sysRst = false) :
    Running (T5Rv32i.step X c i) := by
  have hr : c.srst = false := srst_of_rst h.rst
  refine ⟨by rw [sysc_step_of_rst X h.rst hi], ?_⟩
  cases hs : c.sena i with
  | false => exact readSafe_step_of_stall X hr hi hs
  | true => exact readSafe_step_of_advancing X (advancing_iff.mpr ⟨hr, hs⟩) hi

end T5Rv32i

theorem PostReset.running {X : DontCare} {c : T5Rv32i} (h : PostReset X c) :
    T5Rv32i.Running c :=
  ⟨h.rst, Or.inl h.flushed.ena⟩

/-- The core refines the stall-free pipeline while `sys_rst` is low. -/
def stallFree (X : DontCare) : Clocked.Refinement (machine X) Pipe Sample where
  inv := T5Rv32i.Running
  ok := fun i => i.sysRst = false
  abs := T5Rv32i.pipe
  sample := Input.sample
  next := Pipe.advance X
  inv_step := fun _ _ h hi => h.step X hi
  abs_enabled := fun _ _ h hi ha => T5Rv32i.pipe_step_of_advancing X h.readSafe ha hi
  abs_stall := fun c i h hi hs => by
    have hr : c.srst = false := T5Rv32i.srst_of_rst h.rst
    refine T5Rv32i.pipe_step_of_stall X hr hi ?_
    have hs : (!c.srst && c.sena i) = false := hs
    rwa [hr, Bool.not_false, Bool.true_and] at hs

def samples (X : DontCare) (c : T5Rv32i) (is : List Input) : List Sample :=
  (stallFree X).samples c is

theorem Reachable.running {X : DontCare} {c : T5Rv32i} (h : Reachable X c) :
    T5Rv32i.Running c := by
  obtain ⟨p, is, hp, his, rfl⟩ := h
  exact (stallFree X).inv_run hp.running his

theorem pipe_run {X : DontCare} {c : T5Rv32i} (h : T5Rv32i.Running c) {is : List Input}
    (his : ∀ i ∈ is, i.sysRst = false) :
    ((machine X).run c is).pipe = c.pipe.run X (samples X c is) :=
  (stallFree X).abs_run h his

/-- Two runs from one state after reset that sample the same instruction words
and load data at their advancing edges reach the same pipeline registers, CSRs
and bus outputs, and the same register file once the pending write is applied.
A cycle that does not advance changes none of them. -/
theorem stall_insensitive (X : DontCare) {c : T5Rv32i} (hc : PostReset X c)
    {is js : List Input} (his : ∀ i ∈ is, i.sysRst = false) (hjs : ∀ j ∈ js, j.sysRst = false)
    (h : ((machine X).edges c is).map Input.sample = ((machine X).edges c js).map Input.sample) :
    let a := (machine X).run c is
    let b := (machine X).run c js
    (a.inst = b.inst ∧ a.ctrl = b.ctrl ∧ a.aslu = b.aslu ∧ a.data = b.data ∧ a.back = b.back ∧
      a.request = b.request ∧ a.commit = b.commit) ∧
    ∀ i : Input, i.sysRst = false → a.srst = false → a.sysc.ena = true → a.sena i = false →
      (a.step X i).inst = a.inst ∧ (a.step X i).ctrl = a.ctrl ∧ (a.step X i).aslu = a.aslu ∧
      (a.step X i).data = a.data ∧ (a.step X i).back = a.back ∧
      (a.step X i).request = a.request := by
  intro a b
  have hpipe : a.pipe = b.pipe := (stallFree X).abs_run_eq_of_samples hc.running his hjs h
  refine ⟨?_, fun i hi hr _ hs => ?_⟩
  · have hx : a.aslu = b.aslu := congrArg Pipe.aslu hpipe
    have hd : a.data = b.data := congrArg Pipe.data hpipe
    refine ⟨congrArg Pipe.inst hpipe, congrArg Pipe.ctrl hpipe, hx, hd,
      congrArg Pipe.back hpipe, ?_, congrArg Pipe.gprf hpipe⟩
    simp only [T5Rv32i.request, T5Rv32i.dwbAdr, T5Rv32i.dwbDto, T5Rv32i.dwbSel,
      T5Rv32i.dwbWre, T5Rv32i.dwbStb, hx, hd]
  · rw [T5Rv32i.step_of_stall X hr hi hs]
    exact ⟨rfl, rfl, rfl, rfl, rfl, rfl⟩

/-- Two edges, without and with a stall between them. -/
theorem stall_insensitive_one_stall :
    let i := Input.fetch 0x00508093#32
    let a := (machine default).run (coldStart default) [i, i, i]
    let b := (machine default).run (coldStart default) [i, i, { i with sysEna := false }, i]
    a.ctrl = b.ctrl ∧ a.commit = b.commit := by
  have hsamples : ((machine default).edges (coldStart default) (List.replicate 3
      (Input.fetch 0x00508093#32))).map Input.sample =
      ((machine default).edges (coldStart default) [Input.fetch 0x00508093#32,
        Input.fetch 0x00508093#32, { Input.fetch 0x00508093#32 with sysEna := false },
        Input.fetch 0x00508093#32]).map Input.sample := by decide +kernel
  have h := stall_insensitive default (postReset_coldStart default) (by decide) (by decide) hsamples
  exact ⟨h.1.2.1, h.1.2.2.2.2.2.2⟩

end Tra5
