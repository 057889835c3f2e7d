/-
The passage of one instruction through the pipeline.

A hart fetches at every fourth advancing edge.  Its word is decoded at the next
one, with the operands of its own bank, executes at the one after, and at the
fourth its result and its next PC are there, in the cycle in which the counter
is back at the hart.  In between the register file is written by the other three
harts only.

`Pipe.outcome_eq_datapath` is the step from the pipeline registers to `datapath`.
It holds for any word that ends in `11` whose successor in the decode slot does
so too: the PC pipeline is clocked by `rv32` of the word being decoded.
-/
import Tra5.Pipeline.Stall
import Tra5.Datapath.Slot

namespace Tra5

/-! ## The hart counter -/

namespace T5Inst

theorem whart_four (h : BitVec 2) : whart (whart (whart (whart h))) = h := by
  revert h
  decide

theorem whart_two_ne (h : BitVec 2) : h ≠ whart (whart h) := by
  revert h
  decide

theorem whart_three_ne (h : BitVec 2) : h ≠ whart (whart (whart h)) := by
  revert h
  decide

end T5Inst

/-! ## Banks -/

/-- The registers of one hart, in the two copies of the register file. -/
structure Bank where
  rs1 : BitVec 5 → BitVec 32
  rs2 : BitVec 5 → BitVec 32

def Bank.write (b : Bank) (wre : Bool) (rd : BitVec 5) (v : BitVec 32) : Bank :=
  { rs1 := fun r => if wre && r == rd then v else b.rs1 r
    rs2 := fun r => if wre && r == rd then v else b.rs2 r }

namespace T5Gprf

def bank (g : T5Gprf) (h : BitVec 2) : Bank := { rs1 := g.rs1d h, rs2 := g.rs2d h }

theorem bank_step_of_ne {h k : BitVec 2} (hk : k ≠ h) (g : T5Gprf) (wre : Bool) (r : BitVec 5)
    (v : BitVec 32) : (g.step wre h r v).bank k = g.bank k := by
  simp only [bank, Bank.mk.injEq]
  exact ⟨funext (fun q => rs1d_step_of_ne hk g wre r q v),
    funext (fun q => rs2d_step_of_ne hk g wre r q v)⟩

theorem append_beq (h : BitVec 2) (r q : BitVec 5) : (h ++ r == h ++ q) = (r == q) := by
  rw [Bool.eq_iff_iff, beq_iff_eq, beq_iff_eq]
  refine ⟨fun e => ?_, congrArg (h ++ ·)⟩
  have := congrArg (BitVec.extractLsb' 0 5) e
  rwa [BitVec.extractLsb'_append_eq_right, BitVec.extractLsb'_append_eq_right] at this

theorem bank_step_self (g : T5Gprf) (wre : Bool) (h : BitVec 2) (r : BitVec 5) (v : BitVec 32) :
    (g.step wre h r v).bank h = (g.bank h).write wre r v := by
  simp only [bank, Bank.write, Bank.mk.injEq]
  constructor
  · funext q
    rw [rs1d, step, Dpram.step_read, append_beq]
    rfl
  · funext q
    rw [rs2d, step, Dpram.step_read, append_beq]
    rfl

end T5Gprf

namespace Pipe

variable (X : DontCare)

/-! ## One edge -/

def fetchPc (p : Pipe) : BitVec 30 := p.inst.fpc.extractLsb 31 2

def request (p : Pipe) : Request :=
  { adr := p.aslu.xbpc, dto := p.aslu.xdat, sel := p.data.xsel, wre := p.data.xwre
    stb := p.data.xstb.getLsbD 1 }

/-- What the instruction in the execute slot does when it leaves it. -/
def outcome (p : Pipe) (k : Sample) : Outcome :=
  Tra5.outcome X p.aslu.toCsr k.dwbDti p.aslu.toExecute p.data p.ctrl.xpc p.back.xrd

theorem outcome_request (p : Pipe) (k : Sample) : (p.outcome X k).request = p.request := rfl

theorem advance_hart (p : Pipe) (k : Sample) :
    (p.advance X k).inst.hart = T5Inst.whart p.inst.hart := rfl

theorem advance_fhart (p : Pipe) (k : Sample) : (p.advance X k).inst.fhart = p.inst.hart :=
  T5Inst.extractLsb_hart p.inst.iwbAdr p.inst.hart

theorem advance_fetchPc (p : Pipe) (k : Sample) : (p.advance X k).fetchPc = p.inst.iwbAdr :=
  T5Inst.extractLsb_adr p.inst.iwbAdr p.inst.hart

theorem advance_iwbAdr (p : Pipe) (k : Sample) :
    (p.advance X k).inst.iwbAdr = (p.outcome X k).next := rfl

theorem advance_gprf (p : Pipe) (k : Sample) :
    (p.advance X k).gprf = p.gprf.step (p.outcome X k).wre (T5Inst.whart p.inst.hart)
      (p.outcome X k).rd (p.outcome X k).value := rfl

theorem advance_bank_of_ne (p : Pipe) (k : Sample) {h : BitVec 2}
    (hh : h ≠ T5Inst.whart p.inst.hart) : (p.advance X k).gprf.bank h = p.gprf.bank h := by
  rw [advance_gprf, T5Gprf.bank_step_of_ne hh]

theorem advance_ctrl_of_rv32 (p : Pipe) {k : Sample} (h : T5Ctrl.rv32 k.iwbDat = true) :
    (p.advance X k).ctrl =
      { toDecode := T5Ctrl.decode X p.fetchPc k.iwbDat (p.rs1d k.iwbDat) (p.rs2d k.iwbDat)
        mpc := p.ctrl.xpc, xpc := p.ctrl.dpc, dpc := T5Ctrl.npc p.fetchPc
        xepc := p.ctrl.depc, depc := p.fetchPc } := by
  show T5Ctrl.advance X _ _ _ _ p.ctrl = _
  rw [T5Ctrl.advance, if_pos h]
  rfl

/-! ## From the fetch slot to the memory slot -/

/-- What a word does that is in the fetch slot of `p`, two edges later.  The PC
pipeline depends on the word decoded in between. -/
theorem outcome_eq (p : Pipe) {k₁ : Sample} (k₂ k₃ : Sample)
    (h₁ : T5Ctrl.rv32 k₁.iwbDat = true) :
    let q := p.advance X k₁
    let r := q.advance X k₂
    let d := T5Ctrl.decode X p.fetchPc k₁.iwbDat (p.rs1d k₁.iwbDat) (p.rs2d k₁.iwbDat)
    r.outcome X k₃ =
      Tra5.outcome X r.aslu.toCsr k₃.dwbDti (T5Aslu.execute X q.inst.dhart q.aslu.toCsr d)
        (T5Data.advance d) r.ctrl.xpc (k₁.iwbDat.extractLsb 11 7) := by
  intro q r d
  have hq : q.ctrl.toDecode = d := congrArg T5Ctrl.toDecode (advance_ctrl_of_rv32 X p h₁)
  have hx : r.aslu.toExecute = T5Aslu.execute X q.inst.dhart q.aslu.toCsr q.ctrl.toDecode := rfl
  have hm : r.data = T5Data.advance q.ctrl.toDecode := rfl
  have hrd : r.back.xrd = k₁.iwbDat.extractLsb 11 7 := rfl
  rw [outcome, hx, hm, hrd, hq]

theorem outcome_eq_datapath (p : Pipe) {k₁ k₂ : Sample} (k₃ : Sample)
    (h₁ : T5Ctrl.rv32 k₁.iwbDat = true) (h₂ : T5Ctrl.rv32 k₂.iwbDat = true) :
    let q := p.advance X k₁
    let r := q.advance X k₂
    r.outcome X k₃ =
      datapath X
        { dhart := q.inst.dhart, decodeCsr := q.aslu.toCsr, executeCsr := r.aslu.toCsr
          dwbDti := k₃.dwbDti }
        p.fetchPc k₁.iwbDat (p.rs1d k₁.iwbDat) (p.rs2d k₁.iwbDat) := by
  intro q r
  have hr : r.ctrl.xpc = T5Ctrl.npc p.fetchPc := by
    rw [show r.ctrl = _ from advance_ctrl_of_rv32 X q h₂,
      show q.ctrl = _ from advance_ctrl_of_rv32 X p h₁]
  rw [show r.outcome X k₃ = _ from outcome_eq X p k₂ k₃ h₁, hr]
  rfl

end Pipe

/-! ## The slots of the core -/

theorem pipe_run_of_stalls {X : DontCare} {c : T5Rv32i} (hc : T5Rv32i.Running c) {ks : List Input}
    (hks : ∀ k ∈ ks, k.sysRst = false) (hst : (machine X).edges c ks = []) :
    ((machine X).run c ks).pipe = c.pipe := by
  rw [pipe_run hc hks, samples, Clocked.Refinement.samples, hst]
  rfl

theorem pipe_run_one {X : DontCare} {c : T5Rv32i} (hc : T5Rv32i.Running c) {is : List Input}
    (his : ∀ i ∈ is, i.sysRst = false) (h : ((machine X).edges c is).length = 1) :
    ∃ i ∈ is, ((machine X).run c is).pipe = c.pipe.advance X i.sample := by
  obtain ⟨i, hi⟩ := List.length_eq_one_iff.mp h
  refine ⟨i, Clocked.Machine.mem_of_mem_edges (by rw [hi]; exact List.mem_singleton_self i), ?_⟩
  rw [pipe_run hc his, samples, Clocked.Refinement.samples, hi]
  rfl

end Tra5
