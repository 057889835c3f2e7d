/-
The pipeline without its stalls.

`Pipe` is the core without `t5_sysc` and with the pending write-back already in
the register file.  `Pipe.advance` is one advancing edge.  `stallFree` is the
refinement of the core by this machine: a stall leaves the abstraction alone,
because the only thing it does is to perform a write that the abstraction has
performed already.

The one place where the early write could be seen is the decode slot, which
reads the register file while a stall may have written it.  `ReadSafe` excludes
this: the decode slot reads the bank of a hart other than the one in the memory
slot, or the pending write changes nothing, or the core is not enabled yet.
-/
import Tra5.Rtl.Core
import Tra5.Clocked.Machine

namespace Tra5

def machine (X : DontCare) : Clocked.Machine T5Rv32i Input where
  step := T5Rv32i.step X
  enabled := T5Rv32i.advancing

structure Sample where
  iwbDat : BitVec 32
  dwbDti : BitVec 32
  deriving DecidableEq, Repr, Inhabited

def Input.sample (i : Input) : Sample := { iwbDat := i.iwbDat, dwbDti := i.dwbDti }

/-- The pipeline registers, the CSRs and the register file after write-back. -/
structure Pipe where
  inst : T5Inst
  ctrl : T5Ctrl
  aslu : T5Aslu
  data : T5Data
  back : T5Back
  gprf : T5Gprf

namespace Pipe

def rs1d (p : Pipe) (ireg : BitVec 32) : BitVec 32 :=
  p.gprf.rs1d p.inst.fhart (T5Ctrl.rs1a ireg)

def rs2d (p : Pipe) (ireg : BitVec 32) : BitVec 32 :=
  p.gprf.rs2d p.inst.fhart (T5Ctrl.rs2a ireg)

def nextAdr (p : Pipe) : BitVec 30 :=
  T5Inst.nextAdr p.aslu.xbra p.data.xstb p.aslu.mtvec p.aslu.mepc p.aslu.xbpc p.ctrl.xpc

def advanceInst (p : Pipe) : T5Inst :=
  { hart := T5Inst.whart p.inst.hart
    dhart := ~~~ T5Inst.whart p.inst.hart
    fpc := p.inst.iwbAdr ++ p.inst.hart
    iwbAdr := p.nextAdr }

def advanceCtrl (X : DontCare) (p : Pipe) (k : Sample) : T5Ctrl :=
  p.ctrl.advance X (p.inst.fpc.extractLsb 31 2) k.iwbDat (p.rs1d k.iwbDat) (p.rs2d k.iwbDat)

def advanceAslu (X : DontCare) (p : Pipe) : T5Aslu :=
  p.aslu.advance X p.inst.dhart p.data p.ctrl

def advanceBack (X : DontCare) (p : Pipe) (k : Sample) : T5Back :=
  p.back.advance X (k.iwbDat.extractLsb 11 7) p.aslu.xopc p.aslu.xfn3 p.data k.dwbDti

def advanceRd0d (X : DontCare) (p : Pipe) (k : Sample) : BitVec 32 :=
  T5Back.dmux (p.advanceBack X k).mopc (p.advanceBack X k).dext (p.advanceAslu X).malu

/-- One advancing edge, followed by the write-back of the slot that reaches the
memory stage. -/
def advance (X : DontCare) (p : Pipe) (k : Sample) : Pipe :=
  { inst := p.advanceInst
    ctrl := p.advanceCtrl X k
    aslu := p.advanceAslu X
    data := T5Data.advance p.ctrl.toDecode
    back := p.advanceBack X k
    gprf := p.gprf.step (p.advanceBack X k).mwre (T5Inst.whart p.inst.hart)
      (p.advanceBack X k).mrd (p.advanceRd0d X k) }

def run (X : DontCare) (p : Pipe) (ks : List Sample) : Pipe := ks.foldl (advance X) p

@[simp] theorem run_nil (X : DontCare) (p : Pipe) : run X p [] = p := rfl

@[simp] theorem run_cons (X : DontCare) (p : Pipe) (k : Sample) (ks : List Sample) :
    run X p (k :: ks) = run X (p.advance X k) ks := rfl

theorem run_append (X : DontCare) (p : Pipe) (ks ls : List Sample) :
    run X p (ks ++ ls) = run X (run X p ks) ls :=
  List.foldl_append

end Pipe

/-! ## The register file port -/

namespace Dpram

variable {aw dw : Nat}

theorem step_read (ram : Dpram aw dw) (wre : Bool) (adr x : BitVec aw) (dat : BitVec dw) :
    (ram.step wre adr dat).read x = if wre && x == adr then dat else ram.read x := rfl

theorem step_step (ram : Dpram aw dw) (wre : Bool) (adr : BitVec aw) (dat : BitVec dw) :
    (ram.step wre adr dat).step wre adr dat = ram.step wre adr dat := by
  funext x
  cases h : wre && x == adr <;> simp only [step, h, if_true, if_false, Bool.false_eq_true]

theorem step_read_of_ne {adr x : BitVec aw} (h : x ≠ adr) (ram : Dpram aw dw) (wre : Bool)
    (dat : BitVec dw) : (ram.step wre adr dat).read x = ram.read x := by
  rw [step_read, beq_false_of_ne h, Bool.and_false, if_neg Bool.false_ne_true]

end Dpram

namespace T5Gprf

theorem step_step (g : T5Gprf) (wre : Bool) (h : BitVec 2) (r : BitVec 5) (v : BitVec 32) :
    (g.step wre h r v).step wre h r v = g.step wre h r v := by
  simp only [step, Dpram.step_step]

theorem append_ne_of_hart_ne {h k : BitVec 2} (hk : h ≠ k) (r q : BitVec 5) :
    h ++ r ≠ k ++ q := by
  intro e
  have := congrArg (BitVec.extractLsb' 5 2) e
  rw [BitVec.extractLsb'_append_eq_left, BitVec.extractLsb'_append_eq_left] at this
  exact hk this

theorem rs1d_step_of_ne {h k : BitVec 2} (hk : k ≠ h) (g : T5Gprf) (wre : Bool)
    (r q : BitVec 5) (v : BitVec 32) : (g.step wre h r v).rs1d k q = g.rs1d k q := by
  rw [rs1d, step, Dpram.step_read_of_ne (append_ne_of_hart_ne hk q r)]
  rfl

theorem rs2d_step_of_ne {h k : BitVec 2} (hk : k ≠ h) (g : T5Gprf) (wre : Bool)
    (r q : BitVec 5) (v : BitVec 32) : (g.step wre h r v).rs2d k q = g.rs2d k q := by
  rw [rs2d, step, Dpram.step_read_of_ne (append_ne_of_hart_ne hk q r)]
  rfl

end T5Gprf

namespace T5Inst

theorem whart_ne (h : BitVec 2) : h ≠ whart h := by
  revert h
  decide

theorem extractLsb_hart (a : BitVec 30) (h : BitVec 2) :
    (a ++ h).extractLsb 1 0 = h := by
  rw [BitVec.extractLsb, BitVec.extractLsb'_append_eq_right]

theorem extractLsb_adr (a : BitVec 30) (h : BitVec 2) :
    (a ++ h).extractLsb 31 2 = a := by
  rw [BitVec.extractLsb, BitVec.extractLsb'_append_eq_left]

end T5Inst

end Tra5
