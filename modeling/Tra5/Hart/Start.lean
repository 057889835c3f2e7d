/-
The first instructions of the harts after a reset.

A reset empties the decode and execute slots but not the fetch slot.  At the
first advancing edge the core therefore decodes whatever is on the instruction
bus, although nothing has been fetched yet, and three edges later the result and
the next PC of that word belong to hart 2.  The other three harts start from the
words they fetch at address 0.
-/
import Tra5.Pipeline.Slots

namespace Tra5

variable {X : DontCare}

/-! ## The pipeline in its first cycles -/

/-- Every pipeline register holds its reset value. -/
structure Pipe.AtReset (p : Pipe) : Prop where
  inst : p.inst = T5Inst.reset
  ctrl : p.ctrl = T5Ctrl.reset
  aslu : p.aslu = T5Aslu.reset
  data : p.data = T5Data.reset
  back : p.back = T5Back.reset

theorem PostReset.atReset {c : T5Rv32i} (h : PostReset X c) : c.pipe.AtReset :=
  ⟨h.inst, h.flushed.ctrl, h.flushed.aslu, h.flushed.data, h.flushed.back⟩

theorem T5Gprf.step_of_not_wre (g : T5Gprf) (h : BitVec 2) (r : BitVec 5) (v : BitVec 32) :
    g.step false h r v = g := rfl

theorem writes_of_zero (xstb : BitVec 2) (xopc : BitVec 5) :
    T5Back.writes xstb 0#5 xopc = false := by
  rw [T5Back.writes, show orR 0#5 = false from rfl, Bool.and_false, Bool.false_and, Bool.false_and]

namespace Pipe

theorem run_hart (X : DontCare) (p : Pipe) (ks : List Sample) :
    (p.run X ks).inst.hart = T5Inst.whart^[ks.length] p.inst.hart := by
  induction ks generalizing p with
  | nil => rfl
  | cons k ks ih =>
    rw [run_cons, ih, advance_hart, List.length_cons, Function.iterate_succ_apply]

theorem advance_gprf_of_zero (X : DontCare) {p : Pipe} (h : p.back.xrd = 0#5) (k : Sample) :
    (p.advance X k).gprf = p.gprf := by
  have hw : (p.outcome X k).wre = false := by
    show T5Back.writes p.data.xstb p.back.xrd p.aslu.xopc = false
    rw [h, writes_of_zero]
  rw [advance_gprf, hw, T5Gprf.step_of_not_wre]

/-- The registers that a word which does not end in `11` leaves alone. -/
theorem advance_ctrl_of_not_rv32 (X : DontCare) (p : Pipe) {k : Sample}
    (h : T5Ctrl.rv32 k.iwbDat = false) :
    let c := (p.advance X k).ctrl
    c.dopc = p.ctrl.dopc ∧ c.dcp1 = p.ctrl.dcp1 ∧ c.dcp2 = p.ctrl.dcp2 ∧ c.dpc = p.ctrl.dpc ∧
      c.xpc = p.ctrl.xpc ∧ c.dexc = T5Ctrl.etype (T5Ctrl.opc k.iwbDat) k.iwbDat := by
  intro c
  have hc : c = T5Ctrl.advance X (p.inst.fpc.extractLsb 31 2) k.iwbDat (p.rs1d k.iwbDat)
    (p.rs2d k.iwbDat) p.ctrl := rfl
  rw [hc, T5Ctrl.advance, if_neg (by rw [h]; exact Bool.false_ne_true)]
  exact ⟨rfl, rfl, rfl, rfl, rfl, rfl⟩

/-- The decode slot holds the `lui` of the reset, except perhaps for its flags,
and the PC pipeline and `mtvec` are at zero. -/
structure Bubble (p : Pipe) : Prop where
  dopc : p.ctrl.dopc = 0x0D#5
  dcp1 : p.ctrl.dcp1 = 0#32
  dcp2 : p.ctrl.dcp2 = 0#32
  dpc : p.ctrl.dpc = 0#30
  xpc : p.ctrl.xpc = 0#30
  mtvec : p.aslu.mtvec = 0#32

theorem AtReset.bubble {p : Pipe} (h : p.AtReset) : p.Bubble := by
  constructor <;> simp only [h.ctrl, h.aslu] <;> rfl

namespace Bubble

variable {p : Pipe}

theorem xpc_advance (h : p.Bubble) (k : Sample) : (p.advance X k).ctrl.xpc = 0#30 := by
  cases hk : T5Ctrl.rv32 k.iwbDat with
  | true =>
    rw [p.advance_ctrl_of_rv32 X hk]
    exact h.dpc
  | false =>
    rw [(p.advance_ctrl_of_not_rv32 X hk).2.2.2.2.1]
    exact h.xpc

theorem mtvec_advance (h : p.Bubble) (k : Sample) : (p.advance X k).aslu.mtvec = 0#32 := by
  have hw : T5Aslu.wenable p.ctrl.toDecode T5Aslu.csrMtvec = false := by
    rw [T5Aslu.wenable, T5Aslu.csrNum, h.dcp2]
    rfl
  show (if T5Aslu.wenable p.ctrl.toDecode T5Aslu.csrMtvec then _ else p.aslu.mtvec) = 0#32
  rw [hw, if_neg Bool.false_ne_true, h.mtvec]

theorem advance (h : p.Bubble) {k : Sample} (hk : T5Ctrl.rv32 k.iwbDat = false) :
    (p.advance X k).Bubble := by
  obtain ⟨hopc, hcp1, hcp2, hdpc, hxpc, -⟩ := p.advance_ctrl_of_not_rv32 X hk
  exact ⟨hopc.trans h.dopc, hcp1.trans h.dcp1, hcp2.trans h.dcp2, hdpc.trans h.dpc,
    hxpc.trans h.xpc, h.mtvec_advance k⟩

theorem xbraNext (h : p.Bubble) :
    T5Aslu.xbraNext p.ctrl.toDecode = BitVec.ofBool p.ctrl.dexc ++ BitVec.ofBool p.ctrl.dexc := by
  have hadr : T5Aslu.xadr p.ctrl.toDecode = 0#32 := by
    rw [T5Aslu.xadr, h.dcp1, h.dcp2, BitVec.zero_add]
  have hbra : T5Aslu.wbra p.ctrl.toDecode = false := by
    rw [T5Aslu.wbra, h.dopc]
    rfl
  have halign : T5Aslu.balign p.ctrl.toDecode = false := by
    rw [T5Aslu.balign, hadr, show orR ((0#32).extractLsb 1 0) = false from rfl,
      show (0#32).getLsbD 1 = false from rfl, Bool.false_and, Bool.false_and, Bool.and_false,
      Bool.or_self]
  have hret : (!(0#32).getLsbD 21) = true := rfl
  rw [T5Aslu.xbraNext, hbra, halign, h.dcp2, hret, Bool.and_true, Bool.false_or]

theorem andR_xstb (h : p.Bubble) : andR (T5Data.advance p.ctrl.toDecode).xstb = false := by
  rw [T5Data.advance, andR_pair, h.dopc]
  exact Bool.false_and _

theorem iwbAdr (h : p.Bubble) (k l : Sample) :
    ((p.advance X k).advance X l).inst.iwbAdr = 0#30 := by
  show T5Inst.nextAdr (T5Aslu.xbraNext p.ctrl.toDecode) (T5Data.advance p.ctrl.toDecode).xstb
    (p.advance X k).aslu.mtvec _ _ (p.advance X k).ctrl.xpc = 0#30
  rw [h.xbraNext, h.mtvec_advance, h.xpc_advance]
  unfold T5Inst.nextAdr
  rw [h.andR_xstb]
  cases p.ctrl.dexc <;> rfl

end Bubble

/-- The write enable of the instruction in the decode slot. -/
def dwre (p : Pipe) : Bool :=
  T5Back.writes (T5Data.advance p.ctrl.toDecode).xstb p.back.drd p.ctrl.dopc

/-- A word that is no instruction and not decoded as an environment call.  Behind
a reset its slot executes the `lui` of the bubble, to the register the word
names. -/
structure Hollow (w : BitVec 32) : Prop where
  rv32 : T5Ctrl.rv32 w = false
  etype : T5Ctrl.etype (T5Ctrl.opc w) w = false

/-- A hollow word that names no register leaves the bubble as it is. -/
structure Inert (w : BitVec 32) : Prop extends Hollow w where
  rd : w.extractLsb 11 7 = 0#5

/-- The first four fetches are from address 0, and until then no register is
written.  The last of the four, that of hart 2, depends on the word `k₀` that was
on the bus before any fetch. -/
theorem AtReset.run {p : Pipe} (h : p.AtReset) {ks : List Sample} (hlen : ks.length ≤ 3)
    (hquiet : ∀ k₀ k₁ k₂, ks = [k₀, k₁, k₂] → Inert k₀.iwbDat) :
    (p.run X ks).inst.iwbAdr = 0#30 ∧ (p.run X ks).gprf = p.gprf := by
  have hxrd : p.back.xrd = 0#5 := by rw [h.back]; rfl
  have hdrd : p.back.drd = 0#5 := by rw [h.back]; rfl
  match ks, hlen with
  | [], _ => exact ⟨by rw [run_nil, h.inst]; rfl, rfl⟩
  | [k₀], _ =>
    refine ⟨?_, advance_gprf_of_zero X hxrd k₀⟩
    show T5Inst.nextAdr p.aslu.xbra p.data.xstb p.aslu.mtvec p.aslu.mepc p.aslu.xbpc p.ctrl.xpc = _
    rw [h.aslu, h.data, h.ctrl]
    rfl
  | [k₀, k₁], _ =>
    refine ⟨h.bubble.iwbAdr k₀ k₁, ?_⟩
    exact (advance_gprf_of_zero X hdrd k₁).trans (advance_gprf_of_zero X hxrd k₀)
  | [k₀, k₁, k₂], _ =>
    have hinert := hquiet k₀ k₁ k₂ rfl
    refine ⟨(h.bubble.advance hinert.rv32).iwbAdr k₁ k₂, ?_⟩
    exact (advance_gprf_of_zero X hinert.rd k₂).trans
      ((advance_gprf_of_zero X hdrd k₁).trans (advance_gprf_of_zero X hxrd k₀))

end Pipe

/-! ## First instructions -/

namespace T5Rv32i

/-- The hart that the word decoded at an advancing edge of `s` is executed for. -/
def owner (s : T5Rv32i) : BitVec 2 := T5Inst.whart (T5Inst.whart (T5Inst.whart s.inst.hart))

end T5Rv32i

/-- In the memory slot the write port and the fetch address are those of the
owner. -/
theorem Passage.owner {s x m : T5Rv32i} {i : Input} (hs : T5Rv32i.Running s)
    (h : Passage X s i x m) :
    m.inst.hart = s.owner ∧ m.back.mwre = (s.step X i).pipe.dwre ∧ m.inst.iwbAdr = x.nextAdr := by
  obtain ⟨k, l, hx, hm⟩ := h.pipes hs
  have hstep := T5Rv32i.pipe_step_of_advancing X hs.readSafe h.advancing h.sysRst
  have hadr : m.inst.iwbAdr = x.nextAdr := congrArg (fun p : Pipe => p.inst.iwbAdr) hm
  rw [hx] at hm
  rw [hstep]
  exact ⟨congrArg (fun p : Pipe => p.inst.hart) hm, congrArg (fun p : Pipe => p.back.mwre) hm, hadr⟩

section First

variable (X) (c : T5Rv32i) (h : BitVec 2)

end First

namespace T5Inst

end T5Inst

section Run

variable {c : T5Rv32i} {h : BitVec 2} {js : List Input}

/-- The harts own the words in the order of the counter, from hart 2 on. -/
theorem owner_run (hc : PostReset X c) (hjs : ∀ j ∈ js, j.sysRst = false) :
    ((machine X).run c js).owner = T5Inst.whart^[((machine X).edges c js).length] 2#2 := by
  have hp : ((machine X).run c js).inst.hart = _ :=
    congrArg (fun p : Pipe => p.inst.hart) (pipe_run hc.running hjs)
  have h0 : c.pipe.inst.hart = 0#2 := congrArg T5Inst.hart hc.inst
  have hlen : (samples X c js).length = ((machine X).edges c js).length := List.length_map ..
  have h2 : (2#2 : BitVec 2) = T5Inst.whart^[3] 0#2 := rfl
  rw [T5Rv32i.owner, hp, Pipe.run_hart, h0, hlen, h2, ← Function.iterate_add_apply, Nat.add_comm,
    Function.iterate_add_apply]
  rfl

end Run

end Tra5
