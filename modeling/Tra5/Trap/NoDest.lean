/-
Instructions without a destination.

The write enable is a negative condition on single opcode bits.  It is low for
branches and stores, but no test of it covers MISC-MEM, the opcode of `fence` and
`fence.i`.  Such a word writes the register that its unused `rd` field names, with
the value of the don't-care arm of the result multiplexer.
-/
import Tra5.Trap.Registers
import Tra5.Trap.Status

namespace Tra5

open Rv32

variable {X : DontCare} {w a b : BitVec 32} {pc : BitVec 30}

def opcBranch : BitVec 5 := 0b11000#5
def opcStore : BitVec 5 := 0b01000#5
def opcMiscMem : BitVec 5 := 0b00011#5

/-! ## The datapath -/

theorem not_writes_of_branch_or_store {o : BitVec 5} (h : o = opcBranch ∨ o = opcStore)
    (xstb : BitVec 2) (xrd : BitVec 5) : T5Back.writes xstb xrd o = false := by
  rcases h with rfl | rfl
  · exact Bool.and_false _
  · rw [T5Back.writes, show T5Back.stype opcStore = true from rfl, Bool.not_true, Bool.and_false,
      Bool.false_and]

theorem calm_of_miscMem (h : opcode w = opcMiscMem) : Calm (T5Ctrl.decode X pc w a b) := by
  rw [T5Ctrl.decode_miscMem h]
  refine ⟨rfl, ?_, access_of_not_strobe (o := opcMiscMem) rfl rfl⟩
  rw [T5Aslu.balign, Bool.and_false, Bool.false_and, Bool.false_and, Bool.or_self]

theorem maluNext_miscMem {x : Execute} (h : x.xopc = opcMiscMem) (xpc : BitVec 30) :
    T5Aslu.maluNext X x xpc = X.malu := by
  unfold T5Aslu.maluNext
  rw [h]
  rfl

/-- A MISC-MEM word goes on at the address in `xpc`, without a strobe or a trap,
and writes the register of its `rd` field. -/
theorem outcome_of_miscMem (X : DontCare) (h : opcode w = opcMiscMem) (pc : BitVec 30)
    (a b : BitVec 32) (csr csr' : Csr) (dhart : BitVec 2) (dti : BitVec 32) (xpc : BitVec 30) :
    let d := T5Ctrl.decode X pc w a b
    let o := outcome X csr dti (T5Aslu.execute X dhart csr' d) (T5Data.advance d) xpc (rd w)
    (o.wre = orR (rd w) ∧ o.value = X.malu) ∧ o.next = xpc ∧ o.request.stb = false ∧
      o.trap = false := by
  intro d o
  have hopc : d.dopc = opcMiscMem := h
  have hne : d.dopc ≠ 0#5 := by rw [hopc]; decide
  have hbra : T5Aslu.wbra d = false := by
    rw [T5Aslu.wbra, hopc]
    rfl
  have hstb : T5Data.strobe d.dopc = false := by rw [hopc]; rfl
  have hcalm : Calm d := calm_of_miscMem h
  obtain ⟨htrap, hwre, hnext⟩ := hcalm.outcome (X := X) csr csr' dhart dti xpc (rd w)
  refine ⟨⟨?_, ?_⟩, ?_, ?_, htrap⟩
  · refine hwre.trans ?_
    rw [show (T5Ctrl.decode X pc w a b).dopc = opcMiscMem from h]
    exact (Bool.and_true _).trans (Bool.and_true _)
  · show (outcome X csr dti (T5Aslu.execute X dhart csr' d) (T5Data.advance d) xpc (rd w)).value = _
    rw [value_of_ne_load (x := T5Aslu.execute X dhart csr' d) hne]
    exact maluNext_miscMem (x := T5Aslu.execute X dhart csr' d) hopc xpc
  · refine hnext.trans ?_
    rw [show T5Aslu.wbra (T5Ctrl.decode X pc w a b) = false from hbra, if_neg Bool.false_ne_true]
  · show (T5Data.advance d).xstb.getLsbD 1 = false
    rw [T5Data.advance, hstb, getLsbD_one_pair]

/-! ## The core -/

section Core

variable {s d x m : T5Rv32i} {i k l : Input}

/-- A branch, a store or a MISC-MEM word leaves the registers alone, and a MISC-MEM
word goes on at the next address without a strobe or a trap, exactly if a MISC-MEM
word names `x0` or a register that has the don't-care value already, and the word
behind it ends in `11` or the PC pipeline happens to hold the next address. -/
theorem no_destination_iff (X : DontCare) {s d x m : T5Rv32i} {i k l : Input}
    (hs : Reachable X s) (h : Transit X s i d k x l m) (hrv : T5Ctrl.rv32 i.iwbDat = true)
    (hop : opcode i.iwbDat = opcBranch ∨ opcode i.iwbDat = opcStore ∨
      opcode i.iwbDat = opcMiscMem) :
    (m.commit = x.commit ∧ (opcode i.iwbDat = opcMiscMem →
      x.dwbStb = false ∧ x.csrInputs.traps = false ∧
        m.iwbAdr = T5Ctrl.npc (s.inst.fpc.extractLsb 31 2))) ↔
    (opcode i.iwbDat = opcMiscMem →
      (rd i.iwbDat = 0#5 ∨
        (x.commit.rs1d (T5Inst.whart x.inst.hart) (rd i.iwbDat) = X.malu ∧
          x.commit.rs2d (T5Inst.whart x.inst.hart) (rd i.iwbDat) = X.malu)) ∧
      (T5Ctrl.rv32 k.iwbDat = true ∨ s.ctrl.dpc = T5Ctrl.npc (s.inst.fpc.extractLsb 31 2))) := by
  have hout := h.outcome hs.running hrv
  obtain ⟨-, -, hm⟩ := h.pipes hs.running
  have hcommit := commit_of_pipe hm
  have hadr : m.iwbAdr = (x.pipe.outcome X l.sample).next :=
    congrArg (fun p : Pipe => p.inst.iwbAdr) hm
  have hrd : (x.pipe.outcome X l.sample).rd = rd i.iwbDat := by rw [hout]; rfl
  rw [hcommit, T5Gprf.step_eq_self_iff, hrd]
  by_cases hmisc : opcode i.iwbDat = opcMiscMem
  · obtain ⟨⟨hwre, hval⟩, hnext, hstb, htrap⟩ := outcome_of_miscMem X hmisc
      (s.inst.fpc.extractLsb 31 2) (s.rs1d i.iwbDat) (s.rs2d i.iwbDat) x.aslu.toCsr d.aslu.toCsr
      d.inst.dhart l.dwbDti x.ctrl.xpc
    rw [← hout] at hwre hval hnext hstb htrap
    have hstb : x.dwbStb = false := hstb
    have htrap : x.csrInputs.traps = false := htrap
    have hpc : m.iwbAdr = T5Ctrl.npc (s.inst.fpc.extractLsb 31 2) ↔ T5Ctrl.rv32 k.iwbDat = true ∨
        s.ctrl.dpc = T5Ctrl.npc (s.inst.fpc.extractLsb 31 2) := by
      rw [hadr, hnext, (h.pcs hs.running hrv).1]
      cases T5Ctrl.rv32 k.iwbDat <;> simp
    rw [hwre, hval, orR, bne_iff_ne, ne_eq, ← Classical.or_iff_not_imp_left, ← hpc]
    constructor
    · exact fun hall _ => ⟨hall.1, (hall.2 hmisc).2.2⟩
    · exact fun hcond => ⟨(hcond hmisc).1, fun _ => ⟨hstb, htrap, (hcond hmisc).2⟩⟩
  · have hwre : (x.pipe.outcome X l.sample).wre = false := by
      rw [hout]
      exact not_writes_of_branch_or_store (hop.imp_right (·.resolve_right hmisc)) _ _
    rw [hwre]
    exact iff_of_true ⟨fun hw => Bool.noConfusion hw, fun he => absurd he hmisc⟩
      (fun he => absurd he hmisc)

end Core

/-- `fence` with `rd` zero, a `nop` behind it. -/
theorem no_destination_fence :
    let s := (machine default).run (coldStart default) [Input.fetch nop, Input.fetch nop]
    let x := (s.step default (Input.fetch 0x0FF0000F#32)).step default (Input.fetch nop)
    let m := x.step default (Input.fetch nop)
    m.commit = x.commit ∧ m.iwbAdr = 1#30 := by
  intro s x m
  have hlow : ∀ i ∈ [Input.fetch nop, Input.fetch nop], i.sysRst = false := by decide
  have h := (no_destination_iff default (reachable_run_coldStart default hlow)
    (transit_of_edges (i := Input.fetch 0x0FF0000F#32) (k := Input.fetch nop)
      (l := Input.fetch nop) (by decide +kernel) (by decide +kernel) (by decide +kernel)
      (by decide)) (by decide) (Or.inr (Or.inr (by decide)))).mpr
    (fun _ => ⟨Or.inl (by decide), Or.inl (by decide)⟩)
  exact ⟨h.1, (h.2 (by decide)).2.2.trans (by decide +kernel)⟩

/-- `fence` with 1 in its `rd` field, executed by hart 0, whose `x1` is then loaded
with the value of the don't-care arm. -/
theorem fence_writes_register :
    let X : DontCare := { (default : DontCare) with malu := 0xDEADBEEF#32 }
    let s := (machine X).run (coldStart X) [Input.fetch nop, Input.fetch nop]
    let i := Input.fetch 0x0FF0008F#32
    let d := s.step X i
    let x := d.step X (Input.fetch nop)
    let m := x.step X (Input.fetch nop)
    Reachable X s ∧ Transit X s i d (Input.fetch nop) x (Input.fetch nop) m ∧
      T5Ctrl.rv32 i.iwbDat = true ∧ opcode i.iwbDat = opcMiscMem ∧
      x.commit.rs1d 0#2 1#5 = 0#32 ∧ m.commit.rs1d 0#2 1#5 = 0xDEADBEEF#32 := by
  intro X s i d x m
  exact ⟨reachable_run_coldStart X (by decide),
    transit_of_edges (by decide +kernel) (by decide +kernel) (by decide +kernel) (by decide),
    by decide, by decide, by decide +kernel, by decide +kernel⟩

end Tra5
