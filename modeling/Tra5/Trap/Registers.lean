/-
What a trapping instruction writes.

The write enable `mwre` is low for a misaligned access, for stores and branches
and for `x0`, but it does not look at the trap decision of `t5_aslu`.  So a jump
to a misaligned address, which traps through `xbra`, still writes its link
register.  `trap_keeps_registers_iff` says that this is the only case.
-/
import Tra5.Pipeline.Slots
import Tra5.Datapath.Ordinary

namespace Tra5

open Rv32

variable {X : DontCare} {w a b : BitVec 32} {pc : BitVec 30}

/-! ## The write port -/

theorem Dpram.step_eq_self_iff {aw dw : Nat} (ram : Dpram aw dw) (wre : Bool) (adr : BitVec aw)
    (v : BitVec dw) : ram.step wre adr v = ram ↔ (wre = true → ram.read adr = v) := by
  constructor
  · rintro h rfl
    have := congrFun h adr
    rw [step, beq_self_eq_true, Bool.and_true, if_pos rfl] at this
    exact this.symm
  · intro h
    funext x
    rw [step]
    by_cases hx : (wre && x == adr) = true
    · obtain ⟨hw, he⟩ := Bool.and_eq_true_iff.mp hx
      rw [if_pos hx, beq_iff_eq.mp he]
      exact (h hw).symm
    · rw [if_neg hx]

theorem T5Gprf.step_eq_self_iff (g : T5Gprf) (wre : Bool) (h : BitVec 2) (r : BitVec 5)
    (v : BitVec 32) :
    g.step wre h r v = g ↔ (wre = true → g.rs1d h r = v ∧ g.rs2d h r = v) := by
  have hiff : g.step wre h r v = g ↔
      g.rs1.step wre (h ++ r) v = g.rs1 ∧ g.rs2.step wre (h ++ r) v = g.rs2 := by
    cases g
    simp only [step, T5Gprf.mk.injEq]
  rw [hiff, Dpram.step_eq_self_iff, Dpram.step_eq_self_iff]
  exact ⟨fun hg hw => ⟨hg.1 hw, hg.2 hw⟩, fun hg => ⟨fun hw => (hg hw).1, fun hw => (hg hw).2⟩⟩

/-! ## Write enable and trap -/

/-- A trapping instruction that is not a jump has its write enable low. -/
theorem not_writes_of_trap (X : DontCare) {i : Instr} (hw : Encodes w i)
    (ht : i.traps (byteAdr pc) a b = true) (hj : i.isJump = false) :
    T5Back.writes (T5Data.advance (T5Ctrl.decode X pc w a b)).xstb (rd w) (opcode w) = false := by
  cases hw.format with
  | lui | auipc | opImm | opReg | fence | fenceI | mret | csr => exact Bool.noConfusion ht
  | jal | jalr => exact Bool.noConfusion hj
  | ecall h | ebreak h =>
    -- The destination field of the canonical encoding is `x0`.
    have hrd : orR (rd w) = false := by rw [h]; decide
    rw [T5Back.writes, hrd, Bool.and_false, Bool.false_and, Bool.false_and]
  | branch h =>
    have hb : T5Back.btype (opcode w) = true := by rw [h]; rfl
    rw [T5Back.writes, hb, Bool.not_true, Bool.and_false]
  | store h =>
    have hs : T5Back.stype (opcode w) = true := by rw [h]; rfl
    rw [T5Back.writes, hs, Bool.not_true, Bool.and_false, Bool.false_and]
  | load =>
    have hx : andR (T5Data.advance (T5Ctrl.decode X pc w a b)).xstb = true := by
      rw [andR_xstb_of_encodes X hw]
      exact ht
    rw [T5Back.writes, hx, Bool.not_true, Bool.false_and, Bool.false_and, Bool.false_and]

/-- A jump has its write enable high unless its destination is `x0`, and its
value is the link address, whether it traps or not. -/
theorem outcome_of_jump (X : DontCare) {i : Instr} (hw : Encodes w i) (hj : i.isJump = true)
    (csr csr' : Csr) (dhart : BitVec 2) (dti : BitVec 32) (xpc : BitVec 30) :
    let d := T5Ctrl.decode X pc w a b
    let o := outcome X csr dti (T5Aslu.execute X dhart csr' d) (T5Data.advance d) xpc (rd w)
    o.wre = orR (rd w) ∧ o.value = byteAdr xpc := by
  intro d o
  have hopc : opcode w = 0b11011#5 ∨ opcode w = 0b11001#5 := by
    cases hw.format with
    | jal h => exact Or.inl h
    | jalr h => exact Or.inr h
    | lui | auipc | branch | load | store | opImm | opReg | fence | fenceI | ecall | ebreak | mret
    | csr => exact Bool.noConfusion hj
  have hx : andR (T5Data.advance d).xstb = false := by
    rw [andR_xstb_of_encodes X hw]
    cases i <;> first | rfl | exact Bool.noConfusion hj
  have hs : T5Back.stype (opcode w) = false := by rcases hopc with h | h <;> rw [h] <;> rfl
  have hb : T5Back.btype (opcode w) = false := by rcases hopc with h | h <;> rw [h] <;> rfl
  have hne : opcode w ≠ 0#5 := by rcases hopc with h | h <;> rw [h] <;> decide
  constructor
  · show T5Back.writes (T5Data.advance d).xstb (rd w) (opcode w) = orR (rd w)
    rw [T5Back.writes, hx, hs, hb, Bool.not_false, Bool.true_and, Bool.and_true, Bool.and_true]
  · show (outcome X csr dti (T5Aslu.execute X dhart csr' d) (T5Data.advance d) xpc (rd w)).value = _
    rw [value_of_ne_load (x := T5Aslu.execute X dhart csr' d) hne]
    exact maluNext_jump (x := T5Aslu.execute X dhart csr' d) hopc xpc

/-! ## The passage of a trapping instruction -/

theorem Pipe.outcome_of_trap (X : DontCare) (p : Pipe) {k : Sample} {i : Instr}
    (hw : Encodes k.iwbDat i)
    (ht : i.traps (byteAdr p.fetchPc) (p.rs1d k.iwbDat) (p.rs2d k.iwbDat) = true) (l n : Sample) :
    (((p.advance X k).advance X l).outcome X n).rd = rd k.iwbDat ∧
      (((p.advance X k).advance X l).outcome X n).wre = (i.isJump && orR (rd k.iwbDat)) ∧
      (i.isJump = true → (((p.advance X k).advance X l).outcome X n).value =
        byteAdr ((p.advance X k).advance X l).ctrl.xpc) := by
  have hout : ((p.advance X k).advance X l).outcome X n = _ :=
    p.outcome_eq X l n (rv32_of_encodes hw)
  rw [hout]
  refine ⟨rfl, ?_, fun hj => (outcome_of_jump X hw hj _ _ _ _ _).2⟩
  cases hj : i.isJump with
  | false => exact not_writes_of_trap X hw ht hj
  | true => exact (outcome_of_jump X hw hj _ _ _ _ _).1.trans (Bool.true_and _).symm

/-- An instruction that traps leaves the register file as it was, unless it is a
jump with a link register other than `x0` that does not hold the link address
already. -/
theorem trap_keeps_registers_iff (X : DontCare) {s x m : T5Rv32i} (hs : Reachable X s)
    {i : Input} {instr : Instr} (hw : Encodes i.iwbDat instr)
    (ht : instr.traps (byteAdr (s.inst.fpc.extractLsb 31 2)) (s.rs1d i.iwbDat)
      (s.rs2d i.iwbDat) = true)
    (h : Passage X s i x m) :
    m.commit = x.commit ↔ (instr.isJump = true → rd i.iwbDat = 0#5 ∨
      (x.commit.rs1d (T5Inst.whart x.inst.hart) (rd i.iwbDat) = byteAdr x.ctrl.xpc ∧
        x.commit.rs2d (T5Inst.whart x.inst.hart) (rd i.iwbDat) = byteAdr x.ctrl.xpc)) := by
  have hrun := hs.running
  obtain ⟨h1, h2⟩ := operands_of_advancing hrun h.advancing i.iwbDat
  rw [h1, h2] at ht
  obtain ⟨k, l, hx, hm⟩ := h.pipes hrun
  obtain ⟨hrd, hwre, hval⟩ := s.pipe.outcome_of_trap X (k := i.sample) hw ht k l
  rw [← hx] at hrd hwre hval
  rw [commit_of_pipe hm, T5Gprf.step_eq_self_iff, hrd, hwre, Bool.and_eq_true, orR, bne_iff_ne]
  constructor
  · intro hkeep hj
    by_cases h0 : rd i.iwbDat = 0#5
    · exact Or.inl h0
    · have hv := hkeep ⟨hj, h0⟩
      rw [hval hj] at hv
      exact Or.inr hv
  · rintro hcond ⟨hj, h0⟩
    rw [hval hj]
    exact (hcond hj).resolve_left h0

/-- `lw x1, 1(x0)` traps and leaves the registers alone. -/
theorem misaligned_load_keeps_registers :
    let s := (machine default).run (coldStart default) [Input.fetch nop, Input.fetch nop]
    let x := (s.step default (Input.fetch 0x00102083#32)).step default (Input.fetch nop)
    let m := x.step default { Input.fetch nop with dwbAck := true }
    m.commit = x.commit := by
  intro s x m
  have hw : Encodes (Input.fetch 0x00102083#32).iwbDat (.load .lw 1#5 0#5 1#32) :=
    ⟨by decide, .load (by decide) (by decide)⟩
  have hlow : ∀ i ∈ [Input.fetch nop, Input.fetch nop], i.sysRst = false := by decide
  exact (trap_keeps_registers_iff default
    (reachable_run_coldStart default hlow) hw
    (by decide +kernel)
    (passage_of_edges (by decide +kernel) (by decide +kernel) (by decide +kernel) (by decide))).mpr
    (fun hj => Bool.noConfusion hj)

/-- `jal x1, 2` at address 0 traps and writes 4 to `x1`. -/
theorem misaligned_jal_writes_link :
    let s := (machine default).run (coldStart default) [Input.fetch nop, Input.fetch nop]
    let i := Input.fetch 0x002000EF#32
    let x := (s.step default i).step default (Input.fetch nop)
    let m := x.step default (Input.fetch nop)
    Reachable default s ∧ Encodes i.iwbDat (.jal 1#5 2#32) ∧
      (Instr.jal 1#5 2#32).traps (byteAdr (s.inst.fpc.extractLsb 31 2)) (s.rs1d i.iwbDat)
        (s.rs2d i.iwbDat) = true ∧
      Passage default s i x m ∧ x.commit.rs1d 0#2 1#5 = 0#32 ∧ m.commit.rs1d 0#2 1#5 = 4#32 := by
  refine ⟨reachable_run_coldStart default (by decide), ⟨by decide, .jal (by decide)⟩,
    by decide +kernel, passage_of_edges (by decide +kernel) (by decide +kernel)
      (by decide +kernel) (by decide), by decide +kernel, by decide +kernel⟩

end Tra5
