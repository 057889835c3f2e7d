/-
Instructions that are neither SYSTEM nor trap.

`calm_of_ordinary` says that the execute stage lets such an instruction pass,
and `datapath_congr` that what it does then depends on the rest of the core only
through the word on the data bus: not on the CSRs and not on the hart tag.
-/
import Tra5.Datapath.Decision

namespace Tra5

open Rv32

variable {X : DontCare} {w a b : BitVec 32} {pc : BitVec 30}

/-! ## No trap -/

theorem branchCode_of_not_system {i : Instr} (hi : i.isSystem = false) (pc a b : BitVec 32) :
    branchCode i pc a b =
      BitVec.ofBool (i.target pc a b).isSome ++ BitVec.ofBool (i.jumpMisaligned pc a b) := by
  cases i with
  | ecall | ebreak | mret => exact Bool.noConfusion hi
  | lui | auipc | jal | jalr | branch | load | store | opImm | opReg | fence | fenceI | csr => rfl

/-- The execute stage lets an instruction pass that is not SYSTEM and does not
trap. -/
theorem calm_of_ordinary (X : DontCare) {i : Instr} (hw : Encodes w i) (hi : i.isSystem = false)
    (ht : i.traps (byteAdr pc) a b = false) : Calm (T5Ctrl.decode X pc w a b) := by
  rw [Instr.traps_of_not_system hi, Bool.or_eq_false_iff] at ht
  have hcode : T5Aslu.xbraNext (T5Ctrl.decode X pc w a b) = _ := xbraNext_of_encodes X hw
  rw [branchCode_of_not_system hi, T5Aslu.xbraNext] at hcode
  -- The lower bit of the code collects what would stop the instruction.
  have hlow := congrArg (·.getLsbD 0) hcode
  simp only [getLsbD_zero_pair, ht.1, Bool.or_eq_false_iff] at hlow
  refine ⟨hlow.2, hlow.1, ?_⟩
  rw [← andR_pair]
  exact (andR_xstb_of_encodes X hw).trans ht.2

theorem wbra_of_ordinary (X : DontCare) {i : Instr} (hw : Encodes w i) (hi : i.isSystem = false)
    (ht : i.traps (byteAdr pc) a b = false) :
    T5Aslu.wbra (T5Ctrl.decode X pc w a b) = (i.target (byteAdr pc) a b).isSome := by
  have hcode := (calm_of_ordinary X hw hi ht).xbra.symm.trans (xbraNext_of_encodes X hw)
  rw [branchCode_of_not_system hi] at hcode
  simpa only [getLsbD_one_pair] using congrArg (·.getLsbD 1) hcode

/-! ## Independence of the rest of the core -/

theorem rv32_of_encodes {i : Instr} (hw : Encodes w i) : T5Ctrl.rv32 w = true := by
  have h1 : (w.extractLsb 1 0).getLsbD 1 = true := by rw [hw.low]; rfl
  have h0 : (w.extractLsb 1 0).getLsbD 0 = true := by rw [hw.low]; rfl
  have hr : T5Ctrl.rv32 w = ((w.extractLsb 1 0).getLsbD 1 && (w.extractLsb 1 0).getLsbD 0) := by
    simp [T5Ctrl.rv32]
  rw [hr, h1, h0]
  rfl

/-- The opcodes for which the result multiplexer takes the value read from a
CSR. -/
def readsCsr (opc : BitVec 5) : Bool :=
  opc.getLsbD 4 && opc.getLsbD 3 && opc.getLsbD 2 && !opc.getLsbD 0

theorem readsCsr_of_not_system {i : Instr} (hw : Encodes w i) (hi : i.isSystem = false) :
    readsCsr (opcode w) = false := by
  cases hw.format with
  | lui h | auipc h | jal h | jalr h | branch h | load h | store h | opImm h | opReg h | fence h
  | fenceI h => rw [h]; rfl
  | ecall | ebreak | mret | csr => exact Bool.noConfusion hi

def Execute.forgetCsr (x : Execute) : Execute := { x with xcsr := 0#32 }

theorem Execute.eq_of_forgetCsr {x y : Execute} (h : x.forgetCsr = y.forgetCsr) :
    x.xopc = y.xopc ∧ x.xfn3 = y.xfn3 ∧ x.xbra = y.xbra ∧ x.xbpc = y.xbpc ∧ x.xdat = y.xdat := by
  simp only [forgetCsr, Execute.mk.injEq] at h
  exact ⟨h.1, h.2.1, h.2.2.2.1, h.2.2.2.2.1, h.2.2.2.2.2.1⟩

theorem maluNext_forgetCsr {x : Execute} (h : readsCsr x.xopc = false) (X : DontCare)
    (xpc : BitVec 30) : T5Aslu.maluNext X x.forgetCsr xpc = T5Aslu.maluNext X x xpc := by
  unfold readsCsr at h
  unfold T5Aslu.maluNext Execute.forgetCsr
  revert h
  cases x.xopc.getLsbD 4 <;> cases x.xopc.getLsbD 3 <;> cases x.xopc.getLsbD 2 <;>
    cases x.xopc.getLsbD 0 <;> simp

theorem Calm.forgetCsr_execute {d : Decode} (h : Calm d) (X : DontCare) (dhart dhart' : BitVec 2)
    (csr csr' : Csr) :
    (T5Aslu.execute X dhart csr d).forgetCsr = (T5Aslu.execute X dhart' csr' d).forgetCsr := by
  simp only [T5Aslu.execute, Execute.forgetCsr, h.xbpc]

theorem Calm.outcome_congr {d : Decode} (h : Calm d) (hcsr : readsCsr d.dopc = false)
    (csr₁ csr₂ csr₁' csr₂' : Csr) (dhart₁ dhart₂ : BitVec 2) (dti : BitVec 32) (xpc : BitVec 30)
    (xrd : BitVec 5) :
    Tra5.outcome X csr₁ dti (T5Aslu.execute X dhart₁ csr₁' d) (T5Data.advance d) xpc xrd =
      Tra5.outcome X csr₂ dti (T5Aslu.execute X dhart₂ csr₂' d) (T5Data.advance d) xpc xrd := by
  have hx (dhart : BitVec 2) (csr' : Csr) :
      readsCsr (T5Aslu.execute X dhart csr' d).xopc = false := hcsr
  have hm : T5Aslu.maluNext X (T5Aslu.execute X dhart₁ csr₁' d) xpc =
      T5Aslu.maluNext X (T5Aslu.execute X dhart₂ csr₂' d) xpc := by
    rw [← maluNext_forgetCsr (hx dhart₁ csr₁'), h.forgetCsr_execute X dhart₁ dhart₂ csr₁' csr₂',
      maluNext_forgetCsr (hx dhart₂ csr₂')]
  have hp : (T5Aslu.execute X dhart₁ csr₁' d).xbpc = (T5Aslu.execute X dhart₂ csr₂' d).xbpc :=
    (h.xbpc csr₁').trans (h.xbpc csr₂').symm
  have hn (csr : Csr) (xbpc : BitVec 30) (dhart : BitVec 2) (csr' : Csr) :
      T5Inst.nextAdr (T5Aslu.execute X dhart csr' d).xbra (T5Data.advance d).xstb csr.mtvec
        csr.mepc xbpc xpc = if T5Aslu.wbra d then xbpc else xpc := h.nextAdr_eq csr xbpc xpc
  simp only [Tra5.outcome, hm, hp, hn]
  rfl

/-- What an instruction does that is not SYSTEM and does not trap depends on the
rest of the core only through the word on the data bus. -/
theorem datapath_congr (X : DontCare) {i : Instr} (hw : Encodes w i) (hi : i.isSystem = false)
    (ht : i.traps (byteAdr pc) a b = false) {e e' : Surroundings} (he : e.dwbDti = e'.dwbDti) :
    datapath X e pc w a b = datapath X e' pc w a b := by
  rw [datapath, datapath, he]
  exact (calm_of_ordinary X hw hi ht).outcome_congr (readsCsr_of_not_system hw hi) _ _ _ _ _ _ _ _ _

end Tra5
