/-
The datapath implements the integer instructions of RV32I.

An instruction that neither traps nor accesses memory passes the execute stage
by `Tra5.Datapath.Ordinary`, which leaves three things to compute per format from
the decode registers: the write enable, the target of a jump and the value.  The
units of `Tra5.Datapath.Execute` give the last two.
-/
import Tra5.Datapath.Ordinary

namespace Tra5

open Rv32 T5Aslu

variable {X : DontCare} {w a b : BitVec 32} {pc : BitVec 30}

/-! ## The specification -/

/-- The outcome `o` is what the instruction `i` at `pc` does with the operands
`a` and `b`: it writes the value of `i` to a destination other than `x0`, goes on
at the next PC of `i`, and neither traps nor strobes the data bus. -/
structure Implements (o : Outcome) (i : Instr) (pc : BitVec 30) (a b : BitVec 32) : Prop where
  wre : o.wre = i.dest.any (· != 0#5)
  rd : ∀ r, i.dest = some r → o.rd = r
  value : i.dest.isSome = true → o.value = i.value (byteAdr pc) a b
  next : byteAdr o.next = i.nextPc (byteAdr pc) a b
  trap : o.trap = false
  stb : o.request.stb = false

/-! ## The destination -/

theorem wre_of_dest {o : BitVec 5} (hs : T5Back.stype o = false) (hb : T5Back.btype o = false)
    (r : BitVec 5) :
    (orR r && !T5Back.stype o && !T5Back.btype o) = (some r).any (· != 0#5) := by
  rw [hs, hb, Bool.not_false, Bool.and_true, Bool.and_true]
  rfl

/-- The write enable of an instruction that does not trap.  For a fence it does
not look at the opcode, only at the destination field. -/
theorem wre_of_encodes {i : Instr} (hw : Encodes w i) (hi : i.isCompute = true) :
    (orR (rd w) && !T5Back.stype (opcode w) && !T5Back.btype (opcode w)) =
      i.dest.any (· != 0#5) := by
  cases hw.format with
  | lui h | auipc h | jal h | jalr h | opImm h | opReg h =>
    rw [h]
    exact wre_of_dest rfl rfl (rd w)
  | branch h =>
    rw [h]
    exact Bool.and_false _
  | fence h | fenceI h =>
    rw [h, beq_iff_eq.mp hi]
    rfl
  | load | store | ecall | ebreak | mret | csr => exact absurd hi Bool.false_ne_true

theorem rd_of_dest {i : Instr} {r : BitVec 5} (hw : Encodes w i) (hr : i.dest = some r) :
    rd w = r := by
  cases hw.format with
  | lui | auipc | jal | jalr | load | opImm | opReg | csr => exact Option.some.inj hr
  | branch | store | fence | fenceI | ecall | ebreak | mret =>
    exact absurd hr.symm (Option.some_ne_none r)

/-! ## The target -/

/-- The fetch address a jump loads is its target.  It has no bits below the
word, so the target has to be aligned. -/
theorem xadr_of_target {i : Instr} {t : BitVec 32} (hw : Encodes w i)
    (htarget : i.target (byteAdr pc) a b = some t) (ht : alignedTo 2 t = true) :
    byteAdr ((xadr (T5Ctrl.decode X pc w a b)).extractLsb 31 2) = t := by
  have hlow := (alignedTo_two_iff t).mp ht
  cases hw.format with
  | jal h =>
    obtain rfl := Option.some.inj htarget
    rw [T5Ctrl.decode_jal h]
    exact byteAdr_extractLsb_of_low hlow
  | jalr h =>
    obtain rfl := Option.some.inj htarget
    have hbit : (a + immI w).getLsbD 1 = false := by simpa using ((low_eq_zero_iff _).mp hlow).1
    rw [T5Ctrl.decode_jalr h]
    exact byteAdr_extractLsb hbit
  | branch h =>
    obtain rfl := Option.some.inj (Option.ite_none_right_eq_some.mp htarget).2
    rw [T5Ctrl.decode_branch h]
    exact byteAdr_extractLsb_of_low hlow
  | lui | auipc | load | store | opImm | opReg | fence | fenceI | ecall | ebreak | mret | csr =>
    exact absurd htarget.symm (Option.some_ne_none t)

/-! ## The value -/

section Value

variable (dhart : BitVec 2) (csr : Csr)

theorem value_lui (h : opcode w = 0b01101#5) :
    maluNext X (execute X dhart csr (T5Ctrl.decode X pc w a b)) (T5Ctrl.npc pc) = immU w := by
  rw [T5Ctrl.decode_lui h, maluNext_lui rfl]
  exact (xadd_low_of_add rfl).trans (BitVec.zero_add _)

theorem value_auipc (h : opcode w = 0b00101#5) :
    maluNext X (execute X dhart csr (T5Ctrl.decode X pc w a b)) (T5Ctrl.npc pc) =
      byteAdr pc + immU w := by
  rw [T5Ctrl.decode_auipc h, maluNext_auipc rfl]
  refine byteAdr_extractLsb_of_low (x := byteAdr pc + immU w) ?_
  rw [low_byteAdr_add, immU, BitVec.extractLsb,
    BitVec.extractLsb'_append_eq_of_add_le (by omega)]
  rfl

theorem value_jump (h : opcode w = 0b11011#5 ∨ opcode w = 0b11001#5) :
    maluNext X (execute X dhart csr (T5Ctrl.decode X pc w a b)) (T5Ctrl.npc pc) =
      byteAdr pc + 4#32 := by
  rw [maluNext_jump h, byteAdr_npc]

theorem value_opImm {op : Alu} (h : opcode w = 0b00100#5) (hf : funct3 w = op.funct3)
    (hsub : op ≠ .sub) (hshift : op.isShift = true → funct7 w = op.funct7) :
    maluNext X (execute X dhart csr (T5Ctrl.decode X pc w a b)) (T5Ctrl.npc pc) =
      op.eval a (immI w) := by
  rw [T5Ctrl.decode_opImm h, maluNext_alu (Or.inl rfl)]
  refine result_eq_eval hf (fun ha => ?_) (fun hs => ?_) hshift
  · exact (bit13 w).trans (by rw [hf, ha]; rfl)
  · refine (bit13 w).trans ?_
    rcases hs with hs | hs | hs
    · exact absurd hs hsub
    · rw [hf, hs]; rfl
    · rw [hf, hs]; rfl

theorem value_opReg {op : Alu} (h : opcode w = 0b01100#5) (hf : funct3 w = op.funct3)
    (hf7 : funct7 w = op.funct7) :
    maluNext X (execute X dhart csr (T5Ctrl.decode X pc w a b)) (T5Ctrl.npc pc) = op.eval a b := by
  have hbits : (w.getLsbD 13 || w.getLsbD 30) = (op.funct3.getLsbD 1 || op.funct7.getLsbD 5) := by
    rw [bit13, bit30, hf, hf7]
  rw [T5Ctrl.decode_opReg h, maluNext_alu (Or.inr rfl)]
  refine result_eq_eval hf (fun ha => ?_) (fun hs => ?_) (fun _ => hf7)
  · exact hbits.trans (by rw [ha]; rfl)
  · refine hbits.trans ?_
    rcases hs with hs | hs | hs <;> rw [hs] <;> rfl

theorem value_of_encodes {i : Instr} (hw : Encodes w i) (hi : i.isCompute = true)
    (hdest : i.dest.isSome = true) :
    maluNext X (execute X dhart csr (T5Ctrl.decode X pc w a b)) (T5Ctrl.npc pc) =
      i.value (byteAdr pc) a b := by
  cases hw.format with
  | lui h => exact value_lui dhart csr h
  | auipc h => exact value_auipc dhart csr h
  | jal h => exact value_jump dhart csr (Or.inl h)
  | jalr h => exact value_jump dhart csr (Or.inr h)
  | opImm h hf hsub hshift => exact value_opImm dhart csr h hf hsub hshift
  | opReg h hf hf7 => exact value_opReg dhart csr h hf hf7
  | branch | fence | fenceI => exact absurd hdest Bool.false_ne_true
  | load | store | ecall | ebreak | mret | csr => exact absurd hi Bool.false_ne_true

end Value

/-! ## The instructions of the datapath -/

theorem isSystem_of_isCompute {i : Instr} (h : i.isCompute = true) : i.isSystem = false := by
  cases i with
  | lui | auipc | jal | jalr | branch | opImm | opReg | fence | fenceI => rfl
  | load | store | ecall | ebreak | mret | csr => exact absurd h Bool.false_ne_true

theorem isMemory_of_isCompute {i : Instr} (h : i.isCompute = true) : i.isMemory = false := by
  cases i with
  | lui | auipc | jal | jalr | branch | opImm | opReg | fence | fenceI => rfl
  | load | store | ecall | ebreak | mret | csr => exact absurd h Bool.false_ne_true

theorem traps_of_isCompute {i : Instr} (h : i.isCompute = true) {pc : BitVec 32}
    (ht : ∀ t, i.target pc a b = some t → alignedTo 2 t = true) : i.traps pc a b = false := by
  have hacc : i.accessMisaligned a = false := by
    cases i with
    | lui | auipc | jal | jalr | branch | opImm | opReg | fence | fenceI => rfl
    | load | store | ecall | ebreak | mret | csr => exact absurd h Bool.false_ne_true
  rw [Instr.traps_of_not_system (isSystem_of_isCompute h), hacc,
    (i.jumpMisaligned_eq_false_iff pc a b).mpr ht, Bool.or_self]

theorem opcode_ne_load {i : Instr} (hw : Encodes w i) (hi : i.isCompute = true) :
    opcode w ≠ 0#5 := by
  intro h
  have hs := strobe_of_encodes hw
  rw [h, isMemory_of_isCompute hi] at hs
  exact absurd hs (by decide)

/-- For every word that encodes an instruction of the integer datapath, at every
PC and on all operands, the composition of decode, execute and write-back does
what RV32I defines, when the target of a jump or taken branch is a multiple of
four.  The don't-care values and the surroundings of the instruction are
arbitrary. -/
theorem datapath_implements_rv32i (X : DontCare) (e : Surroundings) {w : BitVec 32} {i : Instr}
    (hw : Encodes w i) (hi : i.isCompute = true) (pc : BitVec 30) (a b : BitVec 32)
    (ht : ∀ t, i.target (byteAdr pc) a b = some t → alignedTo 2 t = true) :
    Implements (datapath X e pc w a b) i pc a b := by
  have htrap := traps_of_isCompute hi ht
  have hsys := isSystem_of_isCompute hi
  obtain ⟨hcalm, hwre, hnext⟩ := (calm_of_ordinary X hw hsys htrap).outcome (X := X) e.executeCsr
    e.decodeCsr e.dhart e.dwbDti (T5Ctrl.npc pc) (w.extractLsb 11 7)
  refine ⟨hwre.trans (wre_of_encodes hw hi), fun r hr => rd_of_dest hw hr, fun hdest => ?_, ?_,
    hcalm, ?_⟩
  · exact (value_of_ne_load (opcode_ne_load hw hi) _ _ _ _ _).trans
      (value_of_encodes e.dhart e.decodeCsr hw hi hdest)
  · refine (congrArg byteAdr hnext).trans ?_
    rw [wbra_of_ordinary X hw hsys htrap, Instr.nextPc]
    cases htarget : i.target (byteAdr pc) a b with
    | none => exact byteAdr_npc pc
    | some t => exact xadr_of_target hw htarget (ht t htarget)
  · exact (getLsbD_one_pair _ _).trans ((strobe_of_encodes hw).trans (isMemory_of_isCompute hi))

/-- `jalr x1, 3(x2)` with an odd sum: the target is aligned once bit 0 is
cleared. -/
theorem datapath_implements_jalr_odd_sum :
    let w := 0x003100E7#32
    let i := Instr.jalr 1#5 2#5 3#32
    Encodes w i ∧ i.target (byteAdr 0x40#30) 0x102#32 0#32 = some 0x104#32 ∧
      Implements (datapath default default 0x40#30 w 0x102#32 0#32) i 0x40#30 0x102#32 0#32 := by
  have hw : Encodes 0x003100E7#32 (.jalr 1#5 2#5 3#32) := ⟨by decide, .jalr (by decide) (by decide)⟩
  refine ⟨hw, by decide, datapath_implements_rv32i default default hw rfl _ _ _ (fun t ht => ?_)⟩
  rw [← Option.some.inj ht]
  decide

end Tra5
