/-
What the RV32I instructions compute.

`pc` is the address of the instruction and `a` and `b` are the values of its two
source registers.  All arithmetic is modulo `2 ^ 32`.
-/
import Tra5.Isa.Instr
import Mathlib.Tactic.IntervalCases

namespace Rv32

def Branch.taken (op : Branch) (a b : BitVec 32) : Bool :=
  match op with
  | .beq => a == b
  | .bne => a != b
  | .blt => a.slt b
  | .bge => !a.slt b
  | .bltu => a.ult b
  | .bgeu => !a.ult b

/-- Register and immediate operations.  A shift uses the five low bits of its
second operand. -/
def Alu.eval (op : Alu) (a b : BitVec 32) : BitVec 32 :=
  match op with
  | .add => a + b
  | .sub => a - b
  | .sll => a <<< (b.extractLsb 4 0).toNat
  | .slt => if a.slt b then 1#32 else 0#32
  | .sltu => if a.ult b then 1#32 else 0#32
  | .xor => a ^^^ b
  | .srl => a >>> (b.extractLsb 4 0).toNat
  | .sra => a.sshiftRight (b.extractLsb 4 0).toNat
  | .or => a ||| b
  | .and => a &&& b

def CsrOp.eval (op : CsrOp) (old src : BitVec 32) : BitVec 32 :=
  match op with
  | .write => src
  | .set => old ||| src
  | .clear => old &&& ~~~ src

/-- A sequence of CSR instructions on one register, each with its operand. -/
def CsrOp.evalAll (old : BitVec 32) (ops : List (CsrOp × BitVec 32)) : BitVec 32 :=
  ops.foldl (fun v o => o.1.eval v o.2) old

theorem CsrOp.evalAll_append (old : BitVec 32) (ops : List (CsrOp × BitVec 32)) (op : CsrOp)
    (src : BitVec 32) :
    CsrOp.evalAll old (ops ++ [(op, src)]) = op.eval (CsrOp.evalAll old ops) src := by
  rw [evalAll, List.foldl_append]
  rfl

/-- The operand of a CSR instruction: the register field itself in the immediate
form, the register otherwise. -/
def csrOperand (isImm : Bool) (rs1 : BitVec 5) (a : BitVec 32) : BitVec 32 :=
  if isImm then rs1.setWidth 32 else a

/-- The size of an access is `2 ^ log2Size` bytes. -/
def Load.log2Size : Load → Nat
  | .lb | .lbu => 0
  | .lh | .lhu => 1
  | .lw => 2

def Store.log2Size : Store → Nat
  | .sb => 0
  | .sh => 1
  | .sw => 2

def alignedTo (k : Nat) (x : BitVec 32) : Bool := x.toNat % 2 ^ k == 0

theorem alignedTo_two_iff (x : BitVec 32) :
    alignedTo 2 x = true ↔ x.extractLsb 1 0 = 0#2 := by
  rw [alignedTo, beq_iff_eq, ← BitVec.toNat_inj, BitVec.extractLsb_toNat]
  rfl

theorem low_eq_zero_iff (x : BitVec 32) :
    x.extractLsb 1 0 = 0#2 ↔ x.getLsbD 1 = false ∧ x.getLsbD 0 = false := by
  constructor
  · intro h
    have h1 : (x.extractLsb 1 0).getLsbD 1 = false := by rw [h]; rfl
    have h0 : (x.extractLsb 1 0).getLsbD 0 = false := by rw [h]; rfl
    exact ⟨by simpa using h1, by simpa using h0⟩
  · rintro ⟨h1, h0⟩
    refine BitVec.eq_of_getLsbD_eq (fun i hi => ?_)
    interval_cases i
    · simpa using h0
    · simpa using h1

namespace Instr

def target (i : Instr) (pc a b : BitVec 32) : Option (BitVec 32) :=
  match i with
  | jal _ imm => some (pc + imm)
  | jalr _ _ imm => some ((a + imm) &&& ~~~ 1#32)
  | branch op _ _ imm => if op.taken a b then some (pc + imm) else none
  | _ => none

def nextPc (i : Instr) (pc a b : BitVec 32) : BitVec 32 := (i.target pc a b).getD (pc + 4#32)

/-- The value for the destination register of an instruction that does not read
memory or a CSR. -/
def value (i : Instr) (pc a b : BitVec 32) : BitVec 32 :=
  match i with
  | lui _ imm => imm
  | auipc _ imm => pc + imm
  | jal .. | jalr .. => pc + 4#32
  | opImm op _ _ imm => op.eval a imm
  | opReg op _ _ _ => op.eval a b
  | _ => 0#32

def jumpMisaligned (i : Instr) (pc a b : BitVec 32) : Bool :=
  (i.target pc a b).any (fun t => !alignedTo 2 t)

/-- A load or a store whose address is not a multiple of its size. -/
def accessMisaligned (i : Instr) (a : BitVec 32) : Bool :=
  match i with
  | load op _ _ imm => !alignedTo op.log2Size (a + imm)
  | store op _ _ imm => !alignedTo op.log2Size (a + imm)
  | _ => false

def traps (i : Instr) (pc a b : BitVec 32) : Bool :=
  match i with
  | ecall | ebreak => true
  | i => i.jumpMisaligned pc a b || i.accessMisaligned a

/-- The code of the trap that the instruction raises. -/
def cause : Instr → BitVec 4
  | ecall => 11#4
  | ebreak => 3#4
  | load .. => 4#4
  | store .. => 6#4
  | _ => 0#4

/-- The address that a load, a store or a jump uses, aligned or not. -/
def faultAddress (i : Instr) (pc a b : BitVec 32) : BitVec 32 :=
  match i with
  | load _ _ _ imm => a + imm
  | store _ _ _ imm => a + imm
  | i => (i.target pc a b).getD 0#32

theorem target_of_memory {i : Instr} (h : i.isMemory = true) (pc a b : BitVec 32) :
    i.target pc a b = none := by
  cases i with
  | load | store => rfl
  | lui | auipc | jal | jalr | branch | opImm | opReg | fence | fenceI | ecall | ebreak | mret
  | csr => exact Bool.noConfusion h

theorem accessMisaligned_of_not_memory {i : Instr} (h : i.isMemory = false) (a : BitVec 32) :
    i.accessMisaligned a = false := by
  cases i with
  | load | store => exact Bool.noConfusion h
  | lui | auipc | jal | jalr | branch | opImm | opReg | fence | fenceI | ecall | ebreak | mret
  | csr => rfl

theorem traps_of_not_system {i : Instr} (h : i.isSystem = false) (pc a b : BitVec 32) :
    i.traps pc a b = (i.jumpMisaligned pc a b || i.accessMisaligned a) := by
  cases i with
  | ecall | ebreak => exact Bool.noConfusion h
  | lui | auipc | jal | jalr | branch | load | store | opImm | opReg | fence | fenceI | mret
  | csr => rfl

theorem aligned_of_not_traps {i : Instr} {pc a b : BitVec 32} (h : i.traps pc a b = false) :
    i.jumpMisaligned pc a b = false ∧ i.accessMisaligned a = false := by
  rw [← Bool.or_eq_false_iff]
  cases i with
  | ecall | ebreak => exact Bool.noConfusion h
  | lui | auipc | jal | jalr | branch | load | store | opImm | opReg | fence | fenceI | mret
  | csr => exact h

theorem jumpMisaligned_eq_false_iff (i : Instr) (pc a b : BitVec 32) :
    i.jumpMisaligned pc a b = false ↔
      ∀ t, i.target pc a b = some t → alignedTo 2 t = true := by
  rw [jumpMisaligned]
  cases i.target pc a b with
  | none => simp
  | some t => simp

end Instr

end Rv32
