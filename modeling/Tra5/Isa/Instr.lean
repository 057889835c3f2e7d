/-
The RV32I instructions and their encodings, with the CSR instructions and
`mret`.

`Format w i` says that the fields of the word `w` above its two low bits are
those of the instruction `i`, and `Encodes w i` adds that the low bits mark a
32-bit instruction.  The relation is stated per instruction format, so a case
analysis on it gives the opcode and the function codes of the word.
-/
import Mathlib.Data.BitVec

namespace Rv32

/-! ## Fields -/

def opcode (w : BitVec 32) : BitVec 5 := w.extractLsb 6 2

def rd (w : BitVec 32) : BitVec 5 := w.extractLsb 11 7

def funct3 (w : BitVec 32) : BitVec 3 := w.extractLsb 14 12

def rs1 (w : BitVec 32) : BitVec 5 := w.extractLsb 19 15

def rs2 (w : BitVec 32) : BitVec 5 := w.extractLsb 24 20

def funct7 (w : BitVec 32) : BitVec 7 := w.extractLsb 31 25

def csrNum (w : BitVec 32) : BitVec 12 := w.extractLsb 31 20

def immI (w : BitVec 32) : BitVec 32 := (w.extractLsb 31 20).signExtend 32

def immS (w : BitVec 32) : BitVec 32 := (w.extractLsb 31 25 ++ w.extractLsb 11 7).signExtend 32

def immB (w : BitVec 32) : BitVec 32 :=
  (w.extractLsb 31 31 ++ w.extractLsb 7 7 ++ w.extractLsb 30 25 ++ w.extractLsb 11 8 ++
    0#1).signExtend 32

def immU (w : BitVec 32) : BitVec 32 := w.extractLsb 31 12 ++ 0#12

def immJ (w : BitVec 32) : BitVec 32 :=
  (w.extractLsb 31 31 ++ w.extractLsb 19 12 ++ w.extractLsb 20 20 ++ w.extractLsb 30 21 ++
    0#1).signExtend 32

theorem bit13 (w : BitVec 32) : w.getLsbD 13 = (funct3 w).getLsbD 1 := by simp [funct3]

theorem bit12 (w : BitVec 32) : w.getLsbD 12 = (funct3 w).getLsbD 0 := by simp [funct3]

theorem bit30 (w : BitVec 32) : w.getLsbD 30 = (funct7 w).getLsbD 5 := by simp [funct7]

/-! ## Instructions -/

inductive Branch where
  | beq | bne | blt | bge | bltu | bgeu
  deriving DecidableEq, Repr

def Branch.funct3 : Branch → BitVec 3
  | .beq => 0b000#3
  | .bne => 0b001#3
  | .blt => 0b100#3
  | .bge => 0b101#3
  | .bltu => 0b110#3
  | .bgeu => 0b111#3

inductive Load where
  | lb | lh | lw | lbu | lhu
  deriving DecidableEq, Repr

def Load.funct3 : Load → BitVec 3
  | .lb => 0b000#3
  | .lh => 0b001#3
  | .lw => 0b010#3
  | .lbu => 0b100#3
  | .lhu => 0b101#3

inductive Store where
  | sb | sh | sw
  deriving DecidableEq, Repr

def Store.funct3 : Store → BitVec 3
  | .sb => 0b000#3
  | .sh => 0b001#3
  | .sw => 0b010#3

inductive Alu where
  | add | sub | sll | slt | sltu | xor | srl | sra | or | and
  deriving DecidableEq, Repr

def Alu.funct3 : Alu → BitVec 3
  | .add | .sub => 0b000#3
  | .sll => 0b001#3
  | .slt => 0b010#3
  | .sltu => 0b011#3
  | .xor => 0b100#3
  | .srl | .sra => 0b101#3
  | .or => 0b110#3
  | .and => 0b111#3

def Alu.funct7 : Alu → BitVec 7
  | .sub | .sra => 0b0100000#7
  | _ => 0b0000000#7

def Alu.isShift : Alu → Bool
  | .sll | .srl | .sra => true
  | _ => false

inductive CsrOp where
  | write | set | clear
  deriving DecidableEq, Repr

def CsrOp.funct3 : CsrOp → Bool → BitVec 3
  | .write, false => 0b001#3
  | .set, false => 0b010#3
  | .clear, false => 0b011#3
  | .write, true => 0b101#3
  | .set, true => 0b110#3
  | .clear, true => 0b111#3

/-- The operation and the form that a function code stands for. -/
def CsrOp.ofFunct3 (f : BitVec 3) : Option (CsrOp × Bool) :=
  match f with
  | 0b001#3 => some (.write, false)
  | 0b010#3 => some (.set, false)
  | 0b011#3 => some (.clear, false)
  | 0b101#3 => some (.write, true)
  | 0b110#3 => some (.set, true)
  | 0b111#3 => some (.clear, true)
  | _ => none

theorem CsrOp.ofFunct3_eq_some_iff {f : BitVec 3} {op : CsrOp} {isImm : Bool} :
    CsrOp.ofFunct3 f = some (op, isImm) ↔ f = op.funct3 isImm := by
  revert f
  cases op <;> cases isImm <;> decide

theorem bits_of_csr {w : BitVec 32} {op : CsrOp} {isImm : Bool}
    (hf : funct3 w = op.funct3 isImm) : (w.getLsbD 13 || w.getLsbD 12) = true := by
  rw [bit13, bit12, hf]
  cases op <;> cases isImm <;> rfl

/-- An instruction with its decoded fields.  The flag of `csr` marks the
immediate form, whose operand is the field `rs1` itself. -/
inductive Instr where
  | lui (rd : BitVec 5) (imm : BitVec 32)
  | auipc (rd : BitVec 5) (imm : BitVec 32)
  | jal (rd : BitVec 5) (imm : BitVec 32)
  | jalr (rd rs1 : BitVec 5) (imm : BitVec 32)
  | branch (op : Branch) (rs1 rs2 : BitVec 5) (imm : BitVec 32)
  | load (op : Load) (rd rs1 : BitVec 5) (imm : BitVec 32)
  | store (op : Store) (rs1 rs2 : BitVec 5) (imm : BitVec 32)
  | opImm (op : Alu) (rd rs1 : BitVec 5) (imm : BitVec 32)
  | opReg (op : Alu) (rd rs1 rs2 : BitVec 5)
  | fence (rd : BitVec 5)
  | fenceI (rd : BitVec 5)
  | ecall
  | ebreak
  | mret
  | csr (op : CsrOp) (isImm : Bool) (rd rs1 : BitVec 5) (num : BitVec 12)
  deriving DecidableEq, Repr

/-! ## Encodings -/

/-- The word `w` has the fields of the instruction, its two low bits aside. -/
inductive Format (w : BitVec 32) : Instr → Prop
  | lui (h : opcode w = 0b01101#5) : Format w (.lui (rd w) (immU w))
  | auipc (h : opcode w = 0b00101#5) : Format w (.auipc (rd w) (immU w))
  | jal (h : opcode w = 0b11011#5) : Format w (.jal (rd w) (immJ w))
  | jalr (h : opcode w = 0b11001#5) (hf : funct3 w = 0b000#3) :
      Format w (.jalr (rd w) (rs1 w) (immI w))
  | branch {op : Branch} (h : opcode w = 0b11000#5) (hf : funct3 w = op.funct3) :
      Format w (.branch op (rs1 w) (rs2 w) (immB w))
  | load {op : Load} (h : opcode w = 0b00000#5) (hf : funct3 w = op.funct3) :
      Format w (.load op (rd w) (rs1 w) (immI w))
  | store {op : Store} (h : opcode w = 0b01000#5) (hf : funct3 w = op.funct3) :
      Format w (.store op (rs1 w) (rs2 w) (immS w))
  | opImm {op : Alu} (h : opcode w = 0b00100#5) (hf : funct3 w = op.funct3)
      (hsub : op ≠ .sub) (hshift : op.isShift = true → funct7 w = op.funct7) :
      Format w (.opImm op (rd w) (rs1 w) (immI w))
  | opReg {op : Alu} (h : opcode w = 0b01100#5) (hf : funct3 w = op.funct3)
      (hf7 : funct7 w = op.funct7) : Format w (.opReg op (rd w) (rs1 w) (rs2 w))
  | fence (h : opcode w = 0b00011#5) (hf : funct3 w = 0b000#3) : Format w (.fence (rd w))
  | fenceI (h : opcode w = 0b00011#5) (hf : funct3 w = 0b001#3) : Format w (.fenceI (rd w))
  | ecall (h : w = 0x00000073#32) : Format w .ecall
  | ebreak (h : w = 0x00100073#32) : Format w .ebreak
  | mret (h : w = 0x30200073#32) : Format w .mret
  | csr {op : CsrOp} {isImm : Bool} (h : opcode w = 0b11100#5)
      (hf : funct3 w = op.funct3 isImm) :
      Format w (.csr op isImm (rd w) (rs1 w) (csrNum w))

structure Encodes (w : BitVec 32) (i : Instr) : Prop where
  low : w.extractLsb 1 0 = 0b11#2
  format : Format w i

/-- The operation and the form of a CSR instruction, if the word is one. -/
def csrKind (w : BitVec 32) : Option (CsrOp × Bool) :=
  if w.extractLsb 1 0 = 0b11#2 ∧ opcode w = 0b11100#5 then CsrOp.ofFunct3 (funct3 w) else none

theorem csrKind_eq_some_iff {w : BitVec 32} {op : CsrOp} {isImm : Bool} :
    csrKind w = some (op, isImm) ↔ Encodes w (.csr op isImm (rd w) (rs1 w) (csrNum w)) := by
  rw [csrKind]
  constructor
  · intro h
    by_cases hw : w.extractLsb 1 0 = 0b11#2 ∧ opcode w = 0b11100#5
    · rw [if_pos hw, CsrOp.ofFunct3_eq_some_iff] at h
      exact ⟨hw.1, .csr hw.2 h⟩
    · rw [if_neg hw] at h
      exact absurd h.symm (Option.some_ne_none _)
  · intro h
    cases h.format with
    | csr ho hf => rw [if_pos ⟨h.low, ho⟩, CsrOp.ofFunct3_eq_some_iff.mpr hf]

/-! ## Classes of instructions -/

namespace Instr

def isSystem : Instr → Bool
  | ecall | ebreak | mret | csr .. => true
  | _ => false

def isLoad : Instr → Bool
  | load .. => true
  | _ => false

def isMemory : Instr → Bool
  | load .. | store .. => true
  | _ => false

/-- The jumps that write a link register. -/
def isJump : Instr → Bool
  | jal .. | jalr .. => true
  | _ => false

/-- The instructions of the integer datapath: neither memory accesses nor SYSTEM,
and a fence only with `x0` in its unused destination field. -/
def isCompute : Instr → Bool
  | load .. | store .. | ecall | ebreak | mret | csr .. => false
  | fence rd | fenceI rd => rd == 0#5
  | _ => true

def dest : Instr → Option (BitVec 5)
  | lui rd _ | auipc rd _ | jal rd _ | jalr rd _ _ | load _ rd _ _ | opImm _ rd _ _
  | opReg _ rd _ _ | csr _ _ rd _ _ => some rd
  | _ => none

end Instr

end Rv32
