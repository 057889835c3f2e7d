/-
The units of the execute stage.

One 33-bit adder serves additions, subtractions and all comparisons, with the
extension bit chosen from the function code.  The results here say what it
computes for each of these uses, and that the shifter and the logic unit compute
the operations their function codes name.
-/
import Tra5.Rtl.Aslu
import Tra5.Isa.Exec
import Tra5.Isa.Word
import Mathlib.Tactic.IntervalCases

namespace Tra5
namespace T5Aslu

open Rv32

variable {X : DontCare} {d : Decode}

/-! ## The adder -/

theorem xadd_low_of_add (h : d.dsub = false) :
    (xadd d).extractLsb 31 0 = d.dop1 + d.dop2 := by
  rw [xadd, h, if_neg Bool.false_ne_true]
  exact Word.low_extend_add _ _ d.dop1 d.dop2

theorem xadd_low_of_sub (h : d.dsub = true) :
    (xadd d).extractLsb 31 0 = d.dop1 - d.dop2 := by
  rw [xadd, h, if_pos rfl]
  exact Word.low_extend_sub _ _ d.dop1 d.dop2

/-- The top bit of a difference is the order the function code asks for. -/
theorem xadd_top_of_sub (h : d.dsub = true) :
    (xadd d).getLsbD 32 = if unsignedOp d.dfn3 then d.dop1.ult d.dop2 else d.dop1.slt d.dop2 := by
  have htop : (xadd d).getLsbD 32 = (xadd d).msb := (BitVec.msb_eq_getLsbD_last _).symm
  rw [htop, xadd, h, if_pos rfl, wop1, wop2]
  cases unsignedOp d.dfn3 with
  | true => exact Word.msb_zeroExtend_sub d.dop1 d.dop2
  | false =>
    have hx : d.dop1.getLsbD 31 = d.dop1.msb := (BitVec.msb_eq_getLsbD_last _).symm
    have hy : d.dop2.getLsbD 31 = d.dop2.msb := (BitVec.msb_eq_getLsbD_last _).symm
    simp only [Bool.false_eq_true, if_false, hx, hy]
    exact Word.msb_signExtend_sub d.dop1 d.dop2

theorem xneq_of_sub (h : d.dsub = true) : xneq d = (d.dop1 != d.dop2) := by
  rw [xneq, xadd_low_of_sub h, orR, Bool.eq_iff_iff, bne_iff_ne, bne_iff_ne, ne_eq, ne_eq,
    BitVec.sub_eq_iff_eq_add, BitVec.zero_add]

/-! ## The comparator -/

theorem xcmp_eq_taken {op : Branch} (h : d.dsub = true) (hf : d.dfn3 = op.funct3) :
    xcmp d = op.taken d.dop1 d.dop2 := by
  have htop := xadd_top_of_sub h
  have hne := xneq_of_sub h
  rw [hf] at htop
  cases op <;> simp only [Branch.funct3] at hf htop <;> simp only [xcmp, hf, Branch.taken, hne]
  case beq => exact Bool.not_not _
  all_goals rw [htop]; rfl

theorem xset_of_sub (h : d.dsub = true) :
    xset d = if (if unsignedOp d.dfn3 then d.dop1.ult d.dop2 else d.dop1.slt d.dop2)
      then 1#32 else 0#32 := by
  rw [xset, xadd_top_of_sub h]
  generalize (if unsignedOp d.dfn3 then d.dop1.ult d.dop2 else d.dop1.slt d.dop2) = lt
  cases lt <;> rfl

/-! ## The shifter -/

theorem sraRow_eq {n : Nat} (hn : n < 32) (x : BitVec 32) :
    sraRow n x = x.sshiftRight n := by
  have hx : x.getLsbD 31 = x.msb := (BitVec.msb_eq_getLsbD_last _).symm
  have hlen : 31 - n + 1 = 32 - n := by omega
  rw [← Word.fill_append_extractLsb' hn x, sraRow, hx, BitVec.extractLsb, hlen]

theorem sra_eq {n : Nat} (hn : n < 32) (x : BitVec 32) : sra x n = x.sshiftRight n := by
  interval_cases n
  case «0» => exact (BitVec.sshiftRight_zero).symm
  all_goals exact sraRow_eq (by omega) x

theorem shamt_lt (d : Decode) : shamt d < 32 := (d.dop2.extractLsb 4 0).isLt

/-! ## The result multiplexer -/

/-- When the subtract flag and bit 30 of the word are those of the operation,
the result is its value. -/
theorem result_eq_eval {op : Alu} (hf : d.dfn3 = op.funct3)
    (hadd : op = .add → d.dsub = false)
    (hsub : op = .sub ∨ op = .slt ∨ op = .sltu → d.dsub = true)
    (hshift : op.isShift = true → d.dfn7 = op.funct7) :
    result X d = op.eval d.dop1 d.dop2 := by
  cases op <;> simp only [Alu.funct3] at hf <;> simp only [result, hf, Alu.eval]
  case add => exact xadd_low_of_add (hadd rfl)
  case sub => exact xadd_low_of_sub (hsub (Or.inl rfl))
  case slt => rw [xset_of_sub (hsub (Or.inr (Or.inl rfl))), hf]; rfl
  case sltu => rw [xset_of_sub (hsub (Or.inr (Or.inr rfl))), hf]; rfl
  case xor => rw [xlog, hf]; rfl
  case or => rw [xlog, hf]; rfl
  case and => rw [xlog, hf]; rfl
  case sll => rw [xshf, hf, hshift rfl]; rfl
  case srl => rw [xshf, hf, hshift rfl]; rfl
  case sra =>
    rw [xshf, hf, hshift rfl]
    exact sra_eq (shamt_lt d) d.dop1

/-! ## The branch decision -/

/-- The opcodes that `wbra` takes for branches and jumps. -/
def branchOpc (opc : BitVec 5) : Bool := opc.getLsbD 4 && opc.getLsbD 3 && !opc.getLsbD 2

theorem wbra_eq (d : Decode) : wbra d = (branchOpc d.dopc && (d.dopc.getLsbD 0 || xcmp d)) := rfl

theorem wbra_of_not_branchOpc {d : Decode} {o : BitVec 5} (ho : d.dopc = o)
    (h : branchOpc o = false) : wbra d = false := by
  rw [wbra_eq, ho, h, Bool.false_and]

theorem wbra_of_jump {d : Decode} {o : BitVec 5} (ho : d.dopc = o) (h : branchOpc o = true)
    (h0 : o.getLsbD 0 = true) : wbra d = true := by
  rw [wbra_eq, ho, h, h0, Bool.true_or, Bool.and_true]

theorem wbra_of_branch {d : Decode} (ho : d.dopc = 0b11000#5) : wbra d = xcmp d := by
  rw [wbra_eq, ho]
  exact Bool.true_and _

theorem balign_of_not {d : Decode} (hb : d.dbra = false) (hj : d.djmp = false) :
    balign d = false := by
  rw [balign, hb, hj, Bool.and_false, Bool.false_and, Bool.false_and, Bool.or_self]

end T5Aslu
end Tra5
