/-
Facts about fixed-width words that a datapath needs: the adder with one extra
bit that serves as comparator, and the shift that copies the sign.
-/
import Mathlib.Data.BitVec
import Mathlib.Tactic.Cases

namespace Word

/-! ## An adder with an extension bit

The operands of width `n` are extended by one bit each.  The low bits of the sum
and of the difference are the sum and the difference of the operands, and the
top bit of the difference is the borrow, corrected by the two extension bits. -/

theorem toNat_ofBool_append (b : Bool) {n : Nat} (x : BitVec n) :
    (BitVec.ofBool b ++ x).toNat = b.toNat * 2 ^ n + x.toNat := by
  rw [BitVec.toNat_append, ← Nat.shiftLeft_add_eq_or_of_lt x.isLt, Nat.shiftLeft_eq,
    BitVec.toNat_ofBool]

theorem sub_mod_two_mul {p s t : Nat} (hs : s < 2 * p) (ht : t < 2 * p) :
    (2 * p - t + s) % (2 * p) = if s < t then 2 * p - (t - s) else s - t := by
  split
  · rw [Nat.mod_eq_of_lt (by omega)]
    omega
  · rw [Nat.mod_eq_sub_mod (by omega), Nat.mod_eq_of_lt (by omega)]
    omega

theorem msb_extend_sub {n : Nat} (a b : Bool) (x y : BitVec n) :
    (BitVec.ofBool a ++ x - (BitVec.ofBool b ++ y)).msb = ((a ^^ b) ^^ x.ult y) := by
  have hx := x.isLt
  have hy := y.isLt
  have hp : 2 ^ (1 + n) = 2 * 2 ^ n := by rw [Nat.pow_add, Nat.pow_one]
  rw [BitVec.msb_eq_decide, BitVec.toNat_sub, toNat_ofBool_append, toNat_ofBool_append,
    BitVec.ult_eq_decide, hp, Nat.add_sub_cancel_left]
  generalize 2 ^ n = p at *
  generalize x.toNat = u at *
  generalize y.toNat = v at *
  have ha : a.toNat * p + u < 2 * p := by cases a <;> simp <;> omega
  have hb : b.toNat * p + v < 2 * p := by cases b <;> simp <;> omega
  rw [sub_mod_two_mul ha hb]
  by_cases huv : u < v <;> cases a <;> cases b <;> simp [huv] <;>
    first | omega | (split <;> omega)

/-- With zero extension the top bit of the difference is the unsigned order. -/
theorem msb_zeroExtend_sub {n : Nat} (x y : BitVec n) :
    (BitVec.ofBool false ++ x - (BitVec.ofBool false ++ y)).msb = x.ult y := by
  rw [msb_extend_sub]
  simp

/-- With sign extension the top bit of the difference is the signed order. -/
theorem msb_signExtend_sub {n : Nat} (x y : BitVec n) :
    (BitVec.ofBool x.msb ++ x - (BitVec.ofBool y.msb ++ y)).msb = x.slt y := by
  rw [msb_extend_sub, BitVec.slt_eq_ult]

theorem extractLsb'_sub {n k : Nat} (x y : BitVec n) (h : k ≤ n) :
    (x - y).extractLsb' 0 k = x.extractLsb' 0 k - y.extractLsb' 0 k := by
  rw [← BitVec.setWidth_eq_extractLsb' h, ← BitVec.setWidth_eq_extractLsb' h,
    ← BitVec.setWidth_eq_extractLsb' h, BitVec.sub_eq_add_neg, BitVec.setWidth_add _ _ h,
    BitVec.setWidth_neg_of_le h, BitVec.sub_eq_add_neg]

theorem low_extend_add {n : Nat} (a b : Bool) (x y : BitVec n) :
    (BitVec.ofBool a ++ x + (BitVec.ofBool b ++ y)).extractLsb' 0 n = x + y := by
  rw [BitVec.extractLsb'_add (by omega), BitVec.extractLsb'_append_eq_right,
    BitVec.extractLsb'_append_eq_right]

theorem low_extend_sub {n : Nat} (a b : Bool) (x y : BitVec n) :
    (BitVec.ofBool a ++ x - (BitVec.ofBool b ++ y)).extractLsb' 0 n = x - y := by
  rw [extractLsb'_sub _ _ (by omega), BitVec.extractLsb'_append_eq_right,
    BitVec.extractLsb'_append_eq_right]

/-! ## Arithmetic shift -/

/-- Copies of the sign above the bits from `s` up are the arithmetic shift. -/
theorem fill_append_extractLsb' {n s : Nat} (hs : s < n) (x : BitVec n) :
    (BitVec.fill s x.msb ++ x.extractLsb' s (n - s)).setWidth n = x.sshiftRight s := by
  refine BitVec.eq_of_getLsbD_eq (fun i hi => ?_)
  rw [BitVec.getLsbD_setWidth, BitVec.getLsbD_append, BitVec.getLsbD_sshiftRight,
    BitVec.getLsbD_extractLsb', BitVec.getLsbD_fill]
  by_cases h : i < n - s
  · simp [h, hi, show s + i < n by omega, show ¬ n ≤ i by omega]
  · simp [h, hi, show ¬ s + i < n by omega, show ¬ n ≤ i by omega, show i - (n - s) < s by omega]

/-! ## Alignment -/

theorem extractLsb'_append_zero {n : Nat} (x : BitVec (n + 2)) (h : x.extractLsb' 0 2 = 0#2) :
    x.extractLsb' 2 n ++ 0#2 = x := by
  rw [← h, BitVec.extractLsb'_append_extractLsb']

end Word
