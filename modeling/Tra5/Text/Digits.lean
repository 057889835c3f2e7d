/-
Numbers and lines in text.

`digits` is how a number is printed with a fixed width, and `Nat.toDigits` how it is printed
without one.  `number` reads both back.  `endLines` ends every line of a text, and `lines`
takes the text apart again.
-/
import Mathlib.Data.Nat.Digits.Defs
import Mathlib.Data.List.Induction

namespace Text

/-! ## Printed numbers -/

/-- The `w` lowest digits of a number to the base `b`, the highest first. -/
def digits (b : Nat) : Nat → Nat → List Char
  | 0, _ => []
  | w + 1, n => digits b w (n / b) ++ [Nat.digitChar (n % b)]

theorem length_digits (b w n : Nat) : (digits b w n).length = w := by
  induction w generalizing n with
  | zero => rfl
  | succ w ih => rw [digits, List.length_append, ih, List.length_singleton]

theorem digits_zero (b w : Nat) : digits b w 0 = List.replicate w '0' := by
  induction w with
  | zero => rfl
  | succ w ih =>
    rw [digits, Nat.zero_div, Nat.zero_mod, ih, List.replicate_succ']
    rfl

/-- A number that is printed with zeros up to a width that it does not exceed. -/
theorem leftpad_toDigits {b : Nat} (hb : 1 < b) {w n : Nat} (hw : 0 < w) (hn : n < b ^ w) :
    (b.toDigits n).leftpad w '0' = digits b w n := by
  induction w generalizing n with
  | zero => exact absurd hw (Nat.lt_irrefl 0)
  | succ w ih =>
    by_cases h : n < b
    · rw [Nat.toDigits_of_lt_base h, digits, Nat.div_eq_of_lt h, Nat.mod_eq_of_lt h, digits_zero]
      rfl
    · have hpos : 0 < w := by
        rcases Nat.eq_zero_or_pos w with rfl | hpos
        · rw [Nat.zero_add, Nat.pow_one] at hn
          exact absurd hn h
        · exact hpos
      have hdiv : n / b < b ^ w := by
        rw [Nat.pow_succ] at hn
        exact Nat.div_lt_of_lt_mul (Nat.mul_comm b _ ▸ hn)
      rw [Nat.toDigits_of_base_le hb (Nat.le_of_not_lt h), digits, ← ih hpos hdiv, List.leftpad,
        List.leftpad, List.length_append, List.length_singleton, Nat.add_sub_add_right,
        List.append_assoc]

/-! ## Reading a number -/

/-- The value of a digit to a base up to 16. -/
def digitValue (c : Char) : Option Nat :=
  if '0' ≤ c ∧ c ≤ '9' then some (c.toNat - '0'.toNat)
  else if 'a' ≤ c ∧ c ≤ 'f' then some (c.toNat - 'a'.toNat + 10)
  else none

def isDigit (c : Char) : Bool := (digitValue c).isSome

/-- The number to the base `b` that the digits stand for. -/
def number (b : Nat) (cs : List Char) : Option Nat :=
  cs.foldlM (fun n c => (digitValue c).map (n * b + ·)) 0

theorem digitValue_digitChar {n : Nat} (h : n < 16) : digitValue n.digitChar = some n := by
  revert n
  decide

theorem number_concat (b : Nat) (cs : List Char) (c : Char) :
    number b (cs ++ [c]) = (number b cs).bind (fun n => (digitValue c).map (n * b + ·)) := by
  rw [number, List.foldlM_append, ← number]
  cases number b cs with
  | none => rfl
  | some n =>
    show (digitValue c).map (n * b + ·) >>= pure = _
    exact bind_pure _

theorem number_concat_digitChar {b n m : Nat} {cs : List Char} (hcs : number b cs = some n)
    (hm : m < 16) : number b (cs ++ [m.digitChar]) = some (n * b + m) := by
  rw [number_concat, hcs, Option.bind_some, digitValue_digitChar hm]
  rfl

theorem number_digits {b : Nat} (hb : 0 < b) (h16 : b ≤ 16) {w n : Nat} (hn : n < b ^ w) :
    number b (digits b w n) = some n := by
  induction w generalizing n with
  | zero =>
    obtain rfl : n = 0 := by rw [Nat.pow_zero] at hn; omega
    rfl
  | succ w ih =>
    have hdiv : n / b < b ^ w := by
      rw [Nat.pow_succ] at hn
      exact Nat.div_lt_of_lt_mul (Nat.mul_comm b _ ▸ hn)
    have hmod := Nat.mod_lt n hb
    rw [digits, number_concat_digitChar (ih hdiv) (by omega), Nat.div_add_mod']

theorem number_toDigits {b : Nat} (hb : 1 < b) (h16 : b ≤ 16) (n : Nat) :
    number b (b.toDigits n) = some n := by
  induction n using Nat.strongRecOn with
  | ind n ih =>
    by_cases hn : n < b
    · rw [Nat.toDigits_of_lt_base hn, ← List.nil_append [n.digitChar],
        number_concat_digitChar (n := 0) rfl (by omega), Nat.zero_mul, Nat.zero_add]
    · have hpos : 0 < n := by omega
      have hmod := Nat.mod_lt n (Nat.zero_lt_of_lt hb)
      rw [Nat.toDigits_of_base_le hb (Nat.le_of_not_lt hn),
        number_concat_digitChar (ih (n / b) (Nat.div_lt_self hpos hb)) (by omega), Nat.div_add_mod']

theorem digits_inj {b : Nat} (hb : 0 < b) (h16 : b ≤ 16) {w n m : Nat} (hn : n < b ^ w)
    (hm : m < b ^ w) (h : digits b w n = digits b w m) : n = m := by
  have hnum := congrArg (number b) h
  rw [number_digits hb h16 hn, number_digits hb h16 hm] at hnum
  exact Option.some.inj hnum

/-- Fields of the same widths can be told apart. -/
theorem flatMap_eq_iff {α : Type} {f g : α → List Char} (hlen : ∀ a, (f a).length = (g a).length)
    (as : List α) : as.flatMap f = as.flatMap g ↔ ∀ a ∈ as, f a = g a := by
  induction as with
  | nil => simp
  | cons a as ih =>
    rw [List.flatMap_cons, List.flatMap_cons, List.forall_mem_cons, ← ih]
    constructor
    · exact fun h => List.append_inj h (hlen a)
    · rintro ⟨ha, has⟩
      rw [ha, has]

/-- What reads as a number has only digits. -/
theorem isDigit_of_number {b n : Nat} {cs : List Char} (h : number b cs = some n) :
    ∀ c ∈ cs, isDigit c = true := by
  induction cs using List.reverseRecOn generalizing n with
  | nil => exact fun c hc => absurd hc List.not_mem_nil
  | append_singleton cs d ih =>
    rw [number_concat] at h
    obtain ⟨m, hm, hd⟩ := Option.bind_eq_some_iff.mp h
    obtain ⟨v, hv, -⟩ := Option.map_eq_some_iff.mp hd
    intro c hc
    rcases List.mem_append.mp hc with hcs | hlast
    · exact ih hm c hcs
    · obtain rfl := List.mem_singleton.mp hlast
      rw [isDigit, hv]
      rfl

/-- The number at the beginning of a text, and the rest. -/
def takeNumber (b : Nat) (cs : List Char) : Option (Nat × List Char) :=
  (number b (cs.takeWhile isDigit)).map fun n => (n, cs.dropWhile isDigit)

theorem takeNumber_append {b n : Nat} {cs : List Char} (h : number b cs = some n) {c : Char}
    (hc : isDigit c = false) (rest : List Char) :
    takeNumber b (cs ++ c :: rest) = some (n, c :: rest) := by
  have hcs := isDigit_of_number h
  have hnot : ¬ isDigit c = true := by rw [hc]; exact Bool.false_ne_true
  rw [takeNumber, List.takeWhile_append_of_pos hcs, List.dropWhile_append_of_pos hcs,
    List.takeWhile_cons_of_neg hnot, List.dropWhile_cons_of_neg hnot, List.append_nil, h]
  rfl

/-! ## Lines -/

def endLines (ls : List (List Char)) : List Char := ls.flatMap (· ++ ['\n'])

def lines (cs : List Char) : List (List Char) := (cs.splitOn '\n').dropLast

theorem endLines_eq_intercalate (ls : List (List Char)) :
    endLines ls = ['\n'].intercalate (ls ++ [[]]) := by
  induction ls with
  | nil => rfl
  | cons l ls ih =>
    rw [endLines, List.flatMap_cons, ← endLines, ih]
    cases ls <;> simp [List.intercalate]

theorem lines_endLines {ls : List (List Char)} (h : ∀ l ∈ ls, '\n' ∉ l) :
    lines (endLines ls) = ls := by
  have hall : ∀ l ∈ ls ++ [[]], '\n' ∉ l := by
    intro l hl
    rcases List.mem_append.mp hl with hmem | hnil
    · exact h l hmem
    · obtain rfl := List.mem_singleton.mp hnil
      exact List.not_mem_nil
  rw [lines, endLines_eq_intercalate, List.splitOn_intercalate _ hall (by simp),
    List.dropLast_concat]

theorem endLines_append (ls ms : List (List Char)) :
    endLines (ls ++ ms) = endLines ls ++ endLines ms :=
  List.flatMap_append

end Text
