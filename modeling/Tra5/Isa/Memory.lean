/-
Byte memories.

A write is a set of addresses with a value for each.  After a sequence of writes
every address holds the value of the latest write that covers it, or what it held
before: `replay` computes the memory, `latest` says what is in it.  The loads and
stores of RV32I read and write up to four bytes, the lowest address first.
-/
import Tra5.Isa.Exec

/-! ## Writes -/

namespace Memory

structure Write (α β : Type) where
  covers : α → Bool
  value : α → β

variable {α β : Type}

def Write.apply (m : α → β) (w : Write α β) : α → β :=
  fun a => if w.covers a then w.value a else m a

theorem Write.apply_of_covers {w : Write α β} {a : α} (h : w.covers a = true) (m : α → β) :
    w.apply m a = w.value a := if_pos h

theorem Write.apply_of_not_covers {w : Write α β} {a : α} (h : w.covers a = false) (m : α → β) :
    w.apply m a = m a := if_neg (by rw [h]; exact Bool.false_ne_true)

/-- The memory after a sequence of writes. -/
def replay (m : α → β) (ws : List (Write α β)) : α → β := ws.foldl Write.apply m

/-- The value of the latest write to the address, or that of the initial memory. -/
def latest (m : α → β) (ws : List (Write α β)) (a : α) : β :=
  ((ws.reverse.find? (fun w => w.covers a)).map (fun w => w.value a)).getD (m a)

theorem replay_concat (m : α → β) (ws : List (Write α β)) (w : Write α β) :
    replay m (ws ++ [w]) = w.apply (replay m ws) := by
  rw [replay, List.foldl_append]
  rfl

theorem replay_eq_latest (m : α → β) (ws : List (Write α β)) (a : α) :
    replay m ws a = latest m ws a := by
  induction ws using List.reverseRecOn with
  | nil => rfl
  | append_singleton ws w ih =>
    rw [replay_concat, latest, List.reverse_concat, List.find?_cons]
    cases h : w.covers a with
    | true => exact Write.apply_of_covers h _
    | false => exact (Write.apply_of_not_covers h _).trans ih

/-- Two writes that cover the same of the addresses and agree on them. -/
theorem Write.apply_congr {m m' : α → β} {w w' : Write α β} {a : α} (hm : m a = m' a)
    (hc : w.covers a = w'.covers a) (hv : w'.covers a = true → w.value a = w'.value a) :
    w.apply m a = w'.apply m' a := by
  cases h : w'.covers a with
  | true => rw [apply_of_covers (hc.trans h), apply_of_covers h, hv h]
  | false => rw [apply_of_not_covers (hc.trans h), apply_of_not_covers h, hm]

/-! ## Runs with results -/

/-- A sequence of operations on a state, with the result of each. -/
def runAll {σ ι ο : Type} (f : σ → ι → σ × ο) : σ → List ι → σ × List ο
  | s, [] => (s, [])
  | s, i :: is => ((runAll f (f s i).1 is).1, (f s i).2 :: (runAll f (f s i).1 is).2)

/-- Operations that keep two states related and agree in their results do so in every
sequence. -/
theorem runAll_related {σ τ ι ο : Type} {f : σ → ι → σ × ο} {g : τ → ι → τ × ο}
    {R : σ → τ → Prop}
    (hstep : ∀ s t i, R s t → R (f s i).1 (g t i).1 ∧ (f s i).2 = (g t i).2) {s : σ} {t : τ}
    (h : R s t) (is : List ι) :
    R (runAll f s is).1 (runAll g t is).1 ∧ (runAll f s is).2 = (runAll g t is).2 := by
  induction is generalizing s t with
  | nil => exact ⟨h, rfl⟩
  | cons i is ih =>
    obtain ⟨hnext, hout⟩ := hstep s t i h
    obtain ⟨hlast, houts⟩ := ih hnext
    exact ⟨hlast, by rw [runAll, runAll, hout, houts]⟩

end Memory

namespace Rv32

open Memory

/-! ## Bytes of a word -/

def byteOf (v : BitVec 32) (k : Nat) : BitVec 8 := v.extractLsb' (8 * k) 8

theorem byteOf_append (v : BitVec 32) (k : Nat) :
    byteOf v (k + 1) ++ byteOf v k = v.extractLsb' (8 * k) 16 := by
  refine BitVec.eq_of_getLsbD_eq (fun i hi => ?_)
  rw [BitVec.getLsbD_append, byteOf, byteOf, BitVec.getLsbD_extractLsb',
    BitVec.getLsbD_extractLsb', BitVec.getLsbD_extractLsb']
  by_cases h : i < 8
  · simp [h, hi]
  · rw [show 8 * (k + 1) + (i - 8) = 8 * k + i by omega]
    simp [h, hi, show i - 8 < 8 by omega]

theorem bytes_append (v : BitVec 32) :
    byteOf v 3 ++ byteOf v 2 ++ (byteOf v 1 ++ byteOf v 0) = v := by
  rw [byteOf_append v 2, byteOf_append v 0, BitVec.extractLsb'_append_extractLsb']

/-! ## Loads and stores -/

/-- The bytes that a store of the value `v` writes. -/
def Store.write (op : Store) (adr : Nat) (v : BitVec 32) : Write Nat (BitVec 8) :=
  { covers := fun n => decide (adr ≤ n) && decide (n < adr + 2 ^ op.log2Size)
    value := fun n => byteOf v (n - adr) }

/-- The value that a load finds in the memory. -/
def Load.value (op : Load) (m : Nat → BitVec 8) (adr : Nat) : BitVec 32 :=
  match op with
  | .lb => (m adr).signExtend 32
  | .lbu => (m adr).setWidth 32
  | .lh => (m (adr + 1) ++ m adr).signExtend 32
  | .lhu => (m (adr + 1) ++ m adr).setWidth 32
  | .lw => m (adr + 3) ++ m (adr + 2) ++ (m (adr + 1) ++ m adr)

theorem byteOf_value (m : Nat → BitVec 8) (adr : Nat) {k : Nat} (hk : k < 4) :
    byteOf (Load.lw.value m adr) k = m (adr + k) := by
  apply BitVec.eq_of_getLsbD_eq
  intro i hi
  rw [byteOf, BitVec.getLsbD_extractLsb', Load.value]
  simp only [BitVec.getLsbD_append]
  rw [decide_eq_true hi, Bool.true_and]
  obtain rfl | rfl | rfl | rfl : k = 0 ∨ k = 1 ∨ k = 2 ∨ k = 3 := by omega
  · rw [if_pos (by omega), if_pos (by omega), Nat.mul_zero, Nat.zero_add, Nat.add_zero]
  · rw [if_pos (by omega), if_neg (by omega), show 8 * 1 + i - 8 = i by omega]
  · rw [if_neg (by omega), if_pos (by omega), show 8 * 2 + i - (8 + 8) = i by omega]
  · rw [if_neg (by omega), if_neg (by omega), show 8 * 3 + i - (8 + 8) - 8 = i by omega]

theorem Load.value_congr (op : Load) {m m' : Nat → BitVec 8} {adr : Nat}
    (h : ∀ n, adr ≤ n → n < adr + 2 ^ op.log2Size → m n = m' n) :
    op.value m adr = op.value m' adr := by
  cases op with
  | lb | lbu => rw [value, value, h adr (by omega) (by simp [log2Size])]
  | lh | lhu =>
    rw [value, value, h adr (by omega) (by simp [log2Size]),
      h (adr + 1) (by omega) (by simp [log2Size])]
  | lw =>
    rw [value, value, h adr (by omega) (by simp [log2Size]),
      h (adr + 1) (by omega) (by simp [log2Size]), h (adr + 2) (by omega) (by simp [log2Size]),
      h (adr + 3) (by omega) (by simp [log2Size])]

end Rv32
