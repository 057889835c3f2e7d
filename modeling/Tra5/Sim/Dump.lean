/-
The signature that `t5_sim.cc` writes after the simulation.

Two nested loops over 32-bit counters that wrap: the outer one takes the blocks of 16
bytes from `signa` on, the inner one the words of a block from the highest down.  Reading
the array outside its words leaves the loops with an error, and so does nothing else.

A block that is not aligned to 16 bytes and reaches over the end of the array loses all
its words, since the inner loop is left at the highest one.  If the last block reaches
the end of the address space, the outer loop starts again at its beginning.
-/
import Tra5.Sim.Ram
import Tra5.Loops.While
import Tra5.Text.Digits

namespace Tra5

/-! ## The loops -/

/-- The variables of the loops and what they have written.  `xadr` is there while the
inner loop runs, and `line` is the part of `out` that has no `std::endl` yet. -/
structure Dump where
  adr : BitVec 32
  xadr : Option (BitVec 32)
  line : List Char
  out : List (List Char)
  /-- The addresses in the `ERR XADR` lines. -/
  cout : List (BitVec 32)
  deriving DecidableEq, Repr

namespace Dump

/-- How the loops can be left. -/
inductive Left where
  | closed (d : Dump)
  | outOfBounds (k : BitVec 32)
  deriving DecidableEq, Repr

/-- A word as the stream prints it with `setfill('0')`, `setw(8)` and `hex`. -/
def put (v : BitVec 32) : List Char := (Nat.toDigits 16 v.toNat).leftpad 8 '0'

def start (signa : BitVec 32) : Dump :=
  { adr := signa, xadr := none, line := [], out := [], cout := [] }

/-- The end of a round of the outer loop. -/
def endl (d : Dump) : Dump :=
  { d with adr := d.adr + 16#32, xadr := none, line := [], out := d.out ++ [d.line] }

/-- A round of the inner loop, or the head of the outer one. -/
def step (ram : Ram) (signo : BitVec 32) (d : Dump) : Except Left Dump :=
  match d.xadr with
  | none =>
    if d.adr < signo then .ok { d with xadr := some (d.adr + 13#32) }
    else .error (.closed d)
  | some xadr =>
    if d.adr < xadr then
      if ramSize ≤ xadr.toNat then .ok { d with cout := d.cout ++ [xadr] }.endl
      else if (xadr >>> 2).toNat < 2 ^ 18 then
        .ok { d with line := d.line ++ put (ram.word (xadr >>> 2)), xadr := some (xadr - 4#32) }
      else .error (.outOfBounds (xadr >>> 2))
    else .ok d.endl

variable {ram : Ram} {signa signo : BitVec 32} {d : Dump}

theorem step_of_less (hx : d.xadr = none) (h : d.adr < signo) :
    d.step ram signo = .ok { d with xadr := some (d.adr + 13#32) } := by
  rw [step, hx]
  exact if_pos h

theorem step_of_done (hx : d.xadr = none) (h : ¬ d.adr < signo) :
    d.step ram signo = .error (.closed d) := by
  rw [step, hx]
  exact if_neg h

theorem step_of_word {xadr : BitVec 32} (hx : d.xadr = some xadr) (h : d.adr < xadr)
    (hram : xadr.toNat < ramSize) :
    d.step ram signo =
      .ok { d with line := d.line ++ put (ram.word (xadr >>> 2)), xadr := some (xadr - 4#32) } := by
  have hk : (xadr >>> 2).toNat < 2 ^ 18 := by
    rw [BitVec.toNat_ushiftRight, Nat.shiftRight_eq_div_pow]
    rw [ramSize] at hram
    omega
  rw [step, hx]
  exact (if_pos h).trans ((if_neg (Nat.not_le.mpr hram)).trans (if_pos hk))

theorem step_of_beyond {xadr : BitVec 32} (hx : d.xadr = some xadr) (h : d.adr < xadr)
    (hram : ramSize ≤ xadr.toNat) :
    d.step ram signo = .ok { d with cout := d.cout ++ [xadr] }.endl := by
  rw [step, hx]
  exact (if_pos h).trans (if_pos hram)

theorem step_of_below {xadr : BitVec 32} (hx : d.xadr = some xadr) (h : ¬ d.adr < xadr) :
    d.step ram signo = .ok d.endl := by
  rw [step, hx]
  exact if_neg h

/-- A round stays at its block or goes on to the next one, and the loops are left at the
head of the outer one. -/
theorem step_cases (ram : Ram) (signo : BitVec 32) (d : Dump) :
    (∃ d', d.step ram signo = .ok d' ∧ (d'.adr = d.adr ∨ d'.adr = d.adr + 16#32)) ∨
      (d.step ram signo = .error (.closed d) ∧ ¬ d.adr < signo) := by
  cases hx : d.xadr with
  | none =>
    by_cases h : d.adr < signo
    · exact .inl ⟨_, step_of_less hx h, .inl rfl⟩
    · exact .inr ⟨step_of_done hx h, h⟩
  | some xadr =>
    by_cases h : d.adr < xadr
    · by_cases hram : ramSize ≤ xadr.toNat
      · exact .inl ⟨_, step_of_beyond hx h hram, .inr rfl⟩
      · exact .inl ⟨_, step_of_word hx h (Nat.lt_of_not_le hram), .inl rfl⟩
    · exact .inl ⟨_, step_of_below hx h, .inr rfl⟩

theorem not_exits_outOfBounds (ram : Ram) (signo : BitVec 32) (d : Dump) (k : BitVec 32) :
    ¬ Loop.Exits (step ram signo) d (.outOfBounds k) := by
  intro h
  obtain ⟨e, he⟩ := h.exists_error
  rcases step_cases ram signo e with ⟨e', hok, -⟩ | ⟨herr, -⟩
  · rw [hok] at he
    cases he
  · rw [herr] at he
    cases he

/-! ## One block -/

theorem toNat_add_ofNat {a : BitVec 32} {c : Nat} (h : a.toNat + c < 2 ^ 32) :
    (a + BitVec.ofNat 32 c).toNat = a.toNat + c := by
  rw [BitVec.toNat_add, BitVec.toNat_ofNat]
  omega

/-- The words with the numbers `js` of the block at address `n`. -/
def words (ram : Ram) (n : Nat) (js : List Nat) : List Char :=
  js.flatMap (fun j => Text.digits 16 8 (ram.word (BitVec.ofNat 32 (n / 4 + j))).toNat)

theorem put_eq (v : BitVec 32) : put v = Text.digits 16 8 v.toNat :=
  Text.leftpad_toDigits (by decide) (by decide) v.isLt

theorem step_of_number {k : Nat} (hal : d.adr.toNat % 4 = 0)
    (hx : d.xadr = some (d.adr + BitVec.ofNat 32 (4 * k + 1)))
    (hram : d.adr.toNat + (4 * k + 1) < ramSize) :
    d.step ram signo =
      .ok { d with line := d.line ++ words ram d.adr.toNat [k]
                   xadr := some (d.adr + BitVec.ofNat 32 (4 * k + 1) - 4#32) } := by
  have hnat : (d.adr + BitVec.ofNat 32 (4 * k + 1)).toNat = d.adr.toNat + (4 * k + 1) := by
    rw [ramSize] at hram
    exact toNat_add_ofNat (by omega)
  have hless : d.adr < d.adr + BitVec.ofNat 32 (4 * k + 1) := by
    rw [BitVec.lt_def, hnat]
    omega
  have hword : (d.adr + BitVec.ofNat 32 (4 * k + 1)) >>> 2 =
      BitVec.ofNat 32 (d.adr.toNat / 4 + k) := by
    rw [← BitVec.toNat_inj, BitVec.toNat_ushiftRight, Nat.shiftRight_eq_div_pow, hnat,
      BitVec.toNat_ofNat]
    rw [ramSize] at hram
    omega
  rw [step_of_word hx hless (by rw [hnat]; exact hram), hword, put_eq, words,
    List.flatMap_singleton]

/-- The inner loop reads the words of the block from number `k` down to the first. -/
theorem steps_words (ram : Ram) (signo : BitVec 32) {k : Nat} (hal : d.adr.toNat % 4 = 0)
    (hx : d.xadr = some (d.adr + BitVec.ofNat 32 (4 * k + 1)))
    (hram : d.adr.toNat + (4 * k + 1) < ramSize) :
    Loop.steps (step ram signo) (k + 1) d =
      some { d with xadr := some (d.adr - 3#32)
                    line := d.line ++ words ram d.adr.toNat (List.range (k + 1)).reverse } := by
  induction k generalizing d with
  | zero =>
    have hdown : d.adr + BitVec.ofNat 32 1 - 4#32 = d.adr - 3#32 := by bv_omega
    rw [Loop.steps_succ_of_ok (step_of_number hal hx hram), Nat.mul_zero, Nat.zero_add, hdown]
    rfl
  | succ k ih =>
    have hdown : d.adr + BitVec.ofNat 32 (4 * (k + 1) + 1) - 4#32 =
        d.adr + BitVec.ofNat 32 (4 * k + 1) := by
      rw [show 4 * (k + 1) + 1 = 4 * k + 1 + 4 by omega, BitVec.ofNat_add, ← BitVec.add_assoc]
      exact BitVec.add_sub_cancel _ _
    have hrange : (List.range (k + 1 + 1)).reverse = (k + 1) :: (List.range (k + 1)).reverse := by
      rw [List.range_succ, List.reverse_append]
      rfl
    rw [Loop.steps_succ_of_ok (step_of_number hal hx hram), hdown, hrange]
    let e : Dump := { d with xadr := some (d.adr + BitVec.ofNat 32 (4 * k + 1))
                             line := d.line ++ words ram d.adr.toNat [k + 1] }
    refine (ih (d := e) hal rfl (show d.adr.toNat + (4 * k + 1) < ramSize by omega)).trans ?_
    simp only [e, words, List.flatMap_cons, List.flatMap_nil, List.append_nil, List.append_assoc]

/-- What the inner loop writes for the block at address `n`. -/
def readout (ram : Ram) (n : Nat) : List Char :=
  if n + 13 < ramSize then words ram n [3, 2, 1, 0] else []

/-- The state at the head of the outer loop after the rounds that wrote `out`. -/
structure AtHead (d : Dump) (n : Nat) (out : List (List Char)) : Prop where
  adr : d.adr = BitVec.ofNat 32 n
  xadr : d.xadr = none
  line : d.line = []
  out : d.out = out

/-- The end of the inner loop.  At address 0 its variable wraps, which is noticed as an
address beyond the array. -/
theorem steps_endl (ram : Ram) (signo : BitVec 32) {x : BitVec 32} (hx : d.xadr = some x)
    (h : d.adr < x → ramSize ≤ x.toNat) {n : Nat} {out : List (List Char)}
    (hadr : d.adr = BitVec.ofNat 32 n) (hout : d.out = out) :
    ∃ d', Loop.steps (step ram signo) 1 d = some d' ∧ AtHead d' (n + 16) (out ++ [d.line]) := by
  have hnext : d.adr + 16#32 = BitVec.ofNat 32 (n + 16) := by rw [hadr, BitVec.ofNat_add]
  by_cases hless : d.adr < x
  · exact ⟨_, Loop.steps_succ_of_ok (step_of_beyond hx hless (h hless)) 0, hnext, rfl, rfl,
      congrArg (· ++ _) hout⟩
  · exact ⟨_, Loop.steps_succ_of_ok (step_of_below hx hless) 0, hnext, rfl, rfl,
      congrArg (· ++ _) hout⟩

/-- A round of the outer loop. -/
theorem AtHead.block (ram : Ram) {n : Nat} {out : List (List Char)} (h : AtHead d n out)
    (hn : n < 2 ^ 32) (hal : n % 4 = 0) (hlt : n < signo.toNat) :
    ∃ m d', Loop.steps (step ram signo) m d = some d' ∧
      AtHead d' (n + 16) (out ++ [readout ram n]) := by
  have hadr : d.adr.toNat = n := by rw [h.adr, BitVec.toNat_ofNat, Nat.mod_eq_of_lt hn]
  have hless : d.adr < signo := by rw [BitVec.lt_def, hadr]; exact hlt
  let e : Dump := { d with xadr := some (d.adr + 13#32) }
  have henter : Loop.steps (step ram signo) 1 d = some e :=
    Loop.steps_succ_of_ok (step_of_less h.xadr hless) 0
  rw [readout]
  split
  · next hin =>
    have hwords := steps_words ram signo (k := 3) (d := e) (by rw [hadr]; exact hal) rfl
      (by rw [hadr]; exact hin)
    have hdown (hx : d.adr < d.adr - 3#32) : ramSize ≤ (d.adr - 3#32).toNat := by
      rw [BitVec.lt_def, BitVec.toNat_sub, hadr, BitVec.toNat_ofNat] at hx
      rw [BitVec.toNat_sub, hadr, BitVec.toNat_ofNat, ramSize]
      rw [ramSize] at hin
      omega
    obtain ⟨d', hend, hhead⟩ := steps_endl ram signo
      (d := { e with xadr := some (d.adr - 3#32), line := d.line ++ words ram d.adr.toNat _ })
      rfl hdown h.adr h.out
    rw [h.line, hadr] at hhead
    exact ⟨_, d', Loop.steps_add.mpr ⟨e, henter, Loop.steps_add.mpr ⟨_, hwords, hend⟩⟩, hhead⟩
  · next hout =>
    have hup (hx : d.adr < d.adr + 13#32) : ramSize ≤ (d.adr + 13#32).toNat := by
      rw [BitVec.lt_def, BitVec.toNat_add, hadr, BitVec.toNat_ofNat] at hx
      rw [BitVec.toNat_add, hadr, BitVec.toNat_ofNat]
      rw [ramSize] at hout ⊢
      omega
    obtain ⟨d', hend, hhead⟩ := steps_endl ram signo (d := e) rfl hup h.adr h.out
    rw [show e.line = [] from h.line] at hhead
    exact ⟨_, d', Loop.steps_add.mpr ⟨e, henter, hend⟩, hhead⟩

/-! ## All blocks -/

/-- The addresses of the started blocks of 16 bytes of an interval. -/
def blocks (a o : Nat) : List Nat := (List.range ((o - a + 15) / 16)).map (fun k => a + 16 * k)

theorem mem_blocks {a o n : Nat} : n ∈ blocks a o ↔ n < o ∧ ∃ k, n = a + 16 * k := by
  rw [blocks, List.mem_map]
  constructor
  · rintro ⟨k, hk, rfl⟩
    rw [List.mem_range] at hk
    exact ⟨by omega, k, rfl⟩
  · rintro ⟨hn, k, rfl⟩
    exact ⟨k, List.mem_range.mpr (by omega), rfl⟩

/-- The first `k` blocks. -/
theorem steps_blocks (ram : Ram) (signo : BitVec 32) (hal : signa.toNat % 4 = 0) {k : Nat}
    (hk : k ≤ (signo.toNat - signa.toNat + 15) / 16) :
    ∃ m d, Loop.steps (step ram signo) m (start signa) = some d ∧
      AtHead d (signa.toNat + 16 * k)
        ((List.range k).map (fun j => readout ram (signa.toNat + 16 * j))) := by
  induction k with
  | zero => exact ⟨0, _, rfl, (BitVec.ofNat_toNat 32 signa).symm ▸ rfl, rfl, rfl, rfl⟩
  | succ k ih =>
    obtain ⟨m, d, hm, hhead⟩ := ih (by omega)
    have hlt : signa.toNat + 16 * k < signo.toNat := by omega
    obtain ⟨m', d', hm', hhead'⟩ :=
      hhead.block ram (Nat.lt_trans hlt signo.isLt) (by omega) hlt
    refine ⟨m + m', d', Loop.steps_add.mpr ⟨d, hm, hm'⟩, ?_⟩
    rw [List.range_succ, List.map_append]
    exact hhead'

/-- The loops are left if no block reaches the end of the address space. -/
theorem exits_of_end (ram : Ram) (hle : signa ≤ signo) (hal : signa.toNat % 4 = 0)
    (hend : signo.toNat ≤ 2 ^ 32 - 16 + signa.toNat % 16) :
    ∃ d, Loop.Exits (step ram signo) (start signa) (.closed d) ∧
      d.out = (blocks signa.toNat signo.toNat).map (readout ram) := by
  obtain ⟨m, d, hm, hhead⟩ := steps_blocks ram signo hal (Nat.le_refl _)
  rw [BitVec.le_def] at hle
  have hdone : ¬ d.adr < signo := by
    rw [BitVec.lt_def, hhead.adr, BitVec.toNat_ofNat]
    omega
  refine ⟨d, (Loop.exits_of_error (step_of_done hhead.xadr hdone)).of_steps hm, ?_⟩
  rw [hhead.out, blocks, List.map_map]
  rfl

/-- Otherwise they start again at the beginning of the address space. -/
theorem not_exits_of_wrap (ram : Ram) (hwrap : 2 ^ 32 - 16 + signa.toNat % 16 < signo.toNat)
    (l : Left) : ¬ Loop.Exits (step ram signo) (start signa) l := by
  refine Loop.not_exits_of_invariant (P := fun d => d.adr.toNat % 16 = signa.toNat % 16) ?_ rfl l
  intro d hd
  rcases step_cases ram signo d with ⟨d', hok, hadr⟩ | ⟨-, hdone⟩
  · refine ⟨d', hok, ?_⟩
    rcases hadr with hadr | hadr
    · rw [hadr, hd]
    · rw [hadr, BitVec.toNat_add, BitVec.toNat_ofNat, ← hd]
      omega
  · have hlt := d.adr.isLt
    rw [BitVec.lt_def] at hdone
    omega

/-! ## The signature -/

/-- The words of the block at address `n` that are in the array, from the highest down. -/
def lineOf (ram : Ram) (n : Nat) : List Char :=
  words ram n ([3, 2, 1, 0].filter (fun j => n + 4 * j < ramSize))

theorem length_words (ram : Ram) (n : Nat) (js : List Nat) :
    (words ram n js).length = 8 * js.length := by
  induction js with
  | nil => rfl
  | cons j js ih =>
    rw [words, List.flatMap_cons, List.length_append, Text.length_digits, ← words, ih,
      List.length_cons]
    omega

/-- The inner loop writes the line unless the block reaches over the end of the array. -/
theorem readout_eq_iff (ram : Ram) {n : Nat} (hal : n % 4 = 0) :
    readout ram n = lineOf ram n ↔ n + 13 < ramSize ∨ ramSize ≤ n := by
  rw [readout, lineOf]
  split
  · next hin =>
    refine iff_of_true (congrArg (words ram n) (List.filter_eq_self.mpr ?_).symm) (.inl hin)
    intro j hj
    rw [decide_eq_true_eq]
    simp only [List.mem_cons, List.not_mem_nil, or_false] at hj
    omega
  · next hout =>
    constructor
    · intro h
      have hlen := congrArg List.length h
      rw [length_words, List.length_nil, eq_comm, Nat.mul_eq_zero] at hlen
      have hnil := List.eq_nil_of_length_eq_zero (hlen.resolve_left (by decide))
      have hlast := List.filter_eq_nil_iff.mp hnil 0 (by decide)
      rw [decide_eq_true_eq] at hlast
      exact .inr (by omega)
    · intro h
      have hram := h.resolve_left hout
      rw [List.filter_eq_nil_iff.mpr (fun j _ => by rw [decide_eq_true_eq]; omega)]
      rfl

/-- The only block that can reach over the end of the array starts in its last 16 bytes. -/
theorem readout_blocks_iff (ram : Ram) {a o : Nat} (hal : a % 4 = 0) :
    (∀ n ∈ blocks a o, readout ram n = lineOf ram n) ↔
      a % 16 = 0 ∨ ramSize ≤ a ∨ o ≤ ramSize - 16 + a % 16 := by
  have hstraddle : (∀ n ∈ blocks a o, readout ram n = lineOf ram n) ↔
      ∀ k, a + 16 * k < o → a + 16 * k + 13 < ramSize ∨ ramSize ≤ a + 16 * k := by
    constructor
    · intro h k hk
      exact (readout_eq_iff ram (by omega)).mp (h _ (mem_blocks.mpr ⟨hk, k, rfl⟩))
    · intro h n hn
      obtain ⟨hlt, k, rfl⟩ := mem_blocks.mp hn
      exact (readout_eq_iff ram (by omega)).mpr (h k hlt)
  rw [hstraddle, ramSize]
  constructor
  · intro h
    by_contra hno
    have := h ((2 ^ 20 - 16 + a % 16 - a) / 16)
    omega
  · intro h k hk
    omega

/-- The dump never indexes outside the array.  It terminates and writes the signature
exactly if no block reaches the end of the address space and none reaches over the end of
the array. -/
theorem signature_dump_iff (ram : Ram) {signa signo : BitVec 32} (hle : signa ≤ signo)
    (hal : signa.toNat % 4 = 0) :
    (∀ k, ¬ Loop.Exits (step ram signo) (start signa) (.outOfBounds k)) ∧
      ((∃ d, Loop.Exits (step ram signo) (start signa) (.closed d) ∧
          d.out = (blocks signa.toNat signo.toNat).map (lineOf ram)) ↔
        signo.toNat ≤ 2 ^ 32 - 16 + signa.toNat % 16 ∧
          (signa.toNat % 16 = 0 ∨ ramSize ≤ signa.toNat ∨
            signo.toNat ≤ ramSize - 16 + signa.toNat % 16)) := by
  refine ⟨not_exits_outOfBounds ram signo (start signa), ?_⟩
  by_cases hend : signo.toNat ≤ 2 ^ 32 - 16 + signa.toNat % 16
  · obtain ⟨d, hexits, hout⟩ := exits_of_end ram hle hal hend
    have hlines : (∃ d, Loop.Exits (step ram signo) (start signa) (.closed d) ∧
        d.out = (blocks signa.toNat signo.toNat).map (lineOf ram)) ↔
          ∀ n ∈ blocks signa.toNat signo.toNat, readout ram n = lineOf ram n := by
      rw [← List.map_inj_left, ← hout]
      constructor
      · rintro ⟨d', hexits', hout'⟩
        cases hexits.unique hexits'
        exact hout'
      · exact fun h => ⟨d, hexits, h⟩
    rw [hlines, readout_blocks_iff ram hal, and_iff_right hend]
  · refine iff_of_false ?_ (fun h => hend h.1)
    rintro ⟨d, hexits, -⟩
    exact not_exits_of_wrap ram (Nat.lt_of_not_le hend) _ hexits

/-- Two blocks of an array whose words hold their numbers. -/
theorem signature_dump_two_blocks :
    let ram : Ram := fun k => k
    (∃ d, Loop.Exits (step ram 0x30#32) (start 0x10#32) (.closed d) ∧
      d.out = (blocks 0x10 0x30).map (lineOf ram)) ∧
    (blocks 0x10 0x30).map (lineOf ram) =
      ["00000007000000060000000500000004".toList, "0000000b0000000a0000000900000008".toList] := by
  intro ram
  exact ⟨(signature_dump_iff ram (by decide) (by decide)).2.mpr (by decide), by decide +kernel⟩

/-- The block at 0xFFFF4 has three words in the array and its line is empty.  The interval
from 0 to the last address is dumped for ever. -/
theorem signature_dump_loses_words :
    let ram : Ram := fun k => k
    (∃ d, Loop.Exits (step ram 0x100000#32) (start 0xFFFF4#32) (.closed d) ∧ d.out = [[]]) ∧
    (blocks 0xFFFF4 0x100000).map (lineOf ram) = ["0003ffff0003fffe0003fffd".toList] ∧
    ∀ l, ¬ Loop.Exits (step ram 0xFFFFFFFF#32) (start 0#32) l := by
  intro ram
  refine ⟨⟨{ start 0x100004#32 with out := [[]], cout := [0x100001#32] }, ⟨4, ?_⟩, rfl⟩, ?_,
    not_exits_of_wrap ram (by decide)⟩
  · decide +kernel
  · decide +kernel

end Dump

end Tra5
