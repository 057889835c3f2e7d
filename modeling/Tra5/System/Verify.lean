/-
From the file of a test to the verdict.

The simulator reads the file into its array, the core runs it, the simulator writes the
signature, and `verify.sh` has `diff` compare the signature with a reference.  `diff` is not
part of the repository: it is a parameter here, with what its option `--strip-trailing-cr`
says of it.  For a test that comes to its `ecall` the verdict then says exactly whether the
machine of one hart has left in memory what the reference lists.
-/
import Tra5.System.Compliance
import Mathlib.Data.List.Forall2

namespace Tra5

open Rv32

/-! ## The file -/

/-- `ram[k]` after the file was read.  `resize` continues the file with zeros. -/
def fileWord (bin : List (BitVec 8)) (k : Nat) : BitVec 32 :=
  bin.getD (4 * k + 3) 0#8 ++ bin.getD (4 * k + 2) 0#8 ++
    (bin.getD (4 * k + 1) 0#8 ++ bin.getD (4 * k) 0#8)

def Ram.ofFile (bin : List (BitVec 8)) : Ram := fun k => fileWord bin k.toNat

/-- The variables of `main` when the loop is entered, with `iadr` at zero. -/
structure T5Sim.Started (bin : List (BitVec 8)) (s : T5Sim) : Prop where
  ram : ∀ k < 2 ^ 18, s.ram.word (BitVec.ofNat 32 k) = fileWord bin k
  iadr : s.iadr = 0#32
  mtime : s.mtime = 0#32
  mtimecmp : s.mtimecmp = 0xFFFFFFFF#32
  cerr : s.cerr = []

/-- The memory and the devices of the machine, with the file in memory. -/
def Bus.ofFile (bin : List (BitVec 8)) : Bus :=
  { mem := fun n => bin.getD n 0#8, mtime := 0#32, mtimecmp := 0xFFFFFFFF#32, console := [] }

theorem T5Sim.Started.sees {bin : List (BitVec 8)} {s : T5Sim} (h : T5Sim.Started bin s) :
    WorldSees s.world (Bus.ofFile bin) := by
  refine ⟨fun n hn => ?_, h.mtime, h.mtimecmp, h.cerr⟩
  have hword : s.ram.word (BitVec.ofNat 32 (n / 4)) =
      Load.lw.value (Bus.ofFile bin).mem (4 * (n / 4)) :=
    h.ram (n / 4) (by rw [ramSize] at hn; omega)
  show s.ram.byte n = _
  rw [Ram.byte, hword, byteOf_value _ _ (Nat.mod_lt n (by decide)), Nat.div_add_mod]

theorem T5Sim.started_entered (bin : List (BitVec 8)) :
    T5Sim.Started bin (T5Sim.entered (Ram.ofFile bin)) := by
  refine ⟨fun k hk => ?_, rfl, rfl, rfl, rfl⟩
  show fileWord bin (BitVec.ofNat 32 k).toNat = _
  rw [BitVec.toNat_ofNat, Nat.mod_eq_of_lt (by omega)]

/-! ## The signature -/

theorem toNat_lt_hex (v : BitVec 32) : v.toNat < 16 ^ 8 := v.isLt

theorem memoryLine_eq_iff (m m' : Nat → BitVec 8) (n : Nat) :
    memoryLine m n = memoryLine m' n ↔ ∀ j < 16, m (n + j) = m' (n + j) := by
  have hlen (j : Nat) : (Text.digits 16 8 (Load.lw.value m (n + 4 * j)).toNat).length =
      (Text.digits 16 8 (Load.lw.value m' (n + 4 * j)).toNat).length := by
    rw [Text.length_digits, Text.length_digits]
  rw [memoryLine, memoryLine, Text.flatMap_eq_iff hlen]
  constructor
  · intro h j hj
    have hmem : j / 4 ∈ [3, 2, 1, 0] := by
      simp only [List.mem_cons, List.not_mem_nil, or_false]
      omega
    have hword : Load.lw.value m (n + 4 * (j / 4)) = Load.lw.value m' (n + 4 * (j / 4)) :=
      BitVec.toNat_inj.mp (Text.digits_inj (by decide) (by decide) (toNat_lt_hex _)
        (toNat_lt_hex _) (h (j / 4) hmem))
    have hbyte := congrArg (byteOf · (j % 4)) hword
    have hlt : j % 4 < 4 := Nat.mod_lt j (by decide)
    simp only [byteOf_value _ _ hlt] at hbyte
    rwa [show n + 4 * (j / 4) + j % 4 = n + j by omega] at hbyte
  · intro h j hj
    have hj4 : j < 4 := by
      simp only [List.mem_cons, List.not_mem_nil, or_false] at hj
      omega
    have hvalue : Load.lw.value m (n + 4 * j) = Load.lw.value m' (n + 4 * j) := by
      refine Load.lw.value_congr fun k h1 h2 => ?_
      have hlog : Load.lw.log2Size = 2 := rfl
      rw [hlog] at h2
      have hk := h (k - n) (by omega)
      rwa [show n + (k - n) = k by omega] at hk
    rw [hvalue]

theorem isDigit_of_mem_memoryLine {m : Nat → BitVec 8} {n : Nat} {c : Char}
    (h : c ∈ memoryLine m n) : Text.isDigit c = true := by
  obtain ⟨j, -, hc⟩ := List.mem_flatMap.mp h
  exact Text.isDigit_of_number (Text.number_digits (by decide) (by decide) (toNat_lt_hex _)) c hc

theorem cr_not_mem_memoryLine (m : Nat → BitVec 8) (n : Nat) : '\r' ∉ memoryLine m n :=
  fun h => absurd (isDigit_of_mem_memoryLine h) (by decide)

/-! ## The verdict -/

/-- The line `r` is `l`, or `l` with a carriage return at its end. -/
def UpToCr (r l : List Char) : Prop := '\r' ∉ l ∧ (r = l ∨ r = l ++ ['\r'])

theorem rightUnique_upToCr : Relator.RightUnique UpToCr := by
  rintro r l l' ⟨hl, h⟩ ⟨hl', h'⟩
  rcases h with rfl | rfl
  · rcases h' with rfl | rfl
    · rfl
    · exact absurd (List.mem_append_right _ (List.mem_singleton_self _)) hl
  · rcases h' with rfl | h'
    · exact absurd (List.mem_append_right _ (List.mem_singleton_self _)) hl'
    · exact List.append_cancel_right h'

/-- What `verify.sh` expects of `diff --strip-trailing-cr`, run on a reference and on a file
without carriage returns: it finds no difference exactly if they have the same lines, up to
a carriage return at the end of a line of the reference. -/
structure StripsTrailingCr (diff : List (List Char) → List (List Char) → Bool) : Prop where
  accepts_iff : ∀ reference out, (∀ l ∈ out, '\r' ∉ l) →
    (diff reference out = true ↔ List.Forall₂ UpToCr reference out)

/-- The reference is the signature of the memory `expected`, whatever its line ends are. -/
def ListsMemory (reference : List (List Char)) (a o : Nat) (expected : Nat → BitVec 8) : Prop :=
  List.Forall₂ UpToCr reference ((Dump.blocks a o).map (memoryLine expected))

theorem StripsTrailingCr.verdict {diff : List (List Char) → List (List Char) → Bool}
    (hdiff : StripsTrailingCr diff) {reference : List (List Char)} {a o : Nat}
    {expected : Nat → BitVec 8} (h : ListsMemory reference a o expected) (m : Nat → BitVec 8) :
    diff reference ((Dump.blocks a o).map (memoryLine m)) = true ↔
      ∀ n ∈ Dump.blocks a o, ∀ j < 16, expected (n + j) = m (n + j) := by
  have hcr : ∀ l ∈ (Dump.blocks a o).map (memoryLine m), '\r' ∉ l := by
    intro l hl
    obtain ⟨n, -, rfl⟩ := List.mem_map.mp hl
    exact cr_not_mem_memoryLine m n
  have hlines : diff reference ((Dump.blocks a o).map (memoryLine m)) = true ↔
      (Dump.blocks a o).map (memoryLine expected) = (Dump.blocks a o).map (memoryLine m) := by
    rw [hdiff.accepts_iff _ _ hcr]
    constructor
    · exact fun hm => rightUnique_upToCr.forall₂ h hm
    · exact fun hm => hm ▸ h
  rw [hlines, List.map_inj_left]
  constructor
  · intro hall n hn
    exact (memoryLine_eq_iff expected m n).mp (hall n hn)
  · intro hall n hn
    exact (memoryLine_eq_iff expected m n).mpr (hall n hn)

/-- A test of the compliance suite, from its file to the verdict.  If hart 0, behind the gate,
comes to an `ecall` with `mtvec` at the handler of the test environment, then the simulation
ends at the store of the handler, the signature is written, and `verify.sh` accepts it exactly
if every byte of its blocks is the one of the reference. -/
theorem verdict_of_test (X : DontCare) {diff : List (List Char) → List (List Char) → Bool}
    (hdiff : StripsTrailingCr diff) {bin : List (BitVec 8)} {s₀ b : T5Sim}
    (hs : T5Sim.Started bin s₀) (hb : T5Sim.Boots X s₀ b) (regs : BitVec 2 → Regs)
    (hregs : BootRegs b.cpu (Soc.boot regs (Bus.ofFile bin))) (g : Gate)
    (hg : g.Guards (Bus.ofFile bin)) (n : Nat)
    (hfit : ∀ k < n, (Solo.step^[k] (Solo.boot (regs 0#2) (Bus.ofFile bin))).fit g = true)
    {u : Solo} (hu : Solo.step^[n] (Solo.boot (regs 0#2) (Bus.ofFile bin)) = u) (e : TestEnv)
    (hl : e.Loaded u.bus) (hi : u.instr = some .ecall) (hv : u.csrs.mtvec = byteAdr e.trapVector)
    (hlim : u.rounds + 36 < maxRounds) :
    ∃ t, T5Sim.EndsTest X s₀ (u.rounds + 37) t ∧
      ∀ signa signo : BitVec 32, signa ≤ signo → signa.toNat % 4 = 0 →
        Dump.InArray signa signo →
        ∃ d, Loop.Exits (Dump.step t.ram signo) (Dump.start signa) (.closed d) ∧
          ∀ reference expected, ListsMemory reference signa.toNat signo.toNat expected →
            (diff reference d.out = true ↔ ∀ k ∈ Dump.blocks signa.toNat signo.toNat,
              ∀ j < 16, expected (k + j) = u.bus.mem (k + j)) := by
  obtain ⟨t, c, ht, hworld, hmem, -⟩ :=
    hl.exits hu hi hv hb hs.iadr hs.sees hregs hg hfit hlim
  refine ⟨t, ht, fun signa signo hle hal hin => ?_⟩
  obtain ⟨d, hd, hout⟩ := hworld.signature hle hal hin
  refine ⟨d, hd, fun reference expected href => ?_⟩
  have hline : c.line = memoryLine u.bus.mem := by
    rw [← hmem]
    rfl
  rw [hout, hline]
  exact hdiff.verdict href u.bus.mem

instance (r l : List Char) : Decidable (UpToCr r l) := inferInstanceAs (Decidable (_ ∧ _))

/-- The test that stores `1` at `0x100`, against a reference with a carriage return. -/
theorem verdict_of_one :
    let bin := [0x02C0006F#32, 0x34202F73#32, 0x00800F93#32, 0x01FF0A63#32, 0x00900F93#32,
        0x01FF0663#32, 0x00B00F93#32, 0x01FF0263#32, 0x00001F17#32, 0xFE3F2023#32,
        0xFF9FF06F#32, 0xF1402573#32, 0x00051063#32, 0x00400293#32, 0x30529073#32,
        0x00100193#32, 0x10302023#32, 0x00000073#32].flatMap
      (fun w => [byteOf w 0, byteOf w 1, byteOf w 2, byteOf w 3])
    let diff := fun reference out => decide (List.Forall₂ UpToCr reference out)
    ∃ t n, T5Sim.EndsTest default (T5Sim.entered (Ram.ofFile bin)) n t ∧
      ∃ d, Loop.Exits (Dump.step t.ram 0x110#32) (Dump.start 0x100#32) (.closed d) ∧
        diff ["00000000000000000000000000000001\r".toList] d.out = true := by
  intro bin diff
  let g : Gate :=
    { first := 11#30, reg := 10#5, back := 0#32, first_lt := by decide, reg_ne := by decide
      back_cases := .inl rfl }
  let e : TestEnv :=
    { trapVector := 1#30, writeTohost := 8#30, hi := 0x1000#32, lo := -32#32
      trapVector_lt := by decide, writeTohost_lt := by decide, tohost := by decide }
  let b := Loop.after (T5Sim.round default) 9 (T5Sim.entered (Ram.ofFile bin))
  let regs : BitVec 2 → Regs := fun _ => Regs.clear
  have hb : T5Sim.Boots default (T5Sim.entered (Ram.ofFile bin)) b :=
    ⟨⟨rfl, rfl⟩, Loop.steps_eq_after (by decide +kernel)⟩
  have hregs : BootRegs b.cpu (Soc.boot regs (Bus.ofFile bin)) :=
    ⟨by decide +kernel, by decide +kernel, by decide +kernel, by decide +kernel⟩
  have hg : g.Guards (Bus.ofFile bin) := ⟨by decide +kernel, by decide +kernel, by decide +kernel⟩
  have hfit : ∀ k < 7, (Solo.step^[k] (Solo.boot (regs 0#2) (Bus.ofFile bin))).fit g = true := by
    decide +kernel
  obtain ⟨u, hu⟩ : ∃ u, Solo.step^[7] (Solo.boot (regs 0#2) (Bus.ofFile bin)) = u := ⟨_, rfl⟩
  have hl : e.Loaded u.bus := by
    rw [← hu]
    exact ⟨by decide +kernel, by decide +kernel, by decide +kernel⟩
  have hi : u.instr = some .ecall := by
    rw [← hu]
    decide +kernel
  have hv : u.csrs.mtvec = byteAdr e.trapVector := by
    rw [← hu]
    decide +kernel
  have hlim : u.rounds + 36 < maxRounds := by
    rw [← hu]
    decide +kernel
  have hdiff : StripsTrailingCr diff := ⟨fun _ _ _ => decide_eq_true_iff⟩
  obtain ⟨t, ht, hdump⟩ := verdict_of_test default hdiff (T5Sim.started_entered bin) hb regs hregs g
    hg 7 hfit hu e hl hi hv hlim
  obtain ⟨d, hd, hverify⟩ := hdump 0x100#32 0x110#32 (by decide) (by decide) (by decide)
  let expected : Nat → BitVec 8 := fun n => if n = 0x100 then 1#8 else 0#8
  have href : ListsMemory ["00000000000000000000000000000001\r".toList] (0x100#32).toNat
      (0x110#32).toNat expected := by
    rw [ListsMemory]
    decide +kernel
  have hbytes : ∀ k ∈ Dump.blocks (0x100#32).toNat (0x110#32).toNat, ∀ j < 16,
      expected (k + j) = u.bus.mem (k + j) := by
    rw [← hu]
    decide +kernel
  exact ⟨t, _, ht, d, hd, (hverify _ expected href).mpr hbytes⟩

end Tra5
