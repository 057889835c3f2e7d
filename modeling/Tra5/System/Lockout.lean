/-
One hart out of four.

The core has no way to stop a hart.  Programs written for one hart start with two lines
that keep the others out: the hart number is read, and a branch goes back as long as it is
not zero.  The branch goes back to itself in the environment of the compliance tests and to
the read in the vectors of the operating system, and in both the gate is reached by the
jump at address 0.

`Solo` is the machine that such a program expects: one hart, whose instructions take three
cycles more because the other harts have their turns.  As long as hart 0 leaves the gate
alone, the system of four harts is that machine, from the reset vector on.
-/
import Tra5.System.Refine

namespace Tra5

open Rv32 T5Inst

/-! ## One hart -/

structure Solo where
  pc : BitVec 30
  regs : Regs
  csrs : MachineCsrs
  bus : Bus
  rounds : Nat

/-- What there is of hart 0. -/
def Soc.solo (s : Soc) : Solo :=
  { pc := s.pc 0#2, regs := s.regs 0#2, csrs := s.csrs, bus := s.bus, rounds := s.rounds }

namespace Solo

/-- The machine of four harts, with nothing in it but this one. -/
def soc (u : Solo) : Soc :=
  { turn := 0#2, pc := fun _ => u.pc, regs := fun _ => u.regs, csrs := u.csrs, bus := u.bus
    rounds := u.rounds }

def instr (u : Solo) : Option Instr := u.soc.instr 0#2

/-- A cycle in which the hart does nothing. -/
def wait (u : Solo) : Solo := { u with bus := u.bus.tick, rounds := u.rounds + 1 }

def exec (u : Solo) (i : Instr) : Solo := wait^[3] (u.soc.exec i).solo

def step (u : Solo) : Solo :=
  match u.instr with
  | some i => u.exec i
  | none => u

/-- The hart after the reset, and after the first cycle of hart 2. -/
def boot (regs : Regs) (bus : Bus) : Solo :=
  { pc := 0#30, regs, csrs := .reset, bus := Bus.tick^[13] bus, rounds := 13 }

end Solo

/-! ## The gate -/

/-- The code that holds a hart: at `first` the hart number is read, the branch behind goes
back by `back`. -/
structure Gate where
  first : BitVec 30
  reg : BitVec 5
  back : BitVec 32
  first_lt : first.toNat + 1 < 2 ^ 18
  reg_ne : reg ≠ 0#5
  back_cases : back = 0#32 ∨ back = -4#32

namespace Gate

variable (g : Gate)

def second : BitVec 30 := T5Ctrl.npc g.first

def jump : Instr := .jal 0#5 (byteAdr g.first)

def read : Instr := .csr .set false g.reg 0#5 T5Aslu.csrMhartid

def hold : Instr := .branch .bne g.reg 0#5 g.back

/-- The gate is in memory, and the program starts with a jump to it. -/
structure Guards (b : Bus) : Prop where
  jump : decode (b.word 0#30) = some g.jump
  read : decode (b.word g.first) = some g.read
  hold : decode (b.word g.second) = some g.hold

/-- The hart is at one of the three instructions, at the last with its number. -/
def Holds (s : Soc) (h : BitVec 2) : Prop :=
  s.pc h = 0#30 ∨ s.pc h = g.first ∨
    s.pc h = g.second ∧ (s.regs h).get g.reg = h.setWidth 32

structure Locked (s : Soc) : Prop where
  guards : g.Guards s.bus
  holds : ∀ h, h ≠ 0#2 → g.Holds s h

/-- The store hits the gate. -/
def hitBy (s : Soc) (i : Instr) : Bool :=
  match i with
  | .store _ _ _ imm => !s.traps s.turn i && ((s.address imm).extractLsb 31 2 == 0#30 ||
      (s.address imm).extractLsb 31 2 == g.first || (s.address imm).extractLsb 31 2 == g.second)
  | _ => false

end Gate

/-- The hart keeps to what it can rely on: its instruction is one that the core gets right,
it leaves the gate alone, and another instruction follows. -/
def Solo.fit (g : Gate) (u : Solo) : Bool :=
  match u.instr with
  | some i => u.soc.allowed i && !g.hitBy u.soc i && decide ((u.exec i).pc.toNat < 2 ^ 18) &&
      (u.exec i).instr.isSome
  | none => false

namespace Gate

variable {g : Gate} {s : Soc} {h : BitVec 2} {i j : Instr}

theorem toNat_second (g : Gate) : g.second.toNat = g.first.toNat + 1 := by
  have hlt := g.first_lt
  rw [second, T5Ctrl.npc, BitVec.toNat_add]
  exact Nat.mod_eq_of_lt (by simp; omega)

/-! ### A held hart -/

/-- The instruction does nothing but take its cycle. -/
structure Idles (s : Soc) (i : Instr) : Prop where
  traps : s.traps s.turn i = false
  csrs : s.csrsAfter s.turn i = s.csrs
  bus : s.busAfter s.turn i = s.bus.tick
  cycles : Soc.cycles i = 1
  allowed : s.allowed i = true
  clashes : ∀ j, s.clashes i j = false
  overwrites : s.overwrites i = false

theorem Holds.pc_lt (hh : g.Holds s h) : (s.pc h).toNat < 2 ^ 18 := by
  have hlt := g.first_lt
  rcases hh with hpc | hpc | ⟨hpc, -⟩
  · rw [hpc]
    decide
  · rw [hpc]
    omega
  · rw [hpc, toNat_second]
    exact hlt

theorem write_mhartid (c : MachineCsrs) (v : BitVec 32) : c.write T5Aslu.csrMhartid v = c := rfl

theorem alignedTo_byteAdr (p : BitVec 30) : alignedTo 2 (byteAdr p) = true := by
  rw [alignedTo_two_iff]
  exact BitVec.extractLsb'_append_eq_right

/-- The target of the branch. -/
theorem target_hold (g : Gate) : ∃ p, byteAdr g.second + g.back = byteAdr p ∧
    (p = g.first ∨ p = g.second) := by
  rcases g.back_cases with hb | hb
  · exact ⟨g.second, by rw [hb, BitVec.add_zero], .inr rfl⟩
  · refine ⟨g.first, ?_, .inl rfl⟩
    rw [hb, second, byteAdr_npc, BitVec.add_assoc]
    exact BitVec.add_zero _

/-- A jump to a word, taken without a trap. -/
theorem jumps_to {p : BitVec 30} (hsys : i.isSystem = false) (hmem : i.isMemory = false)
    (htarget : i.target (byteAdr (s.pc h)) (s.rs1 h) (s.rs2 h) = some (byteAdr p)) :
    s.traps h i = false ∧ s.nextPc h i = p := by
  have ht : s.traps h i = false := by
    rw [Soc.traps, Instr.traps_of_not_system hsys, Instr.accessMisaligned_of_not_memory hmem,
      Bool.or_false, Instr.jumpMisaligned_eq_false_iff]
    intro t he
    rw [htarget] at he
    rw [← Option.some.inj he]
    exact alignedTo_byteAdr p
  have hret : i ≠ .mret := fun e => by rw [e] at hsys; exact Bool.noConfusion hsys
  refine ⟨ht, ?_⟩
  rw [Soc.nextPc, ht, if_neg Bool.false_ne_true, if_neg hret, Instr.nextPc, htarget]
  exact extractLsb_byteAdr p

theorem clashes_of_not_traps (ht : s.traps s.turn i = false) (hret : i ≠ .mret) (j : Instr) :
    s.clashes i j = false := by
  cases j with
  | csr op isImm rd q num =>
    simp only [Soc.clashes, ht, Bool.false_and, Bool.false_or, Bool.and_eq_false_iff,
      beq_eq_false_iff_ne]
    exact .inl hret
  | lui | auipc | jal | jalr | branch | load | store | opImm | opReg | fence | fenceI | ecall
  | ebreak | mret => rfl

theorem idles_jump (hpc : s.pc s.turn = 0#30) :
    Idles s g.jump ∧ s.nextPc s.turn g.jump = g.first := by
  have htarget : g.jump.target (byteAdr (s.pc s.turn)) (s.rs1 s.turn) (s.rs2 s.turn) =
      some (byteAdr g.first) := by
    rw [hpc]
    exact congrArg some (BitVec.zero_add _)
  obtain ⟨ht, hnext⟩ := jumps_to rfl rfl htarget
  have hcsrs : s.csrsAfter s.turn g.jump = s.csrs := by rw [Soc.csrsAfter, ht]; rfl
  have hallowed : s.allowed g.jump = true := Bool.or_eq_true_iff.mpr (.inr rfl)
  exact ⟨⟨ht, hcsrs, rfl, rfl, hallowed, clashes_of_not_traps ht Instr.noConfusion, rfl⟩, hnext⟩

theorem idles_read (hpc : s.pc s.turn = g.first) :
    Idles s g.read ∧ s.nextPc s.turn g.read = g.second ∧
      (s.regsAfter s.turn g.read).get g.reg = s.turn.setWidth 32 := by
  have ht : s.traps s.turn g.read = false := rfl
  have hcsrs : s.csrsAfter s.turn g.read = s.csrs := write_mhartid s.csrs _
  refine ⟨⟨ht, hcsrs, rfl, rfl, rfl, clashes_of_not_traps ht Instr.noConfusion, rfl⟩, ?_, ?_⟩
  · show (byteAdr (s.pc s.turn) + 4#32).extractLsb 31 2 = g.second
    rw [hpc, ← byteAdr_npc]
    exact extractLsb_byteAdr g.second
  · show ((s.regs s.turn).set g.reg (s.turn.setWidth 32)).get g.reg = _
    rw [Regs.get_set, if_pos ⟨g.reg_ne, rfl⟩]

theorem idles_hold (hpc : s.pc s.turn = g.second)
    (htaken : Branch.bne.taken (s.rs1 s.turn) (s.rs2 s.turn) = true) :
    Idles s g.hold ∧
      (s.nextPc s.turn g.hold = g.first ∨ s.nextPc s.turn g.hold = g.second) := by
  obtain ⟨p, hp, hcases⟩ := g.target_hold
  have htarget : g.hold.target (byteAdr (s.pc s.turn)) (s.rs1 s.turn) (s.rs2 s.turn) =
      some (byteAdr p) := by
    rw [hpc, ← hp]
    exact if_pos htaken
  obtain ⟨ht, hnext⟩ := jumps_to rfl rfl htarget
  have hcsrs : s.csrsAfter s.turn g.hold = s.csrs := by rw [Soc.csrsAfter, ht]; rfl
  refine ⟨⟨ht, hcsrs, rfl, rfl, rfl, clashes_of_not_traps ht Instr.noConfusion, rfl⟩, ?_⟩
  rw [hnext]
  exact hcases

/-- A number other than zero takes the branch. -/
theorem taken_hold (hw : Encodes (s.word h) g.hold) (hne : h ≠ 0#2)
    (hreg : (s.regs h).get g.reg = h.setWidth 32) :
    Branch.bne.taken (s.rs1 h) (s.rs2 h) = true := by
  have hz : ∀ h : BitVec 2, h ≠ 0#2 → (h.setWidth 32 != 0#32) = true := by decide
  show (s.rs1 h != s.rs2 h) = true
  rw [Soc.rs1, Soc.rs2, hw.rs1_eq rfl, hw.rs2_eq rfl, hreg, (s.regs h).zero]
  exact hz h hne

/-- A held hart idles, and is held again. -/
theorem Locked.idles (hl : g.Locked s) (hne : s.turn ≠ 0#2) :
    ∃ i, s.instr s.turn = some i ∧ Idles s i ∧ g.Holds (s.exec i) s.turn := by
  rcases hl.holds s.turn hne with hpc | hpc | ⟨hpc, hreg⟩
  · obtain ⟨hidle, hnext⟩ := idles_jump (g := g) hpc
    refine ⟨g.jump, ?_, hidle, .inr (.inl ?_)⟩
    · rw [Soc.instr, Soc.word, hpc]
      exact hl.guards.jump
    · rw [Soc.pc_exec_turn, hnext]
  · obtain ⟨hidle, hnext, hget⟩ := idles_read hpc
    refine ⟨g.read, ?_, hidle, .inr (.inr ⟨?_, ?_⟩)⟩
    · rw [Soc.instr, Soc.word, hpc]
      exact hl.guards.read
    · rw [Soc.pc_exec_turn, hnext]
    · rw [Soc.regs_exec_turn, hget]
  · have hi : s.instr s.turn = some g.hold := by
      rw [Soc.instr, Soc.word, hpc]
      exact hl.guards.hold
    obtain ⟨hidle, hnext⟩ := idles_hold hpc (taken_hold (decode_eq_some_iff.mp hi) hne hreg)
    refine ⟨g.hold, hi, hidle, ?_⟩
    rcases hnext with hnext | hnext
    · exact .inr (.inl (by rw [Soc.pc_exec_turn, hnext]))
    · refine .inr (.inr ⟨by rw [Soc.pc_exec_turn, hnext], ?_⟩)
      rw [Soc.regs_exec_turn]
      exact hreg

/-! ### The lock -/

theorem Guards.congr {b c : Bus} (hg : g.Guards b)
    (hw : ∀ p, p = 0#30 ∨ p = g.first ∨ p = g.second → c.word p = b.word p) : g.Guards c := by
  constructor
  · rw [hw _ (.inl rfl)]
    exact hg.jump
  · rw [hw _ (.inr (.inl rfl))]
    exact hg.read
  · rw [hw _ (.inr (.inr rfl))]
    exact hg.hold

theorem Holds.exec_of_ne (hh : g.Holds s h) (hne : h ≠ s.turn) (i : Instr) :
    g.Holds (s.exec i) h := by
  rw [Holds, Soc.pc_exec_of_ne hne, Soc.regs_exec_of_ne hne]
  exact hh

/-- A step that leaves the gate alone leaves the other harts held. -/
theorem Locked.exec (hl : g.Locked s) (h0 : s.turn = 0#2) (hhit : g.hitBy s i = false) :
    g.Locked (s.exec i) := by
  refine ⟨hl.guards.congr fun p hp => Soc.word_busAfter fun op q r imm hi ht => ?_,
    fun h hne => (hl.holds h hne).exec_of_ne (by rw [h0]; exact hne) i⟩
  subst hi
  simp only [hitBy, ht, Bool.not_false, Bool.true_and, Bool.or_eq_false_iff,
    beq_eq_false_iff_ne] at hhit
  rcases hp with rfl | rfl | rfl
  · exact hhit.1.1
  · exact hhit.1.2
  · exact hhit.2

theorem Locked.exec_idle (hl : g.Locked s) (hidle : Idles s i) (hh : g.Holds (s.exec i) s.turn) :
    g.Locked (s.exec i) := by
  refine ⟨hl.guards.congr fun p _ => ?_, fun h hne => ?_⟩
  · rw [Soc.bus_exec, hidle.bus]
    rfl
  · by_cases e : h = s.turn
    · rw [e]
      exact hh
    · exact (hl.holds h hne).exec_of_ne e i

theorem solo_exec_idle (hidle : Idles s i) (hne : s.turn ≠ 0#2) :
    (s.exec i).solo = s.solo.wait := by
  rw [Soc.solo, Soc.pc_exec_of_ne hne.symm, Soc.regs_exec_of_ne hne.symm, Soc.csrs_exec,
    hidle.csrs, Soc.bus_exec, hidle.bus]
  show Solo.mk _ _ _ _ (s.rounds + Soc.cycles i) = _
  rw [hidle.cycles]
  rfl

/-- What a hart does depends on its own state only. -/
theorem solo_exec (h0 : s.turn = 0#2) (i : Instr) :
    (s.exec i).solo = (s.solo.soc.exec i).solo := by
  have hpc : (s.exec i).pc 0#2 = s.nextPc 0#2 i := by
    rw [← h0]
    exact s.pc_exec_turn i
  have hregs : (s.exec i).regs 0#2 = s.regsAfter 0#2 i := by
    rw [← h0]
    exact s.regs_exec_turn i
  rw [Soc.solo, hpc, hregs, Soc.csrs_exec, Soc.bus_exec, h0]
  rfl

/-! ### One round -/

theorem regular_of (hi : s.instr s.turn = some i) (ha : s.allowed i = true)
    (ho : s.overwrites i = false)
    (hall : ∀ h, h ≠ s.turn → (∃ j, s.instr h = some j ∧ s.clashes i j = false) ∧
      (s.pc h).toNat < 2 ^ 18) : s.regular = true := by
  obtain ⟨⟨j, hj, hc⟩, -⟩ := hall _ (whart_ne s.turn).symm
  obtain ⟨⟨k, hk, -⟩, -⟩ := hall _ (whart_two_ne s.turn).symm
  obtain ⟨-, hlt⟩ := hall _ (whart_three_ne s.turn).symm
  have hrv : T5Ctrl.rv32 (s.word (whart (whart s.turn))) = true :=
    rv32_of_encodes (decode_eq_some_iff.mp hk)
  simp only [Soc.regular, hi, hj, ha, hc, ho, hrv, hlt, Bool.not_false, Bool.and_true,
    decide_true]

theorem clashes_read (s : Soc) (i : Instr) (g : Gate) : s.clashes i g.read = false := by
  show (s.traps s.turn i && false || i == .mret && false) = false
  rw [Bool.and_false, Bool.and_false, Bool.or_false]

/-- The instruction of a held hart clashes with none before it. -/
theorem Locked.instr (hl : g.Locked s) (hne : h ≠ 0#2) :
    ∃ j, s.instr h = some j ∧ ∀ i, s.clashes i j = false := by
  rw [Soc.instr, Soc.word]
  rcases hl.holds h hne with hpc | hpc | ⟨hpc, -⟩ <;> rw [hpc]
  · exact ⟨g.jump, hl.guards.jump, fun _ => rfl⟩
  · exact ⟨g.read, hl.guards.read, fun i => clashes_read s i g⟩
  · exact ⟨g.hold, hl.guards.hold, fun _ => rfl⟩

/-- Hart 0 has an instruction to fetch. -/
def Ready (u : Solo) : Prop := u.instr.isSome = true ∧ u.pc.toNat < 2 ^ 18

theorem Ready.wait {u : Solo} (h : Ready u) : Ready u.wait := h

theorem Locked.step_of_ne (hl : g.Locked s) (hne : s.turn ≠ 0#2) (hready : Ready s.solo) :
    s.regular = true ∧ g.Locked s.step ∧ s.step.turn = whart s.turn ∧
      s.step.solo = s.solo.wait := by
  obtain ⟨i, hi, hidle, hh⟩ := hl.idles hne
  have hstep : s.step = s.exec i := by rw [Soc.step, hi]
  rw [hstep]
  refine ⟨?_, hl.exec_idle hidle hh, rfl, solo_exec_idle hidle hne⟩
  refine regular_of hi hidle.allowed hidle.overwrites fun h _ => ?_
  by_cases h0 : h = 0#2
  · obtain ⟨j, hj⟩ := Option.isSome_iff_exists.mp hready.1
    rw [h0]
    exact ⟨⟨j, hj, hidle.clashes j⟩, hready.2⟩
  · obtain ⟨j, hj, hc⟩ := hl.instr h0
    exact ⟨⟨j, hj, hc i⟩, (hl.holds h h0).pc_lt⟩

/-- A store that leaves the gate alone hits no word that a held hart has fetched. -/
theorem Locked.overwrites (hl : g.Locked s) (h0 : s.turn = 0#2) (hhit : g.hitBy s i = false) :
    s.overwrites i = false := by
  cases i with
  | store op q r imm =>
    rw [hitBy, Bool.and_eq_false_iff] at hhit
    rw [Soc.overwrites, Bool.and_eq_false_iff]
    refine hhit.imp_right fun hw => ?_
    simp only [Bool.or_eq_false_iff, beq_eq_false_iff_ne] at hw ⊢
    have hpc (h : BitVec 2) (hne : h ≠ 0#2) : (s.address imm).extractLsb 31 2 ≠ s.pc h := by
      rcases hl.holds h hne with e | e | ⟨e, -⟩ <;> rw [e]
      · exact hw.1.1
      · exact hw.1.2
      · exact hw.2
    rw [h0]
    exact ⟨hpc _ (by decide), hpc _ (by decide)⟩
  | lui | auipc | jal | jalr | branch | load | opImm | opReg | fence | fenceI | ecall | ebreak
  | mret | csr => rfl

theorem solo_conditions (h0 : s.turn = 0#2) (i : Instr) :
    s.solo.soc.allowed i = s.allowed i ∧ g.hitBy s.solo.soc i = g.hitBy s i := by
  obtain ⟨turn, pc, regs, csrs, bus, rounds⟩ := s
  obtain rfl : turn = 0#2 := h0
  exact ⟨rfl, rfl⟩

theorem ends_solo (h0 : s.turn = 0#2) {i : Instr} : s.solo.soc.ends i = s.ends i := by
  obtain ⟨turn, pc, regs, csrs, bus, rounds⟩ := s
  obtain rfl : turn = 0#2 := h0
  rfl

theorem Locked.step_of_eq (hl : g.Locked s) (h0 : s.turn = 0#2) (hfit : s.solo.fit g = true) :
    s.regular = true ∧ g.Locked s.step ∧ s.step.turn = 1#2 ∧ Ready s.step.solo ∧
      Solo.wait^[3] s.step.solo = s.solo.step := by
  rw [Solo.fit] at hfit
  cases hi : s.solo.instr with
  | none =>
    rw [hi] at hfit
    exact Bool.noConfusion hfit
  | some i =>
    have hturn : s.instr s.turn = some i := by
      rw [h0]
      exact hi
    have hstep : s.step = s.exec i := by rw [Soc.step, hturn]
    rw [hi] at hfit
    simp only [Bool.and_eq_true, Bool.not_eq_true', decide_eq_true_eq] at hfit
    obtain ⟨⟨⟨ha, hhit⟩, hlt⟩, hnext⟩ := hfit
    -- The conditions are on hart 0 alone, so they hold of it among the four.
    rw [(solo_conditions (g := g) h0 i).1] at ha
    rw [(solo_conditions h0 i).2] at hhit
    have hready : Ready (s.exec i).solo := by
      rw [solo_exec h0]
      exact ⟨hnext, hlt⟩
    rw [hstep]
    refine ⟨?_, hl.exec h0 hhit, by rw [Soc.turn_exec, h0]; rfl, hready, ?_⟩
    · refine regular_of hturn ha (hl.overwrites h0 hhit) fun h hne => ?_
      have hne0 : h ≠ 0#2 := by
        rw [← h0]
        exact hne
      obtain ⟨j, hj, hc⟩ := hl.instr hne0
      exact ⟨⟨j, hj, hc i⟩, (hl.holds h hne0).pc_lt⟩
    · rw [solo_exec h0, Solo.step, hi]
      rfl

/-- A round of the four harts is one step of hart 0. -/
theorem Locked.round (hl : g.Locked s) (h0 : s.turn = 0#2) (hfit : s.solo.fit g = true) :
    (∀ k < 4, (s.run k).regular = true) ∧ g.Locked (s.run 4) ∧ (s.run 4).turn = 0#2 ∧
      Ready (s.run 4).solo ∧ (s.run 4).solo = s.solo.step := by
  obtain ⟨r0, l1, t1, ready, hsolo⟩ := hl.step_of_eq h0 hfit
  obtain ⟨r1, l2, t2, s2⟩ := l1.step_of_ne (by rw [t1]; decide) ready
  rw [t1] at t2
  obtain ⟨r2, l3, t3, s3⟩ := l2.step_of_ne (by rw [t2]; decide) (by rw [s2]; exact ready.wait)
  rw [t2] at t3
  obtain ⟨r3, l4, t4, s4⟩ := l3.step_of_ne (by rw [t3]; decide)
    (by rw [s3, s2]; exact ready.wait.wait)
  rw [t3] at t4
  have hend : (s.run 4).solo = Solo.wait^[3] s.step.solo := by
    show s.step.step.step.step.solo = s.step.solo.wait.wait.wait
    rw [s4, s3, s2]
  refine ⟨fun k hk => ?_, l4, t4, ?_, hend.trans hsolo⟩
  · interval_cases k
    · exact r0
    · exact r1
    · exact r2
    · exact r3
  · rw [hend]
    exact ready.wait.wait.wait

/-! ### Whole runs -/

theorem run_add (s : Soc) (m n : Nat) : s.run (m + n) = (s.run m).run n := by
  rw [Nat.add_comm]
  exact Function.iterate_add_apply Soc.step n m s

theorem Locked.run (hl : g.Locked s) (h0 : s.turn = 0#2) (hready : Ready s.solo) {n : Nat}
    (hfit : ∀ k < n, (Solo.step^[k] s.solo).fit g = true) :
    (∀ k < 4 * n, (s.run k).regular = true) ∧ g.Locked (s.run (4 * n)) ∧
      (s.run (4 * n)).turn = 0#2 ∧ Ready (s.run (4 * n)).solo ∧
      (s.run (4 * n)).solo = Solo.step^[n] s.solo := by
  induction n with
  | zero => exact ⟨fun k hk => absurd hk (Nat.not_lt_zero k), hl, h0, hready, rfl⟩
  | succ n ih =>
    obtain ⟨hreg, hl', h0', -, hsolo⟩ := ih fun k hk => hfit k (Nat.lt_succ_of_lt hk)
    have hlast := hfit n (Nat.lt_succ_self n)
    rw [← hsolo] at hlast
    obtain ⟨hround, hl'', h0'', hready'', hsolo''⟩ := hl'.round h0' hlast
    rw [show 4 * (n + 1) = 4 * n + 4 from rfl, run_add]
    refine ⟨fun k hk => ?_, hl'', h0'', hready'', ?_⟩
    · rcases Nat.lt_or_ge k (4 * n) with hlt | hge
      · exact hreg k hlt
      · obtain ⟨d, rfl⟩ := Nat.exists_eq_add_of_le hge
        rw [run_add]
        exact hround d (by omega)
    · rw [hsolo'', hsolo, Function.iterate_succ_apply']

/-- The first step after the reset is that of hart 2. -/
theorem Guards.boot {bus : Bus} (hg : g.Guards bus) (regs : BitVec 2 → Regs) :
    let m := Soc.boot regs bus
    m.regular = true ∧ g.Locked m.step ∧ m.step.turn = 0#2 ∧ Ready m.step.solo ∧
      m.step.solo = Solo.boot (regs 0#2) bus := by
  intro m
  have hturn : m.turn = 2#2 := rfl
  have hpc : m.solo.pc = 0#30 := rfl
  have hword (p : BitVec 30) : m.bus.word p = bus.word p :=
    Soc.word_congr fun n _ _ => congrFun (Soc.mem_tick bus 12) n
  have hl : g.Locked m := ⟨hg.congr fun p _ => hword p, fun _ _ => .inl rfl⟩
  have hi : m.solo.instr = some g.jump := hl.guards.jump
  have hready : Ready m.solo := ⟨by rw [hi]; rfl, by rw [hpc]; decide⟩
  obtain ⟨hreg, hl', hnext, hsolo⟩ := hl.step_of_ne (by rw [hturn]; decide) hready
  have hboot : m.solo.wait = Solo.boot (regs 0#2) bus := by
    rw [Solo.boot, Function.iterate_succ_apply']
    rfl
  refine ⟨hreg, hl', ?_, ?_, hsolo.trans hboot⟩
  · rw [hnext, hturn]
    rfl
  · rw [hsolo]
    exact hready.wait

/-- The machine of four harts, once hart 0 has taken `n` steps. -/
theorem Guards.run {bus : Bus} (hg : g.Guards bus) (regs : BitVec 2 → Regs) {n : Nat}
    (hfit : ∀ k < n, (Solo.step^[k] (Solo.boot (regs 0#2) bus)).fit g = true) :
    let m := (Soc.boot regs bus).run (1 + 4 * n)
    (∀ k < 1 + 4 * n, ((Soc.boot regs bus).run k).regular = true) ∧ g.Locked m ∧
      m.turn = 0#2 ∧ Ready m.solo ∧ m.solo = Solo.step^[n] (Solo.boot (regs 0#2) bus) := by
  intro m
  have hone : (Soc.boot regs bus).step = (Soc.boot regs bus).run 1 := rfl
  obtain ⟨hfirst, hl, hturn, hready, hsolo⟩ := hg.boot regs
  rw [← hsolo] at hfit ⊢
  rw [hone] at hl hturn hready hfit ⊢
  obtain ⟨hreg, hl', hturn', hready', hsolo'⟩ := hl.run hturn hready hfit
  rw [← run_add] at hl' hturn' hready' hsolo'
  refine ⟨fun k hk => ?_, hl', hturn', hready', hsolo'⟩
  rcases Nat.eq_zero_or_pos k with rfl | hpos
  · exact hfirst
  · obtain ⟨d, rfl⟩ := Nat.exists_eq_add_of_le hpos
    rw [run_add]
    exact hreg d (by omega)

end Gate

/-- The system runs a program of one hart.  If the program starts with a jump to the gate
and hart 0 keeps to what it can rely on, the simulator takes it through its instructions
as the machine of one hart does, in as many rounds: the other three harts never leave the
gate, and change nothing but the time. -/
theorem one_hart_behind_gate (X : DontCare) {s₀ b : T5Sim} (hb : T5Sim.Boots X s₀ b)
    (h0 : s₀.iadr = 0#32) (regs : BitVec 2 → Regs) (bus : Bus) (hbus : WorldSees s₀.world bus)
    (hregs : BootRegs b.cpu (Soc.boot regs bus)) (g : Gate) (hg : g.Guards bus) (n : Nat)
    (hfit : ∀ k < n, (Solo.step^[k] (Solo.boot (regs 0#2) bus)).fit g = true)
    (hlim : (Solo.step^[n] (Solo.boot (regs 0#2) bus)).rounds ≤ maxRounds) :
    ∃ t m i, Loop.steps (T5Sim.round X) (Solo.step^[n] (Solo.boot (regs 0#2) bus)).rounds s₀ =
        some t ∧ Sees X t m i ∧ m.turn = 0#2 ∧ g.Locked m ∧
      m.solo = Solo.step^[n] (Solo.boot (regs 0#2) bus) := by
  obtain ⟨hreg, hl, hturn, hready, hsolo⟩ := hg.run regs hfit
  let m := (Soc.boot regs bus).run (1 + 4 * n)
  obtain ⟨i, hi⟩ := Option.isSome_iff_exists.mp hready.1
  have hrounds : m.rounds = (Solo.step^[n] (Solo.boot (regs 0#2) bus)).rounds :=
    congrArg Solo.rounds hsolo
  obtain ⟨t, ht, hsees⟩ := hb.run h0 hbus hregs hreg (by rw [hturn]; exact hi)
    (by rw [← hrounds] at hlim; exact hlim)
  rw [← hrounds]
  exact ⟨t, m, i, ht, hsees, hturn, hl, hsolo⟩

/-- The vectors of the operating system: `jal x0, 0x400` at address 0, and there
`csrr t0, mhartid` and `bnez t0` to it.  Hart 0 goes on to send one character. -/
theorem one_hart_sends_character :
    let image : Ram := fun k => if k = 0#32 then 0x4000006F#32 else
      [0xF14022F3#32, 0xFE029EE3#32, 0x04100313#32, 0x400023B7#32, 0x0063A023#32].getD
        (k.toNat - 0x100) 0x0000006F#32
    ∃ t, Loop.steps (T5Sim.round default) 38 (T5Sim.entered image) = some t ∧
      t.cerr = [0x41#8] := by
  intro image
  let bus : Bus :=
    { mem := image.byte, mtime := 0#32, mtimecmp := 0xFFFFFFFF#32, console := [] }
  let g : Gate :=
    { first := 0x100#30, reg := 5#5, back := -4#32, first_lt := by decide, reg_ne := by decide
      back_cases := .inr rfl }
  let b := Loop.after (T5Sim.round default) 9 (T5Sim.entered image)
  let regs : BitVec 2 → Regs := fun _ => Regs.clear
  have hb : T5Sim.Boots default (T5Sim.entered image) b :=
    ⟨⟨rfl, rfl⟩, Loop.steps_eq_after (by decide +kernel)⟩
  have hbus : WorldSees (T5Sim.entered image).world bus := ⟨fun _ _ => rfl, rfl, rfl, rfl⟩
  have hregs : BootRegs b.cpu (Soc.boot regs bus) :=
    ⟨by decide +kernel, by decide +kernel, by decide +kernel, by decide +kernel⟩
  have hg : g.Guards bus := ⟨by decide +kernel, by decide +kernel, by decide +kernel⟩
  have hfit : ∀ k < 6, (Solo.step^[k] (Solo.boot (regs 0#2) bus)).fit g = true := by
    decide +kernel
  have hrounds : (Solo.step^[6] (Solo.boot (regs 0#2) bus)).rounds = 38 := by decide +kernel
  have hconsole : (Solo.step^[6] (Solo.boot (regs 0#2) bus)).bus.console = [0x41#8] := by
    decide +kernel
  obtain ⟨t, m, i, ht, hsees, -, -, hsolo⟩ := one_hart_behind_gate default hb rfl regs bus hbus
    hregs g hg 6 hfit (by rw [hrounds]; decide)
  rw [hrounds] at ht
  rw [← hsolo] at hconsole
  exact ⟨t, ht, hsees.world.console.trans hconsole⟩

/-- The loop is left when hart 0 comes to the store that ends the test. -/
theorem Gate.Guards.exits {X : DontCare} {s₀ b : T5Sim} {regs : BitVec 2 → Regs} {bus : Bus}
    {g : Gate} {n : Nat} {i : Instr} (hg : g.Guards bus) (hb : T5Sim.Boots X s₀ b)
    (h0 : s₀.iadr = 0#32) (hbus : WorldSees s₀.world bus)
    (hregs : BootRegs b.cpu (Soc.boot regs bus))
    (hfit : ∀ k < n, (Solo.step^[k] (Solo.boot (regs 0#2) bus)).fit g = true)
    (hi : (Solo.step^[n] (Solo.boot (regs 0#2) bus)).instr = some i)
    (hend : (Solo.step^[n] (Solo.boot (regs 0#2) bus)).soc.ends i = true)
    (hlim : (Solo.step^[n] (Solo.boot (regs 0#2) bus)).rounds < maxRounds) :
    ∃ t, T5Sim.EndsTest X s₀ ((Solo.step^[n] (Solo.boot (regs 0#2) bus)).rounds + 1) t ∧
      WorldSees t.world (Solo.step^[n] (Solo.boot (regs 0#2) bus)).bus.tick := by
  obtain ⟨hreg, hlocked, hturn, -, hsolo⟩ := hg.run regs hfit
  let m := (Soc.boot regs bus).run (1 + 4 * n)
  rw [← hsolo] at hi hend hlim ⊢
  have hi' : m.instr m.turn = some i := by rw [hturn]; exact hi
  have hend' : m.ends i = true := by rw [← Gate.ends_solo hturn]; exact hend
  obtain ⟨u, hu, hsees⟩ := hb.run h0 hbus hregs hreg hi' (Nat.le_of_lt hlim)
  -- The fetch beside the store is that of hart 2, which is in the gate.
  have hfetch : (m.pc (whart (whart (whart m.turn)))).toNat < 2 ^ 18 := by
    rw [hturn]
    exact (hlocked.holds 2#2 (by decide)).pc_lt
  exact hsees.endsTest hu (decode_eq_some_iff.mp hi') hend' hfetch hlim

/-- A compliance test for one hart.  If hart 0 comes to the store that ends the test, the
loop of the simulator is left at it, and console and signature are those of the machine of
one hart. -/
theorem signature_behind_gate (X : DontCare) {s₀ b : T5Sim} (hb : T5Sim.Boots X s₀ b)
    (h0 : s₀.iadr = 0#32) (regs : BitVec 2 → Regs) (bus : Bus) (hbus : WorldSees s₀.world bus)
    (hregs : BootRegs b.cpu (Soc.boot regs bus)) (g : Gate) (hg : g.Guards bus) (n : Nat)
    (hfit : ∀ k < n, (Solo.step^[k] (Solo.boot (regs 0#2) bus)).fit g = true) {i : Instr}
    (hi : (Solo.step^[n] (Solo.boot (regs 0#2) bus)).instr = some i)
    (hend : (Solo.step^[n] (Solo.boot (regs 0#2) bus)).soc.ends i = true)
    (hlim : (Solo.step^[n] (Solo.boot (regs 0#2) bus)).rounds < maxRounds) :
    ∃ t, T5Sim.EndsTest X s₀ ((Solo.step^[n] (Solo.boot (regs 0#2) bus)).rounds + 1) t ∧
      t.cerr = (Solo.step^[n] (Solo.boot (regs 0#2) bus)).bus.console ∧
      ∀ signa signo : BitVec 32, signa ≤ signo → signa.toNat % 4 = 0 →
        Dump.InArray signa signo →
        ∃ d, Loop.Exits (Dump.step t.ram signo) (Dump.start signa) (.closed d) ∧
          d.out = (Dump.blocks signa.toNat signo.toNat).map
            (Solo.step^[n] (Solo.boot (regs 0#2) bus)).bus.line := by
  obtain ⟨t, ht, hworld⟩ := hg.exits hb h0 hbus hregs hfit hi hend hlim
  exact ⟨t, ht, hworld.console, fun _ _ => hworld.signature⟩

/-- The start of a compliance test: a jump over one word to `csrr a0, mhartid` and
`bnez a0` to itself.  The test stores `0x1000` at `0x100` and ends. -/
theorem signature_behind_gate_of_lui :
    let image : Ram := fun k =>
      [0x0080006F#32, 0xC0001073#32, 0xF1402573#32, 0x00051063#32, 0x000010B7#32,
        0x10102023#32, 0x0000A023#32].getD k.toNat 0x00000013#32
    ∃ t n, T5Sim.EndsTest default (T5Sim.entered image) n t ∧
      ∃ d, Loop.Exits (Dump.step t.ram 0x110#32) (Dump.start 0x100#32) (.closed d) ∧
        d.out = ["00000013000000130000001300001000".toList] := by
  intro image
  let bus : Bus :=
    { mem := image.byte, mtime := 0#32, mtimecmp := 0xFFFFFFFF#32, console := [] }
  let g : Gate :=
    { first := 2#30, reg := 10#5, back := 0#32, first_lt := by decide, reg_ne := by decide
      back_cases := .inl rfl }
  let b := Loop.after (T5Sim.round default) 9 (T5Sim.entered image)
  let regs : BitVec 2 → Regs := fun _ => Regs.clear
  have hb : T5Sim.Boots default (T5Sim.entered image) b :=
    ⟨⟨rfl, rfl⟩, Loop.steps_eq_after (by decide +kernel)⟩
  have hbus : WorldSees (T5Sim.entered image).world bus := ⟨fun _ _ => rfl, rfl, rfl, rfl⟩
  have hregs : BootRegs b.cpu (Soc.boot regs bus) :=
    ⟨by decide +kernel, by decide +kernel, by decide +kernel, by decide +kernel⟩
  have hg : g.Guards bus := ⟨by decide +kernel, by decide +kernel, by decide +kernel⟩
  have hfit : ∀ k < 5, (Solo.step^[k] (Solo.boot (regs 0#2) bus)).fit g = true := by
    decide +kernel
  have hi : (Solo.step^[5] (Solo.boot (regs 0#2) bus)).instr =
      some (.store .sw 1#5 0#5 0#32) := by decide +kernel
  obtain ⟨t, ht, -, hdump⟩ := signature_behind_gate default hb rfl regs bus hbus hregs
    g hg 5 hfit hi (by decide +kernel) (by decide +kernel)
  obtain ⟨d, hd, hout⟩ := hdump 0x100#32 0x110#32 (by decide) (by decide) (by decide)
  exact ⟨t, _, ht, d, hd, hout.trans (by decide +kernel)⟩

end Tra5
