/-
The simulator refines the machine.

`simulator_runs_machine` puts the steps together: as long as the steps of the machine are
regular, the loop of the simulator is where the machine is, after exactly the rounds that
the machine has counted.  `signature_of_machine` takes this to the end of a compliance
test: the loop is left at the store that ends it, and the file that the simulator writes is
the memory of the machine.
-/
import Tra5.System.Boot
import Tra5.Sim.Dump

namespace Tra5

open Rv32 T5Inst

namespace Soc

variable {s : Soc} {i j : Instr}

theorem rounds_step (s : Soc) : s.rounds ≤ s.step.rounds := by
  rw [step]
  split
  · exact Nat.le_add_right _ _
  · exact Nat.le_refl _

/-- The instruction behind becomes the one whose turn it is. -/
theorem Regular.instr_next (hr : Regular s i j) : (s.exec i).instr (s.exec i).turn = some j := by
  refine decode_eq_some_iff.mpr ?_
  show Encodes ((s.exec i).word (whart s.turn)) j
  rw [(word_exec_next hr).1]
  exact hr.behind

end Soc

/-! ## Whole runs -/

/-- The loop is where the machine is after `n` regular steps. -/
theorem T5Sim.Boots.run {X : DontCare} {s₀ b : T5Sim} (h : T5Sim.Boots X s₀ b)
    (h0 : s₀.iadr = 0#32) {regs : BitVec 2 → Regs} {bus : Bus} (hbus : WorldSees s₀.world bus)
    (hregs : BootRegs b.cpu (Soc.boot regs bus)) {n : Nat}
    (hreg : ∀ k < n, ((Soc.boot regs bus).run k).regular = true) {i : Instr} :
    let m := (Soc.boot regs bus).run n
    m.instr m.turn = some i → m.rounds ≤ maxRounds →
      ∃ t, Loop.steps (T5Sim.round X) m.rounds s₀ = some t ∧ Sees X t m i := by
  intro m
  -- By induction on the steps.  The instruction of the last one is the `j` of the step before.
  induction n generalizing i with
  | zero =>
    intro hi _
    exact h.sees h0 hbus hregs (decode_eq_some_iff.mp hi)
  | succ n ih =>
    intro hi hlim
    let m' := (Soc.boot regs bus).run n
    obtain ⟨i', j, hstep, hr⟩ := Soc.regular_cases (hreg n (Nat.lt_succ_self n))
    have hm : m = m'.exec i' := (Soc.run_succ _ n).trans hstep
    have hle : m'.rounds ≤ m.rounds := by
      rw [show m = m'.step from Soc.run_succ _ n]
      exact m'.rounds_step
    obtain ⟨t, ht, hsees⟩ := ih (fun k hk => hreg k (Nat.lt_succ_of_lt hk))
      (decode_eq_some_iff.mpr hr.encodes) (Nat.le_trans hle hlim)
    rw [hm] at hi hlim ⊢
    obtain ⟨u, hu, hnext⟩ := hsees.step hr hlim
    obtain rfl : j = i := Option.some.inj (hr.instr_next.symm.trans hi)
    exact ⟨u, Loop.steps_add.mpr ⟨t, ht, hu⟩, hnext⟩

/-- The simulator runs the machine of four harts.  From a reset with `iadr` at zero and
registers as the machine has them, after any number of regular steps that fit into the rounds
of the loop, the loop has taken as many rounds as the machine counts and agrees with it: on
the memory, the timer and the characters sent, on the registers of all harts, their PCs and
the CSRs of the machine, once the CSR instruction whose turn it is has made its update. -/
theorem simulator_runs_machine (X : DontCare) {s₀ b : T5Sim} (hb : T5Sim.Boots X s₀ b)
    (h0 : s₀.iadr = 0#32) (regs : BitVec 2 → Regs) (bus : Bus) (hbus : WorldSees s₀.world bus)
    (hregs : BootRegs b.cpu (Soc.boot regs bus)) (n : Nat)
    (hreg : ∀ k < n, ((Soc.boot regs bus).run k).regular = true)
    (hlim : ((Soc.boot regs bus).run n).rounds ≤ maxRounds) {i : Instr}
    (hi : ((Soc.boot regs bus).run n).instr ((Soc.boot regs bus).run n).turn = some i) :
    ∃ t, Loop.steps (T5Sim.round X) ((Soc.boot regs bus).run n).rounds s₀ = some t ∧
      Sees X t ((Soc.boot regs bus).run n) i :=
  hb.run h0 hbus hregs hreg hi hlim

/-- Four harts that store their number: `csrrs x1, mhartid, x0`, `slli x2, x1, 2`,
`sw x1, 256(x2)` and a loop. -/
theorem simulator_runs_hartids :
    let image : Ram := fun k =>
      [0xF14020F3#32, 0x00209113#32, 0x10112023#32].getD k.toNat 0x0000006F#32
    ∃ t, Loop.steps (T5Sim.round default) 28 (T5Sim.entered image) = some t ∧
      t.ram.word 0x41#32 = 1#32 ∧ t.ram.word 0x43#32 = 3#32 := by
  intro image
  let bus : Bus :=
    { mem := image.byte, mtime := 0#32, mtimecmp := 0xFFFFFFFF#32, console := [] }
  let m := Soc.boot (fun _ => Regs.clear) bus
  let b := Loop.after (T5Sim.round default) 9 (T5Sim.entered image)
  have hb : T5Sim.Boots default (T5Sim.entered image) b :=
    ⟨⟨rfl, rfl⟩, Loop.steps_eq_after (by decide +kernel)⟩
  have hbus : WorldSees (T5Sim.entered image).world bus := ⟨fun _ _ => rfl, rfl, rfl, rfl⟩
  have hregs : BootRegs b.cpu m :=
    ⟨by decide +kernel, by decide +kernel, by decide +kernel, by decide +kernel⟩
  have hreg : ∀ k < 12, (m.run k).regular = true := by decide +kernel
  have hrounds : (m.run 12).rounds = 28 := by decide +kernel
  have hi : (m.run 12).instr (m.run 12).turn = some (.jal 0#5 0#32) := by decide +kernel
  obtain ⟨t, ht, hsees⟩ := simulator_runs_machine default hb rfl (fun _ => Regs.clear) bus hbus
    hregs 12 hreg (by rw [hrounds]; decide) hi
  rw [hrounds] at ht
  have hword (k : Nat) (hk : k < 2 ^ 18) := hsees.world.word_at hk
  refine ⟨t, ht, (hword 0x41 (by decide)).trans (by decide +kernel), ?_⟩
  exact (hword 0x43 (by decide)).trans (by decide +kernel)

/-! ## The end of a test -/

/-- The loop takes `n` rounds and is left with `u` in the next one, at the store that ends a
test: the word that is fetched then is in the array, and the count is not over unless all the
rounds are taken. -/
structure T5Sim.EndsTest (X : DontCare) (s : T5Sim) (n : Nat) (u : T5Sim) : Prop where
  exits : Loop.Exits (T5Sim.round X) s u
  store : ∃ t, Loop.steps (T5Sim.round X) n s = some t ∧ t.round X = .error u ∧
    t.testEnds = true ∧ inBuf t.fetchIndex = true ∧ (n < maxRounds → t.cnt < 8388608#32)

namespace Tracks

variable {X : DontCare} {t u : T5Sim} {s : Soc} {i : Instr} {b : Bus} {rounds : Nat}

/-- The first round of an access does not leave the loop. -/
theorem goesOn_stall (h : Tracks X t s i b rounds false) (hw : Encodes (s.word s.turn) i)
    (hf : (s.pc (whart (whart (whart s.turn)))).toNat < 2 ^ 18) (hlim : rounds < maxRounds) :
    t.goesOn = true := by
  have hends : t.testEnds = false :=
    T5Sim.testEnds_of_not_completes (T5Sim.completes_of_wait h.dwbAck)
  rw [T5Sim.goesOn, decide_eq_true (h.cnt_lt hlim), h.inBuf_fetchIndex hw hf, hends]
  rfl

theorem testEnds_of_ends (h : Tracks X t s i b rounds true) (hw : Encodes (s.word s.turn) i)
    (hend : s.ends i = true) : t.testEnds = true := by
  obtain ⟨e, hreq⟩ := h.request
  cases i with
  | store op q r imm =>
    have hdiv : (s.address imm).toNat / 4 = T5Sim.testEnd.toNat := beq_iff_eq.mp hend
    have hlt : (s.address imm).toNat < 2 ^ 31 := by
      have hval : T5Sim.testEnd.toNat = 0x400 := rfl
      omega
    have hadr : t.cpu.dwbAdr = (s.address imm).extractLsb 31 2 := by
      refine (congrArg Request.adr hreq).trans ?_
      rw [request_of_store X hw e]
      rfl
    have hwre : t.cpu.dwbWre = true := by
      refine (congrArg Request.wre hreq).trans ?_
      rw [request_of_store X hw e]
    have hstb : t.cpu.dwbStb = true := h.dwbStb hw
    rw [T5Sim.testEnds, T5Sim.completes, hstb, hwre, h.dwbAck, hadr,
      (index_eq_testEnd_iff hlt).mpr hdiv]
    rfl
  | lui | auipc | jal | jalr | branch | load | opImm | opReg | fence | fenceI | ecall | ebreak
  | mret | csr => exact Bool.noConfusion hend

end Tracks

/-- The loop is left at the store that ends the test, with the memory as it was before. -/
theorem Sees.endsTest {X : DontCare} {s₀ t : T5Sim} {s : Soc} {i : Instr} (h : Sees X t s i)
    (ht : Loop.steps (T5Sim.round X) s.rounds s₀ = some t) (hw : Encodes (s.word s.turn) i)
    (hend : s.ends i = true) (hf : (s.pc (whart (whart (whart s.turn)))).toNat < 2 ^ 18)
    (hlim : s.rounds < maxRounds) :
    ∃ u, T5Sim.EndsTest X s₀ (s.rounds + 1) u ∧ WorldSees u.world s.bus.tick := by
  have hm : i.isMemory = true := by
    cases i with
    | store => rfl
    | lui | auipc | jal | jalr | branch | load | opImm | opReg | fence | fenceI | ecall | ebreak
    | mret | csr => exact Bool.noConfusion hend
  obtain ⟨v, hv, ho⟩ := T5Sim.exists_round X h.sysRst (h.goesOn_stall hw hf hlim)
  have hwait := h.stall hw hm ho
  have hends := hwait.testEnds_of_ends hw hend
  have hsteps : Loop.steps (T5Sim.round X) (s.rounds + 1) s₀ = some v :=
    Loop.steps_add.mpr ⟨t, ht, Loop.steps_succ_of_ok hv 0⟩
  rcases T5Sim.round_cases X hwait.sysRst with ⟨-, u, hu, hworld⟩ | ⟨hg, -⟩
  · refine ⟨u, ⟨(Loop.exits_of_error hu).of_steps hsteps, v, hsteps, hu, hends,
      hwait.inBuf_fetchIndex hw hf, hwait.cnt_lt⟩, ?_⟩
    rw [hworld]
    exact hwait.world
  · rw [T5Sim.goesOn, hends, Bool.not_true, Bool.and_false] at hg
    exact Bool.noConfusion hg

/-- A line of the signature: the four words of a block, from the highest down. -/
def memoryLine (mem : Nat → BitVec 8) (n : Nat) : List Char :=
  [3, 2, 1, 0].flatMap (fun j => Text.digits 16 8 (Load.lw.value mem (n + 4 * j)).toNat)

def Bus.line (b : Bus) (n : Nat) : List Char := memoryLine b.mem n

theorem WorldSees.readout {w : World} {b : Bus} (h : WorldSees w b) {n : Nat}
    (hal : n % 4 = 0) (hn : n + 16 ≤ ramSize) : Dump.readout w.ram n = b.line n := by
  have hword (j : Nat) (hj : j < 4) :
      w.ram.word (BitVec.ofNat 32 (n / 4 + j)) = Load.lw.value b.mem (n + 4 * j) := by
    rw [ramSize] at hn
    rw [h.word_at (by omega), show 4 * (n / 4 + j) = n + 4 * j by omega]
  rw [Dump.readout, if_pos (by omega), Dump.words, Bus.line, memoryLine]
  simp only [List.flatMap_cons, List.flatMap_nil, hword 3 (by decide), hword 2 (by decide),
    hword 1 (by decide), hword 0 (by decide)]

/-- Every block that starts in the interval is in the array. -/
def Dump.InArray (signa signo : BitVec 32) : Prop :=
  ∀ n ∈ Dump.blocks signa.toNat signo.toNat, n + 16 ≤ ramSize

instance (signa signo : BitVec 32) : Decidable (Dump.InArray signa signo) :=
  inferInstanceAs (Decidable (∀ _ ∈ _, _))

theorem Dump.InArray.end_le {signa signo : BitVec 32} (h : Dump.InArray signa signo)
    (hle : signa ≤ signo) : signo.toNat ≤ 2 ^ 32 - 16 + signa.toNat % 16 := by
  have hlt := signa.isLt
  rw [BitVec.le_def] at hle
  rcases Nat.eq_or_lt_of_le hle with heq | hless
  · omega
  · -- The last block of an interval that is not empty.
    have hlast := h (signa.toNat + 16 * ((signo.toNat - signa.toNat - 1) / 16))
      (Dump.mem_blocks.mpr ⟨by omega, _, rfl⟩)
    rw [ramSize] at hlast
    omega

/-- The signature file holds the memory of the machine. -/
theorem WorldSees.signature {w : World} {b : Bus} (h : WorldSees w b) {signa signo : BitVec 32}
    (hle : signa ≤ signo) (hal : signa.toNat % 4 = 0) (hin : Dump.InArray signa signo) :
    ∃ d, Loop.Exits (Dump.step w.ram signo) (Dump.start signa) (.closed d) ∧
      d.out = (Dump.blocks signa.toNat signo.toNat).map b.line := by
  obtain ⟨d, hd, hout⟩ := Dump.exits_of_end w.ram hle hal (hin.end_le hle)
  refine ⟨d, hd, hout.trans (List.map_congr_left fun k hk => ?_)⟩
  have hk16 := hin k hk
  obtain ⟨-, j, rfl⟩ := Dump.mem_blocks.mp hk
  exact h.readout (by omega) hk16

/-- A compliance test.  If regular steps take the machine to the store that ends the test and
the fetch beside it is in the array, the loop of the simulator is left at it, the characters on
the console are those of the machine, and the signature file holds the memory of the machine. -/
theorem signature_of_machine (X : DontCare) {s₀ b : T5Sim} (hb : T5Sim.Boots X s₀ b)
    (h0 : s₀.iadr = 0#32) (regs : BitVec 2 → Regs) (bus : Bus) (hbus : WorldSees s₀.world bus)
    (hregs : BootRegs b.cpu (Soc.boot regs bus)) (n : Nat)
    (hreg : ∀ k < n, ((Soc.boot regs bus).run k).regular = true) {i : Instr}
    (hi : ((Soc.boot regs bus).run n).instr ((Soc.boot regs bus).run n).turn = some i)
    (hend : ((Soc.boot regs bus).run n).ends i = true)
    (hfetch : (((Soc.boot regs bus).run n).pc
      (whart (whart (whart ((Soc.boot regs bus).run n).turn)))).toNat < 2 ^ 18)
    (hlim : ((Soc.boot regs bus).run n).rounds < maxRounds) :
    ∃ u, T5Sim.EndsTest X s₀ (((Soc.boot regs bus).run n).rounds + 1) u ∧
      u.cerr = ((Soc.boot regs bus).run n).bus.console ∧
      ∀ signa signo : BitVec 32, signa ≤ signo → signa.toNat % 4 = 0 →
        Dump.InArray signa signo →
        ∃ d, Loop.Exits (Dump.step u.ram signo) (Dump.start signa) (.closed d) ∧
          d.out = (Dump.blocks signa.toNat signo.toNat).map
            ((Soc.boot regs bus).run n).bus.line := by
  obtain ⟨t, ht, hsees⟩ := hb.run h0 hbus hregs hreg hi (Nat.le_of_lt hlim)
  obtain ⟨u, hu, hworld⟩ := hsees.endsTest ht (decode_eq_some_iff.mp hi) hend hfetch hlim
  refine ⟨u, hu, hworld.console, fun signa signo hle hal hin => ?_⟩
  exact hworld.signature hle hal hin

/-- `lui x1, 1`, `sw x1, 256(x0)` and `sw x0, 0(x1)`, which ends the test. -/
theorem signature_of_lui :
    let image : Ram := fun k =>
      [0x000010B7#32, 0x10102023#32, 0x0000A023#32].getD k.toNat 0x00000013#32
    ∃ u n, T5Sim.EndsTest default (T5Sim.entered image) n u ∧
      ∃ d, Loop.Exits (Dump.step u.ram 0x110#32) (Dump.start 0x100#32) (.closed d) ∧
        d.out = ["00000013000000130000001300001000".toList] := by
  intro image
  let bus : Bus :=
    { mem := image.byte, mtime := 0#32, mtimecmp := 0xFFFFFFFF#32, console := [] }
  let m := Soc.boot (fun _ => Regs.clear) bus
  let b := Loop.after (T5Sim.round default) 9 (T5Sim.entered image)
  have hb : T5Sim.Boots default (T5Sim.entered image) b :=
    ⟨⟨rfl, rfl⟩, Loop.steps_eq_after (by decide +kernel)⟩
  have hbus : WorldSees (T5Sim.entered image).world bus := ⟨fun _ _ => rfl, rfl, rfl, rfl⟩
  have hregs : BootRegs b.cpu m :=
    ⟨by decide +kernel, by decide +kernel, by decide +kernel, by decide +kernel⟩
  have hreg : ∀ k < 8, (m.run k).regular = true := by decide +kernel
  have hi : (m.run 8).instr (m.run 8).turn = some (.store .sw 1#5 0#5 0#32) := by decide +kernel
  obtain ⟨u, hu, -, hdump⟩ := signature_of_machine default hb rfl (fun _ => Regs.clear) bus hbus
    hregs 8 hreg hi (by decide +kernel) (by decide +kernel) (by decide +kernel)
  obtain ⟨d, hd, hout⟩ := hdump 0x100#32 0x110#32 (by decide) (by decide) (by decide)
  exact ⟨u, _, hu, d, hd, hout.trans (by decide +kernel)⟩

end Tra5
