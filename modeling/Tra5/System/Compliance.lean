/-
The end of a compliance test.

A test of the compliance suite ends with an `ecall`.  The trap handler of the test
environment compares the cause with the three codes of an environment call and, at the
third, jumps to a store to `tohost`, which the linker script puts at the word that ends
the simulation.  So the signature of a test is the memory as it is at the `ecall`,
whatever the test has done to its registers before.
-/
import Tra5.System.Lockout

namespace Tra5

open Rv32 T5Inst

/-! ## Steps that leave the memory alone -/

namespace Solo

variable {g : Gate} {u v w : Solo} {i j : Instr}

theorem step_of_not_memory (hi : u.instr = some i) (hm : i.isMemory = false) :
    u.step = { pc := u.soc.nextPc 0#2 i, regs := u.soc.regsAfter 0#2 i,
               csrs := u.soc.csrsAfter 0#2 i, bus := Bus.tick^[4] u.bus,
               rounds := u.rounds + 4 } := by
  have hbus : (u.soc.exec i).bus = u.bus.tick := Soc.busAfter_of_not_memory hm
  have hrounds : (u.soc.exec i).rounds = u.rounds + 1 := by
    show u.rounds + Soc.cycles i = _
    rw [Soc.cycles, hm]
    rfl
  rw [step, hi]
  show Solo.mk _ _ _ (u.soc.exec i).bus.tick.tick.tick ((u.soc.exec i).rounds + 1 + 1 + 1) = _
  rw [hbus, hrounds]
  rfl

/-- The hart comes from `u` to `v` in `n` steps, with the memory and the console as they
were. -/
structure Reaches (g : Gate) (n : Nat) (u v : Solo) : Prop where
  steps : Solo.step^[n] u = v
  fit : ∀ k < n, (Solo.step^[k] u).fit g = true
  mem : v.bus.mem = u.bus.mem
  console : v.bus.console = u.bus.console
  rounds : v.rounds = u.rounds + 4 * n

theorem Reaches.trans {m n : Nat} (h : Reaches g m u v) (h' : Reaches g n v w) :
    Reaches g (m + n) u w := by
  constructor
  · rw [Nat.add_comm, Function.iterate_add_apply, h.steps, h'.steps]
  · intro k hk
    rcases Nat.lt_or_ge k m with hlt | hge
    · exact h.fit k hlt
    · obtain ⟨d, rfl⟩ := Nat.exists_eq_add_of_le hge
      rw [Nat.add_comm m d, Function.iterate_add_apply, h.steps]
      exact h'.fit d (by omega)
  · rw [h'.mem, h.mem]
  · rw [h'.console, h.console]
  · rw [h'.rounds, h.rounds]
    omega

theorem Reaches.step (hi : u.instr = some i) (hm : i.isMemory = false)
    (ha : u.soc.allowed i = true) {p : BitVec 30} (hp : u.soc.nextPc 0#2 i = p)
    (hlt : p.toNat < 2 ^ 18) (hj : decode (u.bus.word p) = some j) : Reaches g 1 u u.step := by
  have hstep := step_of_not_memory hi hm
  have hmem : u.step.bus.mem = u.bus.mem := by
    rw [hstep]
    exact Soc.mem_tick u.bus 4
  refine ⟨rfl, fun k hk => ?_, hmem, ?_, ?_⟩
  · obtain rfl : k = 0 := by omega
    have hhit : g.hitBy u.soc i = false := by
      cases i with
      | store => exact Bool.noConfusion hm
      | lui | auipc | jal | jalr | branch | load | opImm | opReg | fence | fenceI | ecall | ebreak
      | mret | csr => rfl
    have hexec : u.exec i = u.step := by rw [Solo.step, hi]
    have hpc : u.step.pc = p := by rw [hstep, ← hp]
    have hnext : u.step.instr = some j := by
      rw [← hj]
      show decode (u.step.bus.word u.step.pc) = _
      rw [hpc]
      exact congrArg decode (Soc.word_congr fun n _ _ => congrFun hmem n)
    show u.fit g = true
    rw [Solo.fit, hi]
    simp only [ha, hhit, hexec, hpc, hnext, hlt, Bool.not_false, Bool.and_true, decide_true,
      Option.isSome_some]
  · rw [hstep]
    rfl
  · rw [hstep]

/-! ### One rule for each kind of instruction -/

theorem rs1_of_source (hi : u.instr = some i) {q : BitVec 5} (hq : i.source1 = some q) :
    u.soc.rs1 0#2 = u.regs.get q := by
  rw [Soc.rs1, (decode_eq_some_iff.mp hi).rs1_eq hq]
  rfl

theorem rs2_of_source (hi : u.instr = some i) {r : BitVec 5} (hr : i.source2 = some r) :
    u.soc.rs2 0#2 = u.regs.get r := by
  rw [Soc.rs2, (decode_eq_some_iff.mp hi).rs2_eq hr]
  rfl

theorem ecall_reaches (hi : u.instr = some .ecall)
    (hlt : (u.csrs.mtvec.extractLsb 31 2).toNat < 2 ^ 18)
    (hj : decode (u.bus.word (u.csrs.mtvec.extractLsb 31 2)) = some j) :
    Reaches g 1 u u.step ∧ u.step.pc = u.csrs.mtvec.extractLsb 31 2 ∧
      u.step.csrs.mcause = 11#4 := by
  refine ⟨.step hi rfl rfl rfl hlt hj, ?_, ?_⟩
  · rw [step_of_not_memory hi rfl]
    rfl
  · rw [step_of_not_memory hi rfl]
    rfl

/-- An instruction that does not jump goes on to the next word. -/
theorem straight_reaches (hi : u.instr = some i) (hm : i.isMemory = false)
    (ha : u.soc.allowed i = true) (ht : u.soc.traps 0#2 i = false) (hret : i ≠ .mret)
    (htarget : i.target (byteAdr u.pc) (u.soc.rs1 0#2) (u.soc.rs2 0#2) = none)
    (hlt : (T5Ctrl.npc u.pc).toNat < 2 ^ 18)
    (hj : decode (u.bus.word (T5Ctrl.npc u.pc)) = some j) :
    Reaches g 1 u u.step ∧ u.step.pc = T5Ctrl.npc u.pc ∧
      u.step.regs = u.soc.regsAfter 0#2 i := by
  have hpc : u.soc.nextPc 0#2 i = T5Ctrl.npc u.pc := by
    rw [Soc.nextPc, ht, if_neg Bool.false_ne_true, if_neg hret, Instr.nextPc]
    show ((i.target (byteAdr u.pc) (u.soc.rs1 0#2) (u.soc.rs2 0#2)).getD _).extractLsb 31 2 = _
    rw [htarget]
    show (byteAdr u.pc + 4#32).extractLsb 31 2 = _
    rw [← byteAdr_npc]
    exact extractLsb_byteAdr _
  refine ⟨.step hi hm ha hpc hlt hj, ?_, ?_⟩
  · rw [step_of_not_memory hi hm]
    exact hpc
  · rw [step_of_not_memory hi hm]

section Straight

variable {r : BitVec 5} {imm : BitVec 32} (hlt : (T5Ctrl.npc u.pc).toNat < 2 ^ 18)
  (hj : decode (u.bus.word (T5Ctrl.npc u.pc)) = some j)

include hlt hj

/-- `csrr` of `mcause`. -/
theorem mcause_reaches (hi : u.instr = some (.csr .set false r 0#5 T5Aslu.csrMcause)) :
    Reaches g 1 u u.step ∧ u.step.pc = T5Ctrl.npc u.pc ∧
      u.step.regs = u.regs.set r (u.csrs.mcause.setWidth 32) :=
  straight_reaches hi rfl rfl rfl Instr.noConfusion rfl hlt hj

/-- `li`. -/
theorem li_reaches (hi : u.instr = some (.opImm .add r 0#5 imm)) :
    Reaches g 1 u u.step ∧ u.step.pc = T5Ctrl.npc u.pc ∧ u.step.regs = u.regs.set r imm := by
  obtain ⟨h, hpc, hregs⟩ := straight_reaches (g := g) hi rfl rfl rfl Instr.noConfusion rfl hlt hj
  refine ⟨h, hpc, hregs.trans ?_⟩
  show u.regs.set r (u.soc.rs1 0#2 + imm) = _
  rw [rs1_of_source hi rfl, u.regs.zero, BitVec.zero_add]

theorem auipc_reaches (hi : u.instr = some (.auipc r imm)) :
    Reaches g 1 u u.step ∧ u.step.pc = T5Ctrl.npc u.pc ∧
      u.step.regs = u.regs.set r (byteAdr u.pc + imm) :=
  straight_reaches hi rfl rfl rfl Instr.noConfusion rfl hlt hj

theorem branch_falls {op : Branch} {q : BitVec 5} (hi : u.instr = some (.branch op q r imm))
    (htaken : op.taken (u.regs.get q) (u.regs.get r) = false) :
    Reaches g 1 u u.step ∧ u.step.pc = T5Ctrl.npc u.pc ∧ u.step.regs = u.regs := by
  have htarget : (Instr.branch op q r imm).target (byteAdr u.pc) (u.soc.rs1 0#2)
      (u.soc.rs2 0#2) = none := by
    rw [rs1_of_source hi rfl, rs2_of_source hi rfl]
    exact if_neg (by rw [htaken]; exact Bool.false_ne_true)
  have ht : u.soc.traps 0#2 (.branch op q r imm) = false := by
    show (((Instr.branch op q r imm).target (byteAdr u.pc) (u.soc.rs1 0#2)
      (u.soc.rs2 0#2)).any _ || false) = false
    rw [htarget]
    rfl
  exact straight_reaches hi rfl rfl ht Instr.noConfusion htarget hlt hj

end Straight

theorem branch_reaches {op : Branch} {q r : BitVec 5} {p : BitVec 30}
    (hi : u.instr = some (.branch op q r (byteAdr p - byteAdr u.pc)))
    (htaken : op.taken (u.regs.get q) (u.regs.get r) = true) (hlt : p.toNat < 2 ^ 18)
    (hj : decode (u.bus.word p) = some j) :
    Reaches g 1 u u.step ∧ u.step.pc = p := by
  have htarget : (Instr.branch op q r (byteAdr p - byteAdr u.pc)).target (byteAdr u.pc)
      (u.soc.rs1 0#2) (u.soc.rs2 0#2) = some (byteAdr p) := by
    rw [rs1_of_source hi rfl, rs2_of_source hi rfl]
    refine (if_pos htaken).trans (congrArg some ?_)
    rw [BitVec.add_comm, BitVec.sub_add_cancel]
  obtain ⟨-, hpc⟩ := Gate.jumps_to (s := u.soc) (h := 0#2) rfl rfl htarget
  refine ⟨.step hi rfl rfl hpc hlt hj, ?_⟩
  rw [step_of_not_memory hi rfl]
  exact hpc

end Solo

/-! ## The trap handler -/

/-- The trap handler of the test environment, with the address of its store to `tohost`.
The two halves of the offset to `tohost` are those of `auipc` and `sw`. -/
structure TestEnv where
  trapVector : BitVec 30
  writeTohost : BitVec 30
  hi : BitVec 32
  lo : BitVec 32
  trapVector_lt : trapVector.toNat + 6 < 2 ^ 18
  writeTohost_lt : writeTohost.toNat + 1 < 2 ^ 18
  tohost : byteAdr writeTohost + hi + lo = 0x1000#32

namespace TestEnv

variable (e : TestEnv)

/-- The word `k` of the handler. -/
def pc (k : Nat) : BitVec 30 := e.trapVector + BitVec.ofNat 30 k

/-- `csrr t5, mcause`, then `li t6` and `beq t5, t6, write_tohost` for each of the causes of
an `ecall` from user, supervisor and machine mode. -/
def code : Nat → Instr
  | 0 => .csr .set false 30#5 0#5 T5Aslu.csrMcause
  | 1 => .opImm .add 31#5 0#5 8#32
  | 3 => .opImm .add 31#5 0#5 9#32
  | 5 => .opImm .add 31#5 0#5 11#32
  | k => .branch .beq 30#5 31#5 (byteAdr e.writeTohost - byteAdr (e.pc k))

/-- The handler is in memory. -/
structure Loaded (b : Bus) : Prop where
  handler : ∀ k < 7, decode (b.word (e.pc k)) = some (e.code k)
  auipc : decode (b.word e.writeTohost) = some (.auipc 30#5 e.hi)
  store : decode (b.word (T5Ctrl.npc e.writeTohost)) = some (.store .sw 30#5 3#5 e.lo)

variable {e} {g : Gate} {u v : Solo}

theorem npc_pc (k : Nat) : T5Ctrl.npc (e.pc k) = e.pc (k + 1) := by
  rw [T5Ctrl.npc, pc, pc, BitVec.ofNat_add, BitVec.add_assoc]

theorem toNat_pc {k : Nat} (hk : k < 7) : (e.pc k).toNat < 2 ^ 18 := by
  have hlt := e.trapVector_lt
  rw [pc, BitVec.toNat_add, BitVec.toNat_ofNat]
  omega

theorem toNat_store : (T5Ctrl.npc e.writeTohost).toNat < 2 ^ 18 := by
  have hlt := e.writeTohost_lt
  rw [T5Ctrl.npc, BitVec.toNat_add]
  exact Nat.lt_of_le_of_lt (Nat.mod_le _ _) hlt

theorem Loaded.congr {b c : Bus} (h : e.Loaded b) (hm : c.mem = b.mem) : e.Loaded c := by
  have hw (p : BitVec 30) : c.word p = b.word p := Soc.word_congr fun n _ _ => congrFun hm n
  exact ⟨fun k hk => by rw [hw]; exact h.handler k hk, by rw [hw]; exact h.auipc,
    by rw [hw]; exact h.store⟩

/-- The hart is at the word `k` of the handler, with `c` in `t5`. -/
structure At (e : TestEnv) (g : Gate) (u : Solo) (k : Nat) (c : BitVec 32) (v : Solo) : Prop where
  reaches : Solo.Reaches g (k + 1) u v
  loaded : e.Loaded v.bus
  pc : v.pc = e.pc k
  cause : v.regs.get 30#5 = c

theorem At.instr {k : Nat} {c : BitVec 32} (h : At e g u k c v) (hk : k < 7) :
    v.instr = some (e.code k) := by
  show decode (v.bus.word v.pc) = _
  rw [h.pc]
  exact h.loaded.handler k hk

/-- The `ecall` and the read of the cause. -/
theorem at_one (hl : e.Loaded u.bus) (hi : u.instr = some .ecall)
    (hv : u.csrs.mtvec = byteAdr e.trapVector) : At e g u 1 11#32 u.step.step := by
  have hpc0 : u.csrs.mtvec.extractLsb 31 2 = e.pc 0 := by
    rw [hv, extractLsb_byteAdr]
    exact (BitVec.add_zero _).symm
  obtain ⟨h1, hpc, hcause⟩ := Solo.ecall_reaches (g := g) hi
    (by rw [hpc0]; exact toNat_pc (by decide)) (by rw [hpc0]; exact hl.handler 0 (by decide))
  rw [hpc0] at hpc
  have hl1 : e.Loaded u.step.bus := hl.congr h1.mem
  have hi1 : u.step.instr = some (e.code 0) := by
    show decode (u.step.bus.word u.step.pc) = _
    rw [hpc]
    exact hl1.handler 0 (by decide)
  have hnpc : T5Ctrl.npc u.step.pc = e.pc 1 := by rw [hpc, npc_pc]
  obtain ⟨h2, hpc2, hregs⟩ := Solo.mcause_reaches (g := g)
    (by rw [hnpc]; exact toNat_pc (by decide)) (by rw [hnpc]; exact hl1.handler 1 (by decide)) hi1
  refine ⟨h1.trans h2, hl1.congr h2.mem, hpc2.trans hnpc, ?_⟩
  rw [hregs, hcause]
  rfl

/-- One comparison, up to its branch. -/
theorem At.load {k : Nat} {c d : BitVec 32} (h : At e g u k c v) (hk : k < 6)
    (hcode : e.code k = .opImm .add 31#5 0#5 d) :
    At e g u (k + 1) c v.step ∧ v.step.regs.get 31#5 = d := by
  have hnpc : T5Ctrl.npc v.pc = e.pc (k + 1) := by rw [h.pc, npc_pc]
  have hi : v.instr = some (.opImm .add 31#5 0#5 d) := by rw [h.instr (by omega), hcode]
  obtain ⟨h1, hpc, hregs⟩ := Solo.li_reaches (g := g)
    (by rw [hnpc]; exact toNat_pc (by omega)) (by rw [hnpc]; exact h.loaded.handler _ (by omega)) hi
  refine ⟨⟨h.reaches.trans h1, h.loaded.congr h1.mem, hpc.trans hnpc, ?_⟩, ?_⟩
  · rw [hregs]
    exact h.cause
  · rw [hregs]
    rfl

theorem At.compare {k : Nat} {c d : BitVec 32} (h : At e g u k c v) (hk : k < 5)
    (hcode : e.code k = .opImm .add 31#5 0#5 d) (hne : c ≠ d)
    (hbeq : e.code (k + 1) =
      .branch .beq 30#5 31#5 (byteAdr e.writeTohost - byteAdr (e.pc (k + 1)))) :
    At e g u (k + 2) c v.step.step := by
  obtain ⟨h1, hd⟩ := h.load (by omega) hcode
  have hnpc : T5Ctrl.npc v.step.pc = e.pc (k + 2) := by rw [h1.pc, npc_pc]
  have hi := h1.instr (by omega)
  rw [hbeq] at hi
  have htaken : Branch.beq.taken (v.step.regs.get 30#5) (v.step.regs.get 31#5) = false := by
    rw [h1.cause, hd]
    exact beq_eq_false_iff_ne.mpr hne
  obtain ⟨h2, hpc, hregs⟩ := Solo.branch_falls (g := g)
    (by rw [hnpc]; exact toNat_pc (by omega)) (by rw [hnpc]; exact h1.loaded.handler _ (by omega))
    hi htaken
  exact ⟨h1.reaches.trans h2, h1.loaded.congr h2.mem, hpc.trans hnpc, by rw [hregs]; exact h1.cause⟩

theorem At.found {k : Nat} {c : BitVec 32} (h : At e g u k c v) (hk : k < 6)
    (hcode : e.code k = .opImm .add 31#5 0#5 c)
    (hbeq : e.code (k + 1) =
      .branch .beq 30#5 31#5 (byteAdr e.writeTohost - byteAdr (e.pc (k + 1)))) :
    Solo.Reaches g (k + 3) u v.step.step ∧ v.step.step.pc = e.writeTohost := by
  obtain ⟨h1, hd⟩ := h.load hk hcode
  have hi := h1.instr (by omega)
  rw [hbeq, ← h1.pc] at hi
  have htaken : Branch.beq.taken (v.step.regs.get 30#5) (v.step.regs.get 31#5) = true := by
    rw [h1.cause, hd]
    exact beq_self_eq_true c
  have hlt := e.writeTohost_lt
  obtain ⟨h2, hpc⟩ := Solo.branch_reaches (g := g) hi htaken (by omega) h1.loaded.auipc
  exact ⟨h1.reaches.trans h2, hpc⟩

/-- From the `ecall` to the store that ends the simulation. -/
theorem Loaded.ends (hl : e.Loaded u.bus) (hi : u.instr = some .ecall)
    (hv : u.csrs.mtvec = byteAdr e.trapVector) :
    ∃ w, Solo.Reaches g 9 u w ∧ w.instr = some (.store .sw 30#5 3#5 e.lo) ∧
      w.soc.ends (.store .sw 30#5 3#5 e.lo) = true := by
  have h1 : At e g u 1 11#32 u.step.step := at_one hl hi hv
  have h3 := h1.compare (by decide) rfl (by decide) rfl
  have h5 := h3.compare (by decide) rfl (by decide) rfl
  obtain ⟨h8, hpc⟩ := h5.found (by decide) rfl rfl
  generalize u.step.step.step.step.step.step.step.step = v at h8 hpc
  have hlv : e.Loaded v.bus := hl.congr h8.mem
  have hiv : v.instr = some (.auipc 30#5 e.hi) := by
    show decode (v.bus.word v.pc) = _
    rw [hpc]
    exact hlv.auipc
  obtain ⟨h9, hpc9, hregs⟩ := Solo.auipc_reaches (g := g) (by rw [hpc]; exact toNat_store)
    (by rw [hpc]; exact hlv.store) hiv
  have hiw : v.step.instr = some (.store .sw 30#5 3#5 e.lo) := by
    show decode (v.step.bus.word v.step.pc) = _
    rw [hpc9, hpc]
    exact (hlv.congr h9.mem).store
  refine ⟨v.step, h8.trans h9, hiw, ?_⟩
  show ((v.step.soc.rs1 0#2 + e.lo).toNat / 4 == T5Sim.testEnd.toNat) = true
  rw [Solo.rs1_of_source hiw rfl, hregs]
  show ((byteAdr v.pc + e.hi + e.lo).toNat / 4 == T5Sim.testEnd.toNat) = true
  rw [hpc, e.tohost]
  rfl

end TestEnv

/-! ## The signature -/

/-- The simulation ends in the handler, with memory and console as they were at the
`ecall`. -/
theorem TestEnv.Loaded.exits {X : DontCare} {s₀ b : T5Sim} {regs : BitVec 2 → Regs} {bus : Bus}
    {g : Gate} {n : Nat} {e : TestEnv} {u : Solo}
    (hu : Solo.step^[n] (Solo.boot (regs 0#2) bus) = u) (hl : e.Loaded u.bus)
    (hi : u.instr = some .ecall) (hv : u.csrs.mtvec = byteAdr e.trapVector)
    (hb : T5Sim.Boots X s₀ b) (h0 : s₀.iadr = 0#32) (hbus : WorldSees s₀.world bus)
    (hregs : BootRegs b.cpu (Soc.boot regs bus)) (hg : g.Guards bus)
    (hfit : ∀ k < n, (Solo.step^[k] (Solo.boot (regs 0#2) bus)).fit g = true)
    (hlim : u.rounds + 36 < maxRounds) :
    ∃ t c, T5Sim.EndsTest X s₀ (u.rounds + 37) t ∧ WorldSees t.world c ∧ c.mem = u.bus.mem ∧
      c.console = u.bus.console := by
  obtain ⟨w, hw, hiw, hend⟩ := hl.ends (g := g) hi hv
  obtain ⟨hsteps, hfit', hmem, hconsole, hrounds⟩ := hw
  have hsteps' : Solo.step^[n + 9] (Solo.boot (regs 0#2) bus) = w := by
    rw [Nat.add_comm, Function.iterate_add_apply, hu, hsteps]
  have hall : ∀ k < n + 9, (Solo.step^[k] (Solo.boot (regs 0#2) bus)).fit g = true := by
    intro k hk
    rcases Nat.lt_or_ge k n with hlt | hge
    · exact hfit k hlt
    · obtain ⟨d, rfl⟩ := Nat.exists_eq_add_of_le hge
      rw [Nat.add_comm, Function.iterate_add_apply, hu]
      exact hfit' d (by omega)
  obtain ⟨t, ht, hworld⟩ := hg.exits (i := .store .sw 30#5 3#5 e.lo) hb h0 hbus hregs hall
    (by rw [hsteps']; exact hiw) (by rw [hsteps']; exact hend) (by rw [hsteps', hrounds]; omega)
  rw [hsteps'] at ht hworld
  rw [hrounds] at ht
  exact ⟨t, w.bus.tick, ht, hworld, hmem, hconsole⟩

/-- A test of the compliance suite.  If hart 0 comes to an `ecall` with `mtvec` at the
handler of the test environment, the simulation ends at the store of the handler, 37 rounds
later, and console and signature are those of the `ecall`. -/
theorem signature_at_ecall (X : DontCare) {s₀ b : T5Sim} (hb : T5Sim.Boots X s₀ b)
    (h0 : s₀.iadr = 0#32) (regs : BitVec 2 → Regs) (bus : Bus) (hbus : WorldSees s₀.world bus)
    (hregs : BootRegs b.cpu (Soc.boot regs bus)) (g : Gate) (hg : g.Guards bus) (n : Nat)
    (hfit : ∀ k < n, (Solo.step^[k] (Solo.boot (regs 0#2) bus)).fit g = true) (e : TestEnv)
    (hl : e.Loaded (Solo.step^[n] (Solo.boot (regs 0#2) bus)).bus)
    (hi : (Solo.step^[n] (Solo.boot (regs 0#2) bus)).instr = some .ecall)
    (hv : (Solo.step^[n] (Solo.boot (regs 0#2) bus)).csrs.mtvec = byteAdr e.trapVector)
    (hlim : (Solo.step^[n] (Solo.boot (regs 0#2) bus)).rounds + 36 < maxRounds) :
    ∃ t, T5Sim.EndsTest X s₀ ((Solo.step^[n] (Solo.boot (regs 0#2) bus)).rounds + 37) t ∧
      t.cerr = (Solo.step^[n] (Solo.boot (regs 0#2) bus)).bus.console ∧
      ∀ signa signo : BitVec 32, signa ≤ signo → signa.toNat % 4 = 0 →
        Dump.InArray signa signo →
        ∃ d, Loop.Exits (Dump.step t.ram signo) (Dump.start signa) (.closed d) ∧
          d.out = (Dump.blocks signa.toNat signo.toNat).map
            (Solo.step^[n] (Solo.boot (regs 0#2) bus)).bus.line := by
  obtain ⟨t, c, ht, hworld, hmem, hconsole⟩ := hl.exits rfl hi hv hb h0 hbus hregs hg hfit hlim
  refine ⟨t, ht, hworld.console.trans hconsole, fun signa signo hle hal hin => ?_⟩
  obtain ⟨d, hd, hout⟩ := hworld.signature hle hal hin
  exact ⟨d, hd, hout.trans (List.map_congr_left fun k _ => by rw [Bus.line, Bus.line, hmem])⟩

/-- A test that stores `1` at `0x100`: the handler is at `4`, its store at `0x20`, and the
code behind the gate sets `mtvec`. -/
theorem signature_at_ecall_of_one :
    let image : Ram := fun k =>
      [0x02C0006F#32, 0x34202F73#32, 0x00800F93#32, 0x01FF0A63#32, 0x00900F93#32,
        0x01FF0663#32, 0x00B00F93#32, 0x01FF0263#32, 0x00001F17#32, 0xFE3F2023#32,
        0xFF9FF06F#32, 0xF1402573#32, 0x00051063#32, 0x00400293#32, 0x30529073#32,
        0x00100193#32, 0x10302023#32, 0x00000073#32].getD k.toNat 0x00000013#32
    ∃ t n, T5Sim.EndsTest default (T5Sim.entered image) n t ∧
      ∃ d, Loop.Exits (Dump.step t.ram 0x110#32) (Dump.start 0x100#32) (.closed d) ∧
        d.out = ["00000013000000130000001300000001".toList] := by
  intro image
  let bus : Bus :=
    { mem := image.byte, mtime := 0#32, mtimecmp := 0xFFFFFFFF#32, console := [] }
  let g : Gate :=
    { first := 11#30, reg := 10#5, back := 0#32, first_lt := by decide, reg_ne := by decide
      back_cases := .inl rfl }
  let e : TestEnv :=
    { trapVector := 1#30, writeTohost := 8#30, hi := 0x1000#32, lo := -32#32
      trapVector_lt := by decide, writeTohost_lt := by decide, tohost := by decide }
  let b := Loop.after (T5Sim.round default) 9 (T5Sim.entered image)
  let regs : BitVec 2 → Regs := fun _ => Regs.clear
  have hb : T5Sim.Boots default (T5Sim.entered image) b :=
    ⟨⟨rfl, rfl⟩, Loop.steps_eq_after (by decide +kernel)⟩
  have hbus : WorldSees (T5Sim.entered image).world bus := ⟨fun _ _ => rfl, rfl, rfl, rfl⟩
  have hregs : BootRegs b.cpu (Soc.boot regs bus) :=
    ⟨by decide +kernel, by decide +kernel, by decide +kernel, by decide +kernel⟩
  have hg : g.Guards bus := ⟨by decide +kernel, by decide +kernel, by decide +kernel⟩
  have hfit : ∀ k < 7, (Solo.step^[k] (Solo.boot (regs 0#2) bus)).fit g = true := by
    decide +kernel
  have hl : e.Loaded (Solo.step^[7] (Solo.boot (regs 0#2) bus)).bus :=
    ⟨by decide +kernel, by decide +kernel, by decide +kernel⟩
  obtain ⟨t, ht, -, hdump⟩ := signature_at_ecall default hb rfl regs bus hbus hregs g hg 7 hfit e hl
    (by decide +kernel) (by decide +kernel) (by decide +kernel)
  obtain ⟨d, hd, hout⟩ := hdump 0x100#32 0x110#32 (by decide) (by decide) (by decide)
  exact ⟨t, _, ht, d, hd, hout.trans (by decide +kernel)⟩

end Tra5
