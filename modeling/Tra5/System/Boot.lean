/-
From the entry of the loop to the first step of the machine.

Twelve rounds after the loop was entered the machine is at its first step: nine of them
are the reset, one is the cycle in which the core is not yet enabled, and two fill the
decode and the execute slot.  The word in the execute slot was on the bus before any
fetch.  It runs as the first instruction of hart 2 if it is the word at address 0, as it
is when the variable `iadr` happens to be zero, and the registers it reads, those of
hart 0, have the values of hart 2.
-/
import Tra5.System.Simulate

namespace Tra5

open Rv32 T5Inst

namespace Soc

/-- The machine at its first step, on a bus that has seen twelve cycles. -/
def boot (regs : BitVec 2 → Regs) (bus : Bus) : Soc :=
  { turn := 2#2, pc := fun _ => 0#30, regs, csrs := .reset, bus := Bus.tick^[12] bus, rounds := 12 }

theorem mem_tick (b : Bus) (n : Nat) : (Bus.tick^[n] b).mem = b.mem := by
  induction n generalizing b with
  | zero => rfl
  | succ n ih =>
    rw [Function.iterate_succ_apply, ih]
    rfl

end Soc

theorem WorldSees.ticks {w : World} {b : Bus} (h : WorldSees w b) (n : Nat) :
    WorldSees (World.tick^[n] w) (Bus.tick^[n] b) := by
  induction n generalizing w b with
  | zero => exact h
  | succ n ih => exact ih h.tick

/-! ## The pipeline -/

theorem sees_reset : CsrSees T5Aslu.reset.toCsr .reset :=
  ⟨rfl, rfl, rfl, rfl, rfl, fun _ hv => Option.some.inj hv⟩

namespace Pipe

variable {X : DontCare} {p : Pipe}

theorem AtReset.first (h : p.AtReset) (k : Sample) :
    (p.advance X k).gprf = p.gprf ∧
      (p.advance X k).inst = { hart := 1#2, dhart := 2#2, fpc := 0#32, iwbAdr := 0#30 } := by
  have hrun : (p.run X [k]).inst.iwbAdr = 0#30 ∧ (p.run X [k]).gprf = p.gprf :=
    h.run (by simp) (fun _ _ _ he => by cases he)
  have hnext : p.nextAdr = 0#30 := hrun.1
  refine ⟨hrun.2, ?_⟩
  show p.advanceInst = _
  rw [advanceInst, hnext, h.inst]
  rfl

theorem AtReset.second (h : p.AtReset) (k l : Sample) :
    ((p.advance X k).advance X l).gprf = p.gprf ∧ ((p.advance X k).advance X l).inst =
      { hart := 3#2, dhart := 0#2, fpc := 1#32, iwbAdr := 0#30 } := by
  have hrun : (p.run X [k, l]).inst.iwbAdr = 0#30 ∧ (p.run X [k, l]).gprf = p.gprf :=
    h.run (by simp) (fun _ _ _ he => by cases he)
  have hnext : (p.advance X k).nextAdr = 0#30 := hrun.1
  refine ⟨hrun.2, ?_⟩
  show (p.advance X k).advanceInst = _
  rw [advanceInst, hnext, (h.first k).2]
  rfl

theorem AtReset.csrs (h : p.AtReset) (k : Sample) :
    CsrSees (p.advance X k).aslu.toCsr .reset := by
  have hstep : (p.advance X k).aslu.toCsr = T5Aslu.nextCsr X
      (executeInputs p.aslu.toExecute p.data p.ctrl.xepc p.inst.dhart) p.ctrl.toDecode
      p.aslu.toCsr := rfl
  rw [hstep, h.aslu, h.data, h.ctrl]
  exact CsrSees.of_no_csr (m := .reset) sees_reset rfl rfl

end Pipe

/-- The machine is at its first step and the pipeline has just been reset, with the
registers of the machine. -/
structure AtBoot (s : Soc) (p : Pipe) : Prop where
  turn : s.turn = 2#2
  pc : ∀ h, s.pc h = 0#30
  csrs : s.csrs = .reset
  rs1 : s.rs1 0#2 = s.rs1 2#2
  rs2 : s.rs2 0#2 = s.rs2 2#2
  atReset : p.AtReset
  rs1d : ∀ h q, p.gprf.rs1d h q = (s.regs h).get q
  rs2d : ∀ h q, p.gprf.rs2d h q = (s.regs h).get q

namespace AtBoot

variable {X : DontCare} {s : Soc} {p : Pipe} {k l : Sample}

theorem word (hb : AtBoot s p) (h h' : BitVec 2) : s.word h = s.word h' := by
  rw [Soc.word, Soc.word, hb.pc, hb.pc]

/-- The first two words are decoded with the operands of hart 0. -/
theorem operands (hb : AtBoot s p) {r : Pipe} (hr : r.gprf = p.gprf) (hf : r.inst.fhart = 0#2) :
    r.rs1d (s.word 2#2) = s.rs1 0#2 ∧ r.rs2d (s.word 2#2) = s.rs2 0#2 := by
  rw [Pipe.rs1d, Pipe.rs2d, hf, hr, hb.rs1d, hb.rs2d, hb.word 2#2 0#2]
  exact ⟨rfl, rfl⟩

variable (hk : k.iwbDat = s.word 2#2) (hrv : T5Ctrl.rv32 (s.word 2#2) = true)

include hk hrv

theorem decode_first (hb : AtBoot s p) : DecodeSlot X s 2#2 (p.advance X k) := by
  have hctrl := p.advance_ctrl_of_rv32 X (k := k) (by rw [hk]; exact hrv)
  obtain ⟨h1, h2⟩ := hb.operands rfl (by rw [hb.atReset.inst]; rfl)
  have hpc : p.fetchPc = 0#30 := by rw [Pipe.fetchPc, hb.atReset.inst]; rfl
  rw [hk, h1, h2, hpc, hb.rs1, hb.rs2] at hctrl
  constructor
  · rw [hctrl, Soc.decoded, hb.pc]
  · rw [hctrl, hb.pc]
  · rw [hctrl, hb.pc]
  · rw [← hk]
    rfl

theorem decode_second (hb : AtBoot s p) (l : Sample) :
    DecodeSlot X s 0#2 ((p.advance X l).advance X k) ∧
      ((p.advance X l).advance X k).ctrl.xpc = (p.advance X l).ctrl.dpc ∧
      ((p.advance X l).advance X k).ctrl.xepc = (p.advance X l).ctrl.depc := by
  obtain ⟨hgprf, hinst⟩ := hb.atReset.first (X := X) l
  have hctrl := (p.advance X l).advance_ctrl_of_rv32 X (k := k) (by rw [hk]; exact hrv)
  obtain ⟨h1, h2⟩ := hb.operands hgprf (by rw [hinst]; rfl)
  have hpc : (p.advance X l).fetchPc = 0#30 := by rw [Pipe.fetchPc, hinst]; rfl
  rw [hk, h1, h2, hpc] at hctrl
  refine ⟨⟨?_, ?_, ?_, ?_⟩, by rw [hctrl], by rw [hctrl]⟩
  · rw [hctrl, Soc.decoded, hb.pc, hb.word 0#2 2#2]
  · rw [hctrl, hb.pc]
  · rw [hctrl, hb.pc]
  · rw [hb.word 0#2 2#2, ← hk]
    rfl

omit hk hrv

/-- The reset leaves a `lui` ahead of the first word. -/
theorem inputs_first (hb : AtBoot s p) (k : Sample) (xepc : BitVec 30) :
    executeInputs (p.advance X k).aslu.toExecute (p.advance X k).data xepc
        (p.advance X k).inst.dhart =
      executeInputs (T5Aslu.execute X 3#2 T5Aslu.reset.toCsr T5Ctrl.reset.toDecode)
        (T5Data.advance T5Ctrl.reset.toDecode) xepc 2#2 := by
  have hx : (p.advance X k).aslu.toExecute =
      T5Aslu.execute X p.inst.dhart p.aslu.toCsr p.ctrl.toDecode := rfl
  have hm : (p.advance X k).data = T5Data.advance p.ctrl.toDecode := rfl
  rw [hx, hm, (hb.atReset.first k).2, hb.atReset.inst, hb.atReset.aslu, hb.atReset.ctrl]
  rfl

theorem csrs_second (hb : AtBoot s p) {i : Instr} (hw : Encodes (s.word 2#2) i)
    (hdec : DecodeSlot X s 2#2 (p.advance X k)) :
    CsrSees ((p.advance X k).advance X l).aslu.toCsr (s.csrsIssued 2#2 i) := by
  have hstep : ((p.advance X k).advance X l).aslu.toCsr = T5Aslu.nextCsr X
      (executeInputs (p.advance X k).aslu.toExecute (p.advance X k).data
        (p.advance X k).ctrl.xepc (p.advance X k).inst.dhart)
      (p.advance X k).ctrl.toDecode (p.advance X k).aslu.toCsr := rfl
  rw [hstep, hb.inputs_first k]
  refine Soc.sees_issued ?_ rfl rfl hw hdec.toDecode ?_
  · rw [hb.csrs]
    exact hb.atReset.csrs k
  · exact fun _ _ _ _ _ _ => ⟨fun ht => Bool.noConfusion ht, fun _ => rfl⟩

theorem execute_second (hb : AtBoot s p) (i : Instr) (hk : k.iwbDat = s.word 2#2)
    (hl : l.iwbDat = s.word 2#2) (hrv : T5Ctrl.rv32 (s.word 2#2) = true) :
    ExecuteSlot X s 2#2 i ((p.advance X k).advance X l) := by
  have hdec := hb.decode_first (X := X) hk hrv
  obtain ⟨-, hxpc, hxepc⟩ := hb.decode_second (X := X) hl hrv k
  refine ⟨⟨(p.advance X k).inst.dhart, (p.advance X k).aslu.toCsr, ?_, ?_⟩, ?_, ?_, ?_, ?_⟩
  · rw [← hdec.toDecode]
    rfl
  · intro op isImm r q num v _ hv
    rw [hb.csrs] at hv
    rw [(hb.atReset.first k).2]
    exact (hb.atReset.csrs k).rcsr hv
  · rw [← hdec.toDecode]
    rfl
  · rw [hxpc, hdec.dpc]
  · rw [hxepc, hdec.depc]
  · rw [← hdec.drd]
    rfl

/-- After two edges with the word at address 0 the pipeline follows the machine. -/
theorem follows (hb : AtBoot s p) {i : Instr} (hw : Encodes (s.word 2#2) i)
    (hk : k.iwbDat = s.word 2#2) (hl : l.iwbDat = s.word 2#2) :
    Follows X s i ((p.advance X k).advance X l) := by
  have hrv := rv32_of_encodes hw
  obtain ⟨hgprf, hinst⟩ := hb.atReset.second (X := X) k l
  constructor
  · rw [hinst, hb.turn]
    rfl
  · rw [hinst, hb.turn]
    rfl
  · rw [hinst, hb.turn]
    rfl
  · rw [hinst, hb.pc]
  · rw [Pipe.fetchPc, hinst, hb.pc]
    rfl
  · rw [hgprf]
    exact hb.rs1d
  · rw [hgprf]
    exact hb.rs2d
  · rw [hb.turn]
    exact hb.csrs_second hw (hb.decode_first hk hrv)
  · rw [hb.turn]
    exact (hb.decode_second hl hrv k).1
  · rw [hb.turn]
    exact hb.execute_second i hk hl hrv

end AtBoot

/-! ## The rounds -/

namespace T5Sim

variable {X : DontCare} {s₀ s t : T5Sim}

/-- `n` rounds of the loop that have left the bus alone. -/
structure Idle (s₀ : T5Sim) (n : Nat) (s : T5Sim) : Prop where
  world : s.world = World.tick^[n] s₀.world
  iadr : s.iadr = s₀.iadr
  dadr : s.dadr = s₀.dadr
  cnt : s.cnt = BitVec.ofNat 32 (10 * (n + 1))

theorem AtEntry.idle (h : s₀.AtEntry) : Idle s₀ 0 s₀ := ⟨rfl, rfl, rfl, h.cnt⟩

theorem Idle.cnt_lt {n : Nat} (h : Idle s₀ n s) (hn : n < maxRounds) : s.cnt < 8388608#32 := by
  rw [maxRounds] at hn
  rw [h.cnt, BitVec.lt_def, BitVec.toNat_ofNat, Nat.mod_eq_of_lt (by omega)]
  show 10 * (n + 1) < 8388608
  omega

theorem Idle.cnt_succ {n : Nat} (h : Idle s₀ n s) :
    s.cnt + 10#32 = BitVec.ofNat 32 (10 * (n + 1 + 1)) := by
  rw [h.cnt, ← BitVec.ofNat_add]
  rfl

theorem Idle.reset {n : Nat} (h : Idle s₀ n s) (hr : s.sysRst = true) (ht : s.round X = .ok t) :
    Idle s₀ (n + 1) t := by
  rw [clock_of_reset hr ht]
  refine ⟨?_, h.iadr, h.dadr, h.cnt_succ⟩
  rw [Function.iterate_succ_apply', ← h.world]
  rfl

/-- The core fetches the same word again and does not strobe the data bus. -/
theorem Idle.onward {n : Nat} (h : Idle s₀ n s) (hindex : s.fetchIndex = s.iadr)
    (hstb : s.cpu.dwbStb = false) (ho : Onward X s t) :
    Idle s₀ (n + 1) t ∧ t.iwbDat = t.ram.word t.iadr ∧ t.dwbAck = false := by
  have hserved : s.served = s.world := served_of_not_completes (completes_of_idle hstb)
  refine ⟨⟨?_, ?_, ?_, ?_⟩, ?_, ?_⟩
  · rw [ho.world, hserved, Function.iterate_succ_apply', ← h.world]
  · rw [ho.iadr, hindex, h.iadr]
  · rw [ho.dadr, hstb, if_neg Bool.false_ne_true, h.dadr]
  · rw [ho.cnt, h.cnt_succ]
  · rw [ho.iwbDat, ho.iadr]
  · rw [ho.dwbAck, hstb, Bool.false_and]

theorem dwbStb_of_flushed {c : T5Rv32i} (h : T5Rv32i.Flushed c) : c.dwbStb = false := by
  rw [T5Rv32i.dwbStb, h.data]
  rfl

theorem Held.idle {k n : Nat} (h : Held s₀ k s) (hi : Idle s₀ k s) (hk : k + n ≤ 5)
    (hn : Loop.steps (T5Sim.round X) n s = some t) : Idle s₀ (k + n) t := by
  induction n generalizing s k with
  | zero =>
    cases hn
    exact hi
  | succ n ih =>
    obtain ⟨u, hu, hrest⟩ := Loop.steps_succ.mp hn
    have hr : s.sysRst = true := h.sysRst.trans (decide_eq_true (by omega))
    have hnext := ih (h.round (by omega) hu) (hi.reset hr hu) (by omega) hrest
    exact Nat.succ_add_eq_add_succ k n ▸ hnext

theorem Draining.idle {v : BitVec 4} {n : Nat} (h : Draining s₀ v s) (hv : v.getLsbD 3 = true)
    (hi : Idle s₀ n s) (hr : s.round X = .ok t) :
    Draining s₀ (v.extractLsb 2 0 ++ 0#1) t ∧ Idle s₀ (n + 1) t ∧
      t.iwbDat = t.ram.word t.iadr := by
  obtain ⟨ho, -⟩ := onward_of_round h.sysRst hr
  have hindex : s.fetchIndex = s.iadr := by
    rw [fetchIndex, T5Rv32i.iwbStb, T5Rv32i.sena, T5Sysc.sena, h.flushed.ena, Bool.and_false,
      Bool.false_and, if_neg Bool.false_ne_true]
  obtain ⟨hidle, hdat, -⟩ := hi.onward hindex (dwbStb_of_flushed h.flushed) ho
  exact ⟨(h.round hv hr).1, hidle, hdat⟩

theorem Boots.idle {b : T5Sim} (h : Boots X s₀ b) :
    Idle s₀ 9 b ∧ b.iwbDat = b.ram.word b.iadr := by
  have hrounds : Loop.steps (T5Sim.round X) (5 + 4) s₀ = some b := h.rounds
  obtain ⟨s, hs, hrest⟩ := Loop.steps_add.mp hrounds
  have h5 := h.entry.held.idle h.entry.idle (by decide) hs
  have hdrain : Draining s₀ 0xF#4 s := (h.entry.held.steps (by decide) hs).1.draining
  obtain ⟨s₆, h₆, hrest⟩ := Loop.steps_succ.mp hrest
  obtain ⟨s₇, h₇, hrest⟩ := Loop.steps_succ.mp hrest
  obtain ⟨s₈, h₈, hrest⟩ := Loop.steps_succ.mp hrest
  obtain ⟨s₉, h₉, hrest⟩ := Loop.steps_succ.mp hrest
  cases hrest
  obtain ⟨d6, i6, -⟩ := hdrain.idle rfl h5 h₆
  obtain ⟨d7, i7, -⟩ := d6.idle rfl i6 h₇
  obtain ⟨d8, i8, -⟩ := d7.idle rfl i7 h₈
  exact (d8.idle rfl i8 h₉).2

/-- A round before the first instruction reaches the execute slot. -/
theorem Idle.exists_round {n : Nat} (h : Idle s₀ n s) (h0 : s₀.iadr = 0#32) (hn : n < maxRounds)
    (hr : s.sysRst = false) (hadr : s.cpu.iwbAdr = 0#30) (hstb : s.cpu.dwbStb = false) :
    ∃ t, s.round X = .ok t ∧ Onward X s t ∧ Idle s₀ (n + 1) t ∧ t.iwbDat = t.ram.word t.iadr ∧
      t.dwbAck = false := by
  have hiadr : s.iadr = 0#32 := h.iadr.trans h0
  have hindex : s.fetchIndex = s.iadr := by
    rw [fetchIndex, hadr, hiadr]
    exact ite_self _
  have hends : s.testEnds = false := testEnds_of_not_completes (completes_of_idle hstb)
  have hgoes : s.goesOn = true := by
    rw [goesOn, decide_eq_true (h.cnt_lt hn), hindex, hiadr, hends]
    rfl
  obtain ⟨t, ht, ho⟩ := T5Sim.exists_round X hr hgoes
  exact ⟨t, ht, ho, h.onward hindex hstb ho⟩

/-- A round of the filling pipeline. -/
structure Fills (X : DontCare) (s₀ : T5Sim) (n : Nat) (p : Pipe) (s : T5Sim) : Prop where
  idle : Idle s₀ n s
  sysRst : s.sysRst = false
  running : T5Rv32i.Running s.cpu
  ena : s.cpu.sysc.ena = true
  pipe : s.cpu.pipe = p
  dwbAck : s.dwbAck = false
  iwbDat : s.iwbDat = s.ram.word s.iadr

/-- The cycle in which the core is not enabled yet. -/
theorem Boots.fills {b : T5Sim} (h : Boots X s₀ b) (h0 : s₀.iadr = 0#32) :
    ∃ t, b.round X = .ok t ∧ Fills X s₀ 10 b.cpu.pipe t := by
  obtain ⟨hr, hpost, -⟩ := h.fields
  obtain ⟨hidle, -⟩ := h.idle
  have hstb := dwbStb_of_flushed hpost.flushed
  have hadr : b.cpu.iwbAdr = 0#30 := hpost.flushed.iwbAdr
  obtain ⟨t, ht, ho, hn, hdat, hack⟩ := hidle.exists_round (X := X) h0 (by decide) hr hadr hstb
  have hlow : b.edgeInput.sysRst = false := by rw [ho.edgeInput]; exact hr
  have hst : b.cpu.advancing b.edgeInput = false := by
    rw [T5Rv32i.advancing, T5Rv32i.sena, T5Sysc.sena, hpost.flushed.ena, Bool.and_false,
      Bool.false_and, Bool.and_false]
  refine ⟨t, ht, hn, ho.sysRst, ?_, ?_, ?_, hack, hdat⟩
  · rw [ho.cpu]
    exact hpost.running.step X hlow
  · rw [ho.cpu, T5Rv32i.sysc_step_of_rst X hpost.rst hlow]
  · rw [ho.cpu]
    exact (stallFree X).abs_stall _ _ hpost.running hlow hst

theorem Fills.next {n : Nat} {p : Pipe} (h : Fills X s₀ n p s) (h0 : s₀.iadr = 0#32)
    (hn : n < maxRounds) (hadr : p.inst.iwbAdr = 0#30) (hstb : p.data.xstb.getLsbD 1 = false) :
    ∃ t k, s.round X = .ok t ∧ k.iwbDat = s.ram.word 0#32 ∧
      Fills X s₀ (n + 1) (p.advance X k) t := by
  have hadr' : s.cpu.iwbAdr = 0#30 := (congrArg (fun p : Pipe => p.inst.iwbAdr) h.pipe).trans hadr
  have hstb' : s.cpu.dwbStb = false :=
    (congrArg (fun p : Pipe => p.data.xstb.getLsbD 1) h.pipe).trans hstb
  obtain ⟨t, ht, ho, hi, hdat, hack⟩ := h.idle.exists_round (X := X) h0 hn h.sysRst hadr' hstb'
  have hlow : s.edgeInput.sysRst = false := by rw [ho.edgeInput]; exact h.sysRst
  have hadv : s.cpu.advancing s.edgeInput = true := by
    have hx : s.cpu.data.xstb.getLsbD 1 = false := hstb'
    have ha : s.edgeInput.dwbAck = false := by rw [ho.edgeInput]; exact h.dwbAck
    have he : s.edgeInput.sysEna = true := by rw [ho.edgeInput]; rfl
    rw [T5Rv32i.advancing, T5Rv32i.srst_of_rst h.running.rst, T5Rv32i.sena, T5Sysc.sena, h.ena, hx,
      ha, he]
    rfl
  refine ⟨t, s.edgeInput.sample, ht, ?_, hi, ho.sysRst, ?_, ?_, ?_, hack, hdat⟩
  · rw [ho.edgeInput]
    show s.iwbDat = _
    rw [h.iwbDat, h.idle.iadr, h0]
  · rw [ho.cpu]
    exact h.running.step X hlow
  · rw [ho.cpu, T5Rv32i.sysc_step_of_rst X h.running.rst hlow]
  · rw [ho.cpu, T5Rv32i.pipe_step_of_advancing X h.running.readSafe hadv hlow, h.pipe]

end T5Sim

/-! ## The first step of the machine -/

/-- The registers after reset are those of the machine, and the first word reads the same
values from hart 0 and from hart 2. -/
structure BootRegs (c : T5Rv32i) (s : Soc) : Prop where
  rs1d : ∀ h q, c.commit.rs1d h q = (s.regs h).get q
  rs2d : ∀ h q, c.commit.rs2d h q = (s.regs h).get q
  rs1 : s.rs1 0#2 = s.rs1 2#2
  rs2 : s.rs2 0#2 = s.rs2 2#2

theorem T5Sim.Boots.sees {X : DontCare} {s₀ b : T5Sim} (h : T5Sim.Boots X s₀ b)
    (h0 : s₀.iadr = 0#32) {regs : BitVec 2 → Regs} {bus : Bus} (hbus : WorldSees s₀.world bus)
    (hregs : BootRegs b.cpu (Soc.boot regs bus)) {i : Instr}
    (hw : Encodes ((Soc.boot regs bus).word 2#2) i) :
    ∃ t, Loop.steps (T5Sim.round X) 12 s₀ = some t ∧ Sees X t (Soc.boot regs bus) i := by
  obtain ⟨-, hpost, -⟩ := h.fields
  have hboot : AtBoot (Soc.boot regs bus) b.cpu.pipe :=
    ⟨rfl, fun _ => rfl, rfl, hregs.rs1, hregs.rs2, hpost.atReset, hregs.rs1d, hregs.rs2d⟩
  -- The word at address 0, as the array and as the machine have it.
  have hword {n : Nat} {p : Pipe} {s : T5Sim} (hf : T5Sim.Fills X s₀ n p s) :
      s.ram.word 0#32 = (Soc.boot regs bus).word 2#2 := by
    have hsees : WorldSees s.world (Bus.tick^[n] bus) := by
      rw [hf.idle.world]
      exact hbus.ticks n
    have hmem : ∀ m, (Bus.tick^[n] bus).mem m = (Soc.boot regs bus).bus.mem m := fun m => by
      rw [Soc.mem_tick]
      exact (congrFun (Soc.mem_tick bus 12) m).symm
    have hlt : (0#30).toNat < 2 ^ 18 := by decide
    exact (hsees.word hlt).trans (Soc.word_congr fun m _ _ => hmem m)
  obtain ⟨s, hs, hf⟩ := h.fills h0
  obtain ⟨u, k, hu, hk, hfu⟩ := hf.next h0 (by decide) (by rw [hboot.atReset.inst]; rfl)
    (by rw [hboot.atReset.data]; rfl)
  obtain ⟨t, l, ht, hl, hft⟩ := hfu.next h0 (by decide) (by rw [(hboot.atReset.first k).2])
    (by rw [show (b.cpu.pipe.advance X k).data = T5Data.advance b.cpu.pipe.ctrl.toDecode from rfl,
      hboot.atReset.ctrl]; rfl)
  have hfollow : Follows X (Soc.boot regs bus) i t.cpu.pipe := by
    rw [hft.pipe]
    exact hboot.follows hw (hk.trans (hword hf)) (hl.trans (hword hfu))
  have hsteps : Loop.steps (T5Sim.round X) (9 + 3) s₀ = some t := by
    refine Loop.steps_add.mpr ⟨b, h.rounds, ?_⟩
    rw [Loop.steps_succ_of_ok hs, Loop.steps_succ_of_ok hu, Loop.steps_succ_of_ok ht]
    rfl
  refine ⟨t, hsteps, hft.sysRst, hft.running, hft.ena, hfollow, hft.dwbAck, ?_, ?_, hft.iwbDat,
    hft.idle.cnt, ?_⟩
  · rw [hft.idle.iadr, h0]
    show 0#32 = index 0#30
    decide
  · show (0#30).toNat < 2 ^ 18
    decide
  · rw [hft.idle.world]
    exact hbus.ticks 12

end Tra5
