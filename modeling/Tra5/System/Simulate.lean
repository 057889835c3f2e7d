/-
The simulator runs the machine.

A step of the machine is one round of the simulator, or two for a load or a store: in
the first of the two the core stalls with its strobe high, in the second the access is
acknowledged and performed, and the core moves.  `Tracks` is the state between two
rounds, with the bus and the number of rounds apart from the machine because the first
of the two rounds changes them before the machine steps.
-/
import Tra5.System.Follow
import Tra5.System.World

namespace Tra5

open Rv32 T5Inst

structure Tracks (X : DontCare) (t : T5Sim) (s : Soc) (i : Instr) (b : Bus) (rounds : Nat)
    (ack : Bool) : Prop where
  sysRst : t.sysRst = false
  running : T5Rv32i.Running t.cpu
  ena : t.cpu.sysc.ena = true
  follows : Follows X s i t.cpu.pipe
  dwbAck : t.dwbAck = ack
  iadr : t.iadr = index (s.pc (whart (whart s.turn)))
  inRam : (s.pc (whart (whart s.turn))).toNat < 2 ^ 18
  iwbDat : t.iwbDat = t.ram.word t.iadr
  cnt : t.cnt = BitVec.ofNat 32 (10 * (rounds + 1))
  world : WorldSees t.world b

/-- The simulator is where the machine is. -/
def Sees (X : DontCare) (t : T5Sim) (s : Soc) (i : Instr) : Prop :=
  Tracks X t s i s.bus s.rounds false

/-- The rounds that the loop can take in all, `cnt` being ten times as far. -/
def maxRounds : Nat := 838860

namespace Tracks

variable {X : DontCare} {t u : T5Sim} {s : Soc} {i j : Instr} {b : Bus} {rounds : Nat}
  {ack : Bool}

/-! ## The core -/

theorem word (h : Tracks X t s i b rounds ack) (hb : ∀ n, b.mem n = s.bus.mem n) :
    t.iwbDat = s.word (whart (whart s.turn)) := by
  rw [h.iwbDat, h.iadr]
  refine (h.world.word h.inRam).trans (Soc.word_congr fun n _ _ => ?_)
  exact hb n

/-- The request of the execute slot is that of the instruction. -/
theorem request (h : Tracks X t s i b rounds ack) : ∃ e, t.cpu.request =
    (datapath X e (s.pc s.turn) (s.word s.turn) (s.rs1 s.turn) (s.rs2 s.turn)).request := by
  obtain ⟨k, csr, hx, -⟩ := h.follows.execute.toExecute
  refine ⟨{ dhart := k, decodeCsr := csr, executeCsr := default, dwbDti := 0#32 }, ?_⟩
  show Request.mk t.cpu.pipe.aslu.toExecute.xbpc t.cpu.pipe.aslu.toExecute.xdat
    t.cpu.pipe.data.xsel t.cpu.pipe.data.xwre (t.cpu.pipe.data.xstb.getLsbD 1) = _
  rw [hx, h.follows.execute.data]
  rfl

theorem dwbStb (h : Tracks X t s i b rounds ack) (hw : Encodes (s.word s.turn) i) :
    t.cpu.dwbStb = i.isMemory := by
  show (t.cpu.pipe.data.xstb).getLsbD 1 = _
  rw [h.follows.execute.data]
  exact (getLsbD_one_pair _ _).trans (strobe_of_encodes hw)

theorem sena (h : Tracks X t s i b rounds ack) (hw : Encodes (s.word s.turn) i) (k : Input)
    (he : k.sysEna = true) (ha : k.dwbAck = ack) : t.cpu.sena k = (i.isMemory == ack) := by
  have hstb : t.cpu.data.xstb.getLsbD 1 = i.isMemory := h.dwbStb hw
  rw [T5Rv32i.sena, T5Sysc.sena, he, h.ena, hstb, ha]
  cases i.isMemory <;> cases ack <;> rfl

theorem advancing (h : Tracks X t s i b rounds ack) (hw : Encodes (s.word s.turn) i)
    (ho : T5Sim.Onward X t u) : t.cpu.advancing t.edgeInput = (i.isMemory == ack) := by
  have he : t.edgeInput.sysEna = true := by rw [ho.edgeInput]; rfl
  have ha : t.edgeInput.dwbAck = ack := by rw [ho.edgeInput]; exact h.dwbAck
  rw [T5Rv32i.advancing, T5Rv32i.srst_of_rst h.running.rst, h.sena hw _ he ha]
  rfl

theorem fetchIndex (h : Tracks X t s i b rounds ack) (hw : Encodes (s.word s.turn) i) :
    t.fetchIndex = if i.isMemory == ack then index (s.pc (whart (whart (whart s.turn))))
      else index (s.pc (whart (whart s.turn))) := by
  have hadr : t.cpu.iwbAdr = s.pc (whart (whart (whart s.turn))) := h.follows.iwbAdr
  rw [T5Sim.fetchIndex, T5Rv32i.iwbStb, h.sena hw t.input rfl h.dwbAck, hadr, h.iadr]

/-! ## Going on -/

theorem inBuf_fetchIndex (h : Tracks X t s i b rounds ack) (hw : Encodes (s.word s.turn) i)
    (hf : (s.pc (whart (whart (whart s.turn)))).toNat < 2 ^ 18) :
    inBuf t.fetchIndex = true := by
  rw [h.fetchIndex hw]
  split
  · exact inBuf_index_of_lt hf
  · exact inBuf_index_of_lt h.inRam

theorem cnt_lt (h : Tracks X t s i b rounds ack) (hlim : rounds < maxRounds) :
    t.cnt < 8388608#32 := by
  rw [h.cnt, BitVec.lt_def, BitVec.toNat_ofNat]
  rw [maxRounds] at hlim
  show (10 * (rounds + 1)) % 2 ^ 32 < 8388608
  rw [Nat.mod_eq_of_lt (by omega)]
  omega

/-- A store that the machine allows does not end the test. -/
theorem testEnds (h : Tracks X t s i b rounds ack) (hr : Soc.Regular s i j) :
    t.testEnds = false := by
  obtain ⟨e, hreq⟩ := h.request
  have hadr : t.cpu.dwbAdr = _ := congrArg Request.adr hreq
  have hwre : t.cpu.dwbWre = _ := congrArg Request.wre hreq
  cases hm : i.isMemory with
  | false =>
    exact T5Sim.testEnds_of_not_completes
      (T5Sim.completes_of_idle ((h.dwbStb hr.encodes).trans hm))
  | true =>
    cases i with
    | load op r q imm =>
      rw [(request_of_load X hr.encodes e _ _ _).2] at hwre
      exact T5Sim.testEnds_of_not_completes (T5Sim.completes_of_load hwre)
    | store op q r imm =>
      have ha := hr.allowed
      simp only [Soc.allowed, Soc.ends, Bool.and_eq_true, Bool.not_eq_true', beq_eq_false_iff_ne,
        decide_eq_true_eq] at ha
      rw [request_of_store X hr.encodes e] at hadr
      rw [T5Sim.testEnds, hadr, beq_false_of_ne, Bool.and_false]
      exact fun he => ha.1.2 ((index_eq_testEnd_iff ha.1.1).mp he)
    | lui | auipc | jal | jalr | branch | opImm | opReg | fence | fenceI | ecall | ebreak | mret
    | csr => exact Bool.noConfusion hm

theorem goesOn (h : Tracks X t s i b rounds ack) (hr : Soc.Regular s i j)
    (hlim : rounds < maxRounds) : t.goesOn = true := by
  rw [T5Sim.goesOn, decide_eq_true (h.cnt_lt hlim), h.inBuf_fetchIndex hr.encodes hr.fetch,
    h.testEnds hr]
  rfl

theorem cnt_succ (h : Tracks X t s i b rounds ack) (ho : T5Sim.Onward X t u) :
    u.cnt = BitVec.ofNat 32 (10 * (rounds + 1 + 1)) := by
  rw [ho.cnt, h.cnt, ← BitVec.ofNat_add]
  rfl

/-! ## The two kinds of round -/

/-- The first round of a load or a store. -/
theorem stall (h : Tracks X t s i b rounds false) (hw : Encodes (s.word s.turn) i)
    (hm : i.isMemory = true) (ho : T5Sim.Onward X t u) :
    Tracks X u s i b.tick (rounds + 1) true := by
  have hst : t.cpu.advancing t.edgeInput = false := by rw [h.advancing hw ho, hm]; rfl
  have hlow : t.edgeInput.sysRst = false := by rw [ho.edgeInput]; exact h.sysRst
  have hpipe : u.cpu.pipe = t.cpu.pipe := by
    rw [ho.cpu]
    exact (stallFree X).abs_stall _ _ h.running hlow hst
  have hfetch : t.fetchIndex = t.iadr := by rw [h.fetchIndex hw, hm, h.iadr]; rfl
  have hserved : t.served = t.world :=
    T5Sim.served_of_not_completes (T5Sim.completes_of_wait h.dwbAck)
  constructor
  · exact ho.sysRst
  · rw [ho.cpu]
    exact h.running.step X hlow
  · rw [ho.cpu, T5Rv32i.sysc_step_of_rst X h.running.rst hlow]
  · rw [hpipe]
    exact h.follows
  · rw [ho.dwbAck, h.dwbStb hw, hm, h.dwbAck]
    rfl
  · rw [ho.iadr, hfetch, h.iadr]
  · exact h.inRam
  · rw [ho.iwbDat, ho.iadr]
  · exact h.cnt_succ ho
  · rw [ho.world, hserved]
    exact h.world.tick

/-- The round in which the core moves. -/
theorem move (h : Tracks X t s i b rounds ack) (hr : Soc.Regular s i j) (hm : i.isMemory = ack)
    (hb : ∀ n, b.mem n = s.bus.mem n) (hload : s.LoadAnswered i t.reply)
    (hserved : WorldSees t.served.tick (s.busAfter s.turn i))
    (hrounds : rounds + 1 = s.rounds + Soc.cycles i) (ho : T5Sim.Onward X t u) :
    Sees X u (s.exec i) j := by
  have hadv : t.cpu.advancing t.edgeInput = true := by
    rw [h.advancing hr.encodes ho, hm, beq_self_eq_true]
  have hlow : t.edgeInput.sysRst = false := by rw [ho.edgeInput]; exact h.sysRst
  have hsample : t.edgeInput.sample = { iwbDat := t.iwbDat, dwbDti := t.reply } := by
    rw [ho.edgeInput]
    rfl
  have hpipe : u.cpu.pipe = t.cpu.pipe.advance X t.edgeInput.sample := by
    rw [ho.cpu]
    exact T5Rv32i.pipe_step_of_advancing X h.running.readSafe hadv hlow
  have hfetch : t.fetchIndex = index (s.pc (whart (whart (whart s.turn)))) := by
    rw [h.fetchIndex hr.encodes, hm, beq_self_eq_true, if_pos rfl]
  have hpc : (s.exec i).pc (whart (whart (s.exec i).turn)) =
      s.pc (whart (whart (whart s.turn))) := Soc.pc_exec_of_ne (whart_three_ne s.turn).symm i
  constructor
  · exact ho.sysRst
  · rw [ho.cpu]
    exact h.running.step X hlow
  · rw [ho.cpu, T5Rv32i.sysc_step_of_rst X h.running.rst hlow]
  · rw [hpipe, hsample]
    exact h.follows.advance hr (h.word hb) hload
  · rw [ho.dwbAck, h.dwbStb hr.encodes, hm, h.dwbAck, Bool.and_not_self]
  · rw [ho.iadr, hfetch, hpc]
  · rw [hpc]
    exact hr.fetch
  · rw [ho.iwbDat, ho.iadr]
  · rw [h.cnt_succ ho, hrounds]
    rfl
  · rw [ho.world]
    exact hserved

end Tracks

/-! ## One step -/

namespace Soc

variable {s : Soc} {i j : Instr}

theorem busAfter_of_not_memory (hm : i.isMemory = false) : s.busAfter s.turn i = s.bus.tick := by
  cases i with
  | load | store => exact Bool.noConfusion hm
  | lui | auipc | jal | jalr | branch | opImm | opReg | fence | fenceI | ecall | ebreak | mret
  | csr => rfl

theorem loadAnswered_of_not_memory (hm : i.isMemory = false) (v : BitVec 32) :
    s.LoadAnswered i v := by
  rintro op r q imm rfl -
  exact Bool.noConfusion hm

theorem Regular.address_lt (hr : Regular s i j) (op : Load) (r q : BitVec 5) (imm : BitVec 32)
    (hi : i = .load op r q imm) : (s.address imm).toNat < 2 ^ 31 := by
  have ha := hr.allowed
  subst hi
  exact of_decide_eq_true ha

end Soc

namespace Tracks

variable {X : DontCare} {t u : T5Sim} {s : Soc} {i j : Instr}

/-- The second round of a load. -/
theorem load_answered {op : Load} {r q : BitVec 5} {imm : BitVec 32} (hi : i = .load op r q imm)
    (h : Tracks X t s i s.bus.tick (s.rounds + 1) true) (hr : Soc.Regular s i j)
    (hdti : t.dwbDti = t.ram.load (index t.cpu.dwbAdr)) :
    s.LoadAnswered i t.reply ∧ t.served = t.world := by
  subst hi
  obtain ⟨e, hreq⟩ := h.request
  obtain ⟨hadr, hwre⟩ := request_of_load X hr.encodes e (s.pc s.turn) (s.rs1 s.turn) (s.rs2 s.turn)
  rw [← hreq] at hadr hwre
  have hstb : t.cpu.dwbStb = true := h.dwbStb hr.encodes
  have hreply : t.reply = t.world.read t.cpu.request := by
    rw [T5Sim.reply, World.read, hstb, show t.cpu.dwbWre = false from hwre, h.dwbAck, hdti]
    by_cases hbuf : inBuf (index t.cpu.dwbAdr) = true
    · rw [if_pos (show inBuf (index t.cpu.request.adr) = true from hbuf), hbuf]
      rfl
    · rw [if_neg (show ¬ inBuf (index t.cpu.request.adr) = true from hbuf),
        Bool.eq_false_iff.mpr hbuf]
      rfl
  refine ⟨fun op' r' q' imm' hi ht => ?_, ?_⟩
  · cases hi
    have hal : alignedTo op.log2Size (s.rs1 s.turn + imm) = true := by
      simpa [Instr.accessMisaligned] using (Instr.aligned_of_not_traps ht).2
    rw [hreply]
    exact h.world.load hal (hr.address_lt op r q imm rfl) hadr
  · exact T5Sim.served_of_not_completes (T5Sim.completes_of_load hwre)

/-- The second round of a store. -/
theorem store_served {op : Store} {q r : BitVec 5} {imm : BitVec 32} (hi : i = .store op q r imm)
    (h : Tracks X t s i s.bus.tick (s.rounds + 1) true) (hr : Soc.Regular s i j) :
    WorldSees t.served.tick (s.busAfter s.turn i) := by
  subst hi
  obtain ⟨e, hreq⟩ := h.request
  have hstb : t.cpu.dwbStb = true := h.dwbStb hr.encodes
  have hwre : t.cpu.dwbWre = true := by
    refine (congrArg Request.wre hreq).trans ?_
    rw [request_of_store X hr.encodes e]
  have ha := hr.allowed
  simp only [Soc.allowed, Bool.and_eq_true, Bool.or_eq_true, Bool.not_eq_true',
    decide_eq_true_eq] at ha
  rw [T5Sim.served_of_store hstb h.dwbAck hwre, hreq]
  cases ht : s.traps s.turn (.store op q r imm) with
  | true =>
    have hal : alignedTo op.log2Size (s.rs1 s.turn + imm) = false := by
      have htrap : (Instr.store op q r imm).traps _ _ _ = true := ht
      rw [Instr.traps_of_not_system rfl] at htrap
      simpa [Instr.jumpMisaligned, Instr.target, Instr.accessMisaligned] using htrap
    have hlt := ha.2.resolve_left (by rw [ht]; exact Bool.true_eq_false_eq_False)
    simp only [Soc.busAfter, ht, if_true]
    exact (h.world.store_misaligned hr.encodes hal hlt e).tick
  | false =>
    have hal : alignedTo op.log2Size (s.rs1 s.turn + imm) = true := by
      simpa [Instr.accessMisaligned] using (Instr.aligned_of_not_traps ht).2
    simp only [Soc.busAfter, ht, Bool.false_eq_true, if_false]
    exact (h.world.store hr.encodes hal ha.1.1 e).tick

end Tracks

namespace Sees

variable {X : DontCare} {t : T5Sim} {s : Soc} {i j : Instr}

theorem step_of_not_memory (h : Sees X t s i) (hr : Soc.Regular s i j) (hm : i.isMemory = false)
    (hlim : (s.exec i).rounds ≤ maxRounds) :
    ∃ u, Loop.steps (T5Sim.round X) 1 t = some u ∧ Sees X u (s.exec i) j := by
  have hcyc : Soc.cycles i = 1 := by rw [Soc.cycles, hm]; rfl
  have hlt : s.rounds < maxRounds := by
    have : (s.exec i).rounds = s.rounds + Soc.cycles i := rfl
    omega
  obtain ⟨u, hu, ho⟩ := T5Sim.exists_round X h.sysRst (h.goesOn hr hlt)
  refine ⟨u, by rw [Loop.steps_succ_of_ok hu]; rfl, ?_⟩
  refine h.move hr hm (fun _ => rfl) (Soc.loadAnswered_of_not_memory hm _) ?_ (by rw [hcyc]) ho
  rw [Soc.busAfter_of_not_memory hm,
    T5Sim.served_of_not_completes (T5Sim.completes_of_wait h.dwbAck)]
  exact h.world.tick

theorem step_of_memory (h : Sees X t s i) (hr : Soc.Regular s i j) (hm : i.isMemory = true)
    (hlim : (s.exec i).rounds ≤ maxRounds) :
    ∃ u, Loop.steps (T5Sim.round X) 2 t = some u ∧ Sees X u (s.exec i) j := by
  have hcyc : Soc.cycles i = 2 := by rw [Soc.cycles, hm]; rfl
  have hlt : s.rounds + 1 < maxRounds := by
    have : (s.exec i).rounds = s.rounds + Soc.cycles i := rfl
    omega
  obtain ⟨v, hv, hov⟩ := T5Sim.exists_round X h.sysRst (h.goesOn hr (by omega))
  have hwait := h.stall hr.encodes hm hov
  obtain ⟨u, hu, hou⟩ := T5Sim.exists_round X hwait.sysRst (hwait.goesOn hr hlt)
  refine ⟨u, by rw [Loop.steps_succ_of_ok hv, Loop.steps_succ_of_ok hu]; rfl, ?_⟩
  have hrounds : s.rounds + 1 + 1 = s.rounds + Soc.cycles i := by rw [hcyc]
  have hdti : v.dwbDti = v.ram.load (index v.cpu.dwbAdr) := by
    have hstb := h.dwbStb hr.encodes
    have hst : t.cpu.advancing t.edgeInput = false := by rw [h.advancing hr.encodes hov, hm]; rfl
    have hlow : t.edgeInput.sysRst = false := by rw [hov.edgeInput]; exact h.sysRst
    have hadr : v.cpu.dwbAdr = t.cpu.dwbAdr := by
      rw [hov.cpu]
      exact congrArg (fun p : Pipe => p.aslu.xbpc)
        ((stallFree X).abs_stall _ _ h.running hlow hst)
    rw [hov.dwbDti, hov.dadr, hstb, hm, if_pos rfl, hadr]
  cases i with
  | load op r q imm =>
    obtain ⟨hload, hserved⟩ := hwait.load_answered rfl hr hdti
    refine hwait.move hr hm (fun _ => rfl) hload ?_ hrounds hou
    rw [hserved]
    exact hwait.world.tick
  | store op q r imm =>
    refine hwait.move hr hm (fun _ => rfl) ?_ (hwait.store_served rfl hr) hrounds hou
    rintro op' r' q' imm' hi -
    cases hi
  | lui | auipc | jal | jalr | branch | opImm | opReg | fence | fenceI | ecall | ebreak | mret
  | csr => exact Bool.noConfusion hm

/-- One step of the machine. -/
theorem step (h : Sees X t s i) (hr : Soc.Regular s i j)
    (hlim : (s.exec i).rounds ≤ maxRounds) :
    ∃ u, Loop.steps (T5Sim.round X) (Soc.cycles i) t = some u ∧ Sees X u (s.exec i) j := by
  cases hm : i.isMemory with
  | false =>
    rw [Soc.cycles, hm, if_neg Bool.false_ne_true]
    exact h.step_of_not_memory hr hm hlim
  | true =>
    rw [Soc.cycles, hm, if_pos rfl]
    exact h.step_of_memory hr hm hlim

end Sees

end Tra5
