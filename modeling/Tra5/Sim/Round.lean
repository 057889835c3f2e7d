/-
A round of the simulator, with its devices.

Everything that the bus of the core leads to is in `World`: the array, the two timer
registers and the characters sent to the UART.  `round_cases` says when the loop goes on
and what a round then does to the core and to the world, and what it prints, for whatever
access is on the bus.  With the requests of loads and stores the array is the byte memory of
the instruction set.
-/
import Tra5.Sim.Step

namespace Tra5

open T5Sim Rv32 Memory

/-- The state of the simulator that a program can reach through the data bus. -/
structure World where
  ram : Ram
  mtime : BitVec 32
  mtimecmp : BitVec 32
  cerr : List (BitVec 8)

namespace World

def tick (w : World) : World := { w with mtime := w.mtime + 1#32 }

def readDevice (w : World) (adr : BitVec 32) : BitVec 32 :=
  if adr = mtimeBase then w.mtime else if adr = mtimecmpBase then w.mtimecmp else 0#32

def writeDevice (w : World) (adr dat : BitVec 32) : World :=
  if adr = uartBase then { w with cerr := w.cerr ++ [dat.extractLsb 7 0] }
  else if adr = mtimeBase then { w with mtime := dat }
  else if adr = mtimecmpBase then { w with mtimecmp := dat }
  else w

/-- The word that a completed load takes from the bus. -/
def read (w : World) (q : Request) : BitVec 32 :=
  if inBuf (index q.adr) then w.ram.load (index q.adr) else w.readDevice (index q.adr <<< 2)

/-- A completed store. -/
def write (w : World) (q : Request) : World :=
  if inBuf (index q.adr) then { w with ram := w.ram.store q }
  else w.writeDevice (index q.adr <<< 2) q.dto

end World

namespace T5Sim

variable {X : DontCare} {s t u : T5Sim}

def world (s : T5Sim) : World :=
  { ram := s.ram, mtime := s.mtime, mtimecmp := s.mtimecmp, cerr := s.cerr }

/-! ## The parts of a round -/

/-- The index of the word that the round puts on the instruction bus. -/
def fetchIndex (s : T5Sim) : BitVec 32 :=
  if s.cpu.iwbStb s.input then index s.cpu.iwbAdr else s.iadr

/-- The store that ends a test completes. -/
def testEnds (s : T5Sim) : Bool := s.completes && index s.cpu.dwbAdr == testEnd

/-- The word that the core finds on `dwb_dti` at the edge.  A device is read only now, the
array was read in the round before. -/
def reply (s : T5Sim) : BitVec 32 :=
  if s.cpu.dwbStb && !s.cpu.dwbWre && s.dwbAck && !inBuf (index s.cpu.dwbAdr) then
    s.world.readDevice (index s.cpu.dwbAdr <<< 2)
  else s.dwbDti

def served (s : T5Sim) : World :=
  if s.completes then s.world.write s.cpu.request else s.world

/-- What the loop has done before the clock edge, with the fetch at `k`. -/
structure Serves (s : T5Sim) (k : BitVec 32) (u : T5Sim) : Prop where
  cpu : u.cpu = s.cpu
  input : u.input = { s.input with dwbDti := s.reply }
  iadr : u.iadr = k
  dadr : u.dadr = if s.cpu.dwbStb then index s.cpu.dwbAdr else s.dadr
  cnt : u.cnt = s.cnt
  world : u.world = s.served

theorem testEnds_of_not_completes (h : s.completes = false) : s.testEnds = false := by
  rw [testEnds, h, Bool.false_and]

theorem served_of_not_completes (h : s.completes = false) : s.served = s.world := by
  rw [served, h, if_neg Bool.false_ne_true]

theorem serves_of_idle (h : s.cpu.dwbStb = false) : Serves s s.iadr s := by
  refine ⟨rfl, ?_, rfl, ?_, rfl, ?_⟩
  · rw [reply, h, Bool.false_and, Bool.false_and, Bool.false_and, if_neg Bool.false_ne_true]
    rfl
  · rw [h, if_neg Bool.false_ne_true]
  · exact (served_of_not_completes (completes_of_idle h)).symm

theorem serves_of_wait (hs : s.cpu.dwbStb = true) (ha : s.dwbAck = false) :
    Serves s s.iadr s.setDadr := by
  refine ⟨rfl, ?_, rfl, ?_, rfl, ?_⟩
  · rw [reply, ha, Bool.and_false, Bool.false_and, if_neg Bool.false_ne_true]
    rfl
  · rw [if_pos hs]
    rfl
  · rw [served_of_not_completes (completes_of_wait ha)]
    rfl

theorem serves_of_load (hs : s.cpu.dwbStb = true) (ha : s.dwbAck = true)
    (hw : s.cpu.dwbWre = false) :
    Serves s s.iadr (if inBuf s.setDadr.dadr then s.setDadr.readRam else s.setDadr.readIo) := by
  have hserved : s.served = s.world := served_of_not_completes (completes_of_load hw)
  have hsel : (s.cpu.dwbStb && !s.cpu.dwbWre && s.dwbAck && !inBuf (index s.cpu.dwbAdr)) =
      !inBuf (index s.cpu.dwbAdr) := by
    rw [hs, hw, ha, Bool.not_false, Bool.and_self, Bool.and_self, Bool.true_and]
  by_cases hbuf : inBuf (index s.cpu.dwbAdr) = true
  · rw [if_pos (show inBuf s.setDadr.dadr = true from hbuf)]
    refine ⟨rfl, ?_, rfl, ?_, rfl, ?_⟩
    · rw [reply, hsel, hbuf, Bool.not_true, if_neg Bool.false_ne_true]
      rfl
    · rw [if_pos hs]
      rfl
    · rw [hserved]
      rfl
  · rw [if_neg (show ¬ inBuf s.setDadr.dadr = true from hbuf)]
    refine ⟨rfl, ?_, rfl, ?_, rfl, ?_⟩
    · rw [reply, hsel, Bool.eq_false_iff.mpr hbuf, Bool.not_false, if_pos rfl]
      rfl
    · rw [if_pos hs]
      rfl
    · rw [hserved]
      rfl

theorem writeIo_fields (s : T5Sim) :
    s.writeIo.cpu = s.cpu ∧ s.writeIo.input = s.input ∧ s.writeIo.iadr = s.iadr ∧
      s.writeIo.dadr = s.dadr ∧ s.writeIo.cnt = s.cnt ∧
      s.writeIo.world = s.world.writeDevice (s.dadr <<< 2) s.cpu.dwbDto := by
  rw [writeIo, World.writeDevice]
  by_cases hu : s.dadr <<< 2 = uartBase
  · rw [if_pos hu, if_pos hu]
    exact ⟨rfl, rfl, rfl, rfl, rfl, rfl⟩
  · rw [if_neg hu, if_neg hu]
    by_cases hm : s.dadr <<< 2 = mtimeBase
    · rw [if_pos hm, if_pos hm]
      exact ⟨rfl, rfl, rfl, rfl, rfl, rfl⟩
    · rw [if_neg hm, if_neg hm]
      by_cases hc : s.dadr <<< 2 = mtimecmpBase
      · rw [if_pos hc, if_pos hc]
        exact ⟨rfl, rfl, rfl, rfl, rfl, rfl⟩
      · rw [if_neg hc, if_neg hc]
        exact ⟨rfl, rfl, rfl, rfl, rfl, rfl⟩

theorem reply_of_store (hw : s.cpu.dwbWre = true) : s.reply = s.dwbDti := by
  rw [reply, hw, Bool.not_true, Bool.and_false, Bool.false_and, Bool.false_and,
    if_neg Bool.false_ne_true]

section Store

variable (hs : s.cpu.dwbStb = true) (ha : s.dwbAck = true) (hw : s.cpu.dwbWre = true)

include hs ha hw

theorem served_of_store : s.served = s.world.write s.cpu.request := by
  rw [served, completes, hs, hw, ha]
  rfl

/-- The store that ends a test leaves the loop with the world as it was. -/
theorem dataBus_of_testEnd (hend : index s.cpu.dwbAdr = testEnd) :
    ∃ u, s.dataBus = .error u ∧ u.world = s.world := by
  have hbuf : inBuf s.setDadr.dadr = true := by
    show inBuf (index s.cpu.dwbAdr) = true
    rw [hend]
    decide
  refine ⟨s.setDadr, ?_, rfl⟩
  rw [dataBus_of_store hs ha hw, if_pos hbuf, writeRam,
    if_pos (show s.setDadr.dadr = testEnd from hend)]

theorem serves_of_store (hend : index s.cpu.dwbAdr ≠ testEnd) :
    ∃ u, s.dataBus = .ok u ∧ Serves s s.iadr u := by
  have hserved := served_of_store hs ha hw
  have hinput : s.input = { s.input with dwbDti := s.reply } := by
    rw [reply_of_store hw]
    rfl
  rw [dataBus_of_store hs ha hw]
  by_cases hbuf : inBuf (index s.cpu.dwbAdr) = true
  · rw [if_pos (show inBuf s.setDadr.dadr = true from hbuf), writeRam,
      if_neg (show ¬ s.setDadr.dadr = testEnd from hend)]
    refine ⟨_, rfl, rfl, hinput, rfl, ?_, rfl, ?_⟩
    · rw [if_pos hs]
      rfl
    · rw [hserved, World.write, if_pos (show inBuf (index s.cpu.request.adr) = true from hbuf)]
      rfl
  · rw [if_neg (show ¬ inBuf s.setDadr.dadr = true from hbuf)]
    obtain ⟨h1, h2, h3, h4, h5, h6⟩ := s.setDadr.writeIo_fields
    refine ⟨_, rfl, h1, h2.trans hinput, h3, ?_, h5, ?_⟩
    · rw [h4, if_pos hs]
      rfl
    · rw [h6, hserved, World.write,
        if_neg (show ¬ inBuf (index s.cpu.request.adr) = true from hbuf)]
      rfl

end Store

theorem dataBus_cases (s : T5Sim) :
    (s.testEnds = true ∧ ∃ u, s.dataBus = .error u ∧ u.world = s.world) ∨
      (s.testEnds = false ∧ ∃ u, s.dataBus = .ok u ∧ Serves s s.iadr u) := by
  cases hs : s.cpu.dwbStb with
  | false =>
    refine Or.inr ⟨?_, s, dataBus_of_idle hs, serves_of_idle hs⟩
    exact testEnds_of_not_completes (completes_of_idle hs)
  | true =>
    cases ha : s.dwbAck with
    | false =>
      refine Or.inr ⟨?_, _, dataBus_of_wait hs ha, serves_of_wait hs ha⟩
      exact testEnds_of_not_completes (completes_of_wait ha)
    | true =>
      cases hw : s.cpu.dwbWre with
      | false =>
        refine Or.inr ⟨?_, _, dataBus_of_load hs ha hw, serves_of_load hs ha hw⟩
        exact testEnds_of_not_completes (completes_of_load hw)
      | true =>
        have hends : s.testEnds = (index s.cpu.dwbAdr == testEnd) := by
          rw [testEnds, completes, hs, ha, hw]
          rfl
        by_cases hend : index s.cpu.dwbAdr = testEnd
        · exact Or.inl ⟨by rw [hends, hend, beq_self_eq_true], dataBus_of_testEnd hs ha hw hend⟩
        · exact Or.inr ⟨by rw [hends, beq_false_of_ne hend], serves_of_store hs ha hw hend⟩

/-! ## Before the clock edge -/

theorem printPc_fields (s : T5Sim) :
    s.printPc.cpu = s.cpu ∧ s.printPc.input = s.input ∧ s.printPc.iadr = s.iadr ∧
      s.printPc.dadr = s.dadr ∧ s.printPc.cnt = s.cnt ∧ s.printPc.world = s.world := by
  rw [printPc]
  split <;> exact ⟨rfl, rfl, rfl, rfl, rfl, rfl⟩

theorem fetch_fields (s : T5Sim) :
    s.fetch.cpu = s.cpu ∧ s.fetch.input = s.input ∧ s.fetch.iadr = s.fetchIndex ∧
      s.fetch.dadr = s.dadr ∧ s.fetch.cnt = s.cnt ∧ s.fetch.world = s.world := by
  rw [fetch, fetchIndex]
  split <;> exact ⟨rfl, rfl, rfl, rfl, rfl, rfl⟩

theorem Serves.of_look {f : T5Sim} (h : Serves f f.iadr u) (hcpu : f.cpu = s.cpu)
    (hinput : f.input = s.input) (hiadr : f.iadr = s.fetchIndex) (hdadr : f.dadr = s.dadr)
    (hcnt : f.cnt = s.cnt) (hworld : f.world = s.world) :
    Serves s s.fetchIndex u := by
  have hack : f.dwbAck = s.dwbAck := congrArg Input.dwbAck hinput
  have hdti : f.dwbDti = s.dwbDti := congrArg Input.dwbDti hinput
  have hreply : f.reply = s.reply := by rw [reply, reply, hcpu, hack, hdti, hworld]
  have hserved : f.served = s.served := by
    rw [served, served, completes, completes, hcpu, hack, hworld]
  refine ⟨h.cpu.trans hcpu, ?_, h.iadr.trans hiadr, ?_, h.cnt.trans hcnt, h.world.trans hserved⟩
  · rw [h.input, hinput, hreply]
  · rw [h.dadr, hcpu, hdadr]

theorem respond_cases (s : T5Sim) :
    (∃ u, s.respond = .error u ∧ u.world = s.world ∧
        (inBuf s.fetchIndex = false ∨ s.testEnds = true)) ∨
      ∃ u, s.respond = .ok u ∧ inBuf s.fetchIndex = true ∧ s.testEnds = false ∧
        Serves s s.fetchIndex u := by
  obtain ⟨g1, g2, g3, g4, g5, g6⟩ := s.fetch_fields
  obtain ⟨h1, h2, h3, h4, h5, h6⟩ := s.fetch.printPc_fields
  rw [g1] at h1
  rw [g2] at h2
  rw [g3] at h3
  rw [g4] at h4
  rw [g5] at h5
  rw [g6] at h6
  rw [respond]
  generalize s.fetch.printPc = f at h1 h2 h3 h4 h5 h6
  have hends : f.testEnds = s.testEnds := by
    have hack : f.dwbAck = s.dwbAck := congrArg Input.dwbAck h2
    rw [testEnds, testEnds, completes, completes, h1, hack]
  by_cases hbuf : inBuf s.fetchIndex = true
  · rw [if_pos (by rw [h3]; exact hbuf)]
    rcases f.dataBus_cases with ⟨he, u, hu, hw⟩ | ⟨he, u, hu, hserves⟩
    · exact Or.inl ⟨u, hu, hw.trans h6, Or.inr (hends.symm.trans he)⟩
    · exact Or.inr ⟨u, hu, hbuf, hends.symm.trans he, hserves.of_look h1 h2 h3 h4 h5 h6⟩
  · rw [if_neg (by rw [h3]; exact hbuf)]
    exact Or.inl ⟨_, rfl, h6, Or.inl (Bool.eq_false_iff.mpr hbuf)⟩

/-! ## The lines of a round -/

def pcLine (s : T5Sim) : Option Line :=
  if s.cpu.aslu.xbra.getLsbD 1 && s.cpu.aslu.xbpc != 0x100#30 then
    some (.pc (s.cpu.aslu.xbpc.setWidth 32 <<< 2))
  else none

/-- The line for the access that completes in the round. -/
def accessLine (s : T5Sim) : Option Line :=
  let adr := index s.cpu.dwbAdr <<< 2
  if s.cpu.dwbStb && s.dwbAck then
    some (match s.cpu.dwbWre, inBuf (index s.cpu.dwbAdr) with
      | true, true => .st adr (s.ram.merged s.cpu.request)
      | true, false => .ioWrite adr s.cpu.dwbDto
      | false, true => .ld adr s.dwbDti
      | false, false => .ioRead adr (s.world.readDevice adr))
  else none

theorem cout_writeIo (s : T5Sim) :
    s.writeIo.cout = s.cout ++ [.ioWrite (s.dadr <<< 2) s.cpu.dwbDto] := by
  rw [writeIo]
  split_ifs <;> rfl

theorem cout_dataBus (h : s.dataBus = .ok t) : t.cout = s.cout ++ s.accessLine.toList := by
  have hnone (hc : (s.cpu.dwbStb && s.dwbAck) = false) :
      s.cout = s.cout ++ s.accessLine.toList := by
    rw [accessLine, hc]
    exact (List.append_nil _).symm
  have hdadr : s.setDadr.dadr = index s.cpu.dwbAdr := rfl
  cases hs : s.cpu.dwbStb with
  | false =>
    rw [dataBus_of_idle hs] at h
    cases h
    exact hnone (by rw [hs]; rfl)
  | true =>
    cases ha : s.dwbAck with
    | false =>
      rw [dataBus_of_wait hs ha] at h
      cases h
      exact hnone (by rw [ha, Bool.and_false])
    | true =>
      rw [accessLine, hs, ha]
      cases hw : s.cpu.dwbWre <;> cases hb : inBuf (index s.cpu.dwbAdr)
      · rw [dataBus_of_load hs ha hw, hdadr, hb] at h
        cases h
        rfl
      · rw [dataBus_of_load hs ha hw, hdadr, hb] at h
        cases h
        rfl
      · rw [dataBus_of_store hs ha hw, hdadr, hb] at h
        cases h
        exact s.setDadr.cout_writeIo
      · rw [dataBus_of_store hs ha hw, hdadr, hb, if_pos rfl, writeRam] at h
        split at h
        · cases h
        · cases h
          rfl

theorem cout_look (s : T5Sim) : s.fetch.printPc.cout = s.cout ++ s.pcLine.toList := by
  have hfetch : s.fetch.cout = s.cout ∧ s.fetch.cpu = s.cpu := by
    rw [fetch]
    split <;> exact ⟨rfl, rfl⟩
  rw [printPc, pcLine, hfetch.2]
  split
  · show s.fetch.cout ++ _ = _
    rw [hfetch.1]
    rfl
  · rw [hfetch.1]
    exact (List.append_nil _).symm

theorem accessLine_look (s : T5Sim) : s.fetch.printPc.accessLine = s.accessLine := by
  obtain ⟨g1, g2, -, -, -, g6⟩ := s.fetch_fields
  obtain ⟨h1, h2, -, -, -, h6⟩ := s.fetch.printPc_fields
  have hcpu := h1.trans g1
  have hworld := h6.trans g6
  have hram : s.fetch.printPc.ram = s.ram := congrArg World.ram hworld
  have hack : s.fetch.printPc.dwbAck = s.dwbAck := congrArg Input.dwbAck (h2.trans g2)
  have hdti : s.fetch.printPc.dwbDti = s.dwbDti := congrArg Input.dwbDti (h2.trans g2)
  simp only [accessLine, hcpu, hworld, hram, hack, hdti]

theorem cout_of_respond (h : s.respond = .ok u) :
    u.cout = s.cout ++ s.pcLine.toList ++ s.accessLine.toList := by
  rw [respond] at h
  split at h
  · rw [cout_dataBus h, cout_look, accessLine_look]
  · cases h

/-! ## The round -/

/-- A round with `sys_rst` low that does not leave the loop. -/
structure Onward (X : DontCare) (s t : T5Sim) : Prop where
  edgeInput : s.edgeInput = { s.input with dwbDti := s.reply }
  cpu : t.cpu = s.cpu.step X s.edgeInput
  sysRst : t.sysRst = false
  dwbAck : t.dwbAck = (s.cpu.dwbStb && !s.dwbAck)
  iadr : t.iadr = s.fetchIndex
  iwbDat : t.iwbDat = t.ram.word s.fetchIndex
  dadr : t.dadr = if s.cpu.dwbStb then index s.cpu.dwbAdr else s.dadr
  dwbDti : t.dwbDti = t.ram.load t.dadr
  cnt : t.cnt = s.cnt + 10#32
  world : t.world = s.served.tick
  cout : t.cout = s.cout ++ s.pcLine.toList ++ s.accessLine.toList

theorem Serves.clock (h : Serves s s.fetchIndex u) (hr : s.sysRst = false)
    (hu : s.respond = .ok u) : Onward X s (u.clock X) := by
  have hur : u.sysRst = false := (congrArg Input.sysRst h.input).trans hr
  have hua : u.dwbAck = s.dwbAck := congrArg Input.dwbAck h.input
  have hedge : s.edgeInput = u.input := by
    rw [edgeInput, hr, if_neg Bool.false_ne_true, hu]
  refine ⟨hedge.trans h.input, ?_, ?_, ?_, h.iadr, ?_, h.dadr, ?_, ?_, ?_, ?_⟩
  · show u.cpu.step X u.input = _
    rw [h.cpu, hedge]
  · show (if u.cnt = 50#32 then false else u.sysRst) = false
    rw [hur, ite_self]
  · show (if u.sysRst then u.dwbAck else u.cpu.dwbStb && !u.dwbAck) = _
    rw [hur, if_neg Bool.false_ne_true, h.cpu, hua]
  · show (if u.sysRst then u.iwbDat else u.ram.word u.iadr) = u.ram.word _
    rw [hur, if_neg Bool.false_ne_true, h.iadr]
  · show (if u.sysRst then u.dwbDti else u.ram.load u.dadr) = u.ram.load u.dadr
    rw [hur, if_neg Bool.false_ne_true]
  · show u.cnt + 10#32 = _
    rw [h.cnt]
  · rw [← h.world]
    rfl
  · show u.cout = _
    exact cout_of_respond hu

/-- The loop goes on unless it has run long enough, the fetch is outside the array or the
test is over. -/
def goesOn (s : T5Sim) : Bool :=
  decide (s.cnt < 8388608#32) && inBuf s.fetchIndex && !s.testEnds

theorem round_cases (X : DontCare) (hr : s.sysRst = false) :
    (s.goesOn = false ∧ ∃ u, s.round X = .error u ∧ u.world = s.world) ∨
      (s.goesOn = true ∧ ∃ t, s.round X = .ok t ∧ Onward X s t) := by
  rw [round, goesOn]
  by_cases hc : s.cnt < 8388608#32
  · rw [if_pos hc, hr, if_neg Bool.false_ne_true, decide_eq_true hc, Bool.true_and]
    rcases s.respond_cases with ⟨u, hu, hw, hstop⟩ | ⟨u, hu, hbuf, hend, hresp⟩
    · refine Or.inl ⟨?_, u, by rw [hu]; rfl, hw⟩
      rcases hstop with h | h
      · rw [h, Bool.false_and]
      · rw [h, Bool.not_true, Bool.and_false]
    · refine Or.inr ⟨by rw [hbuf, hend]; rfl, u.clock X, by rw [hu]; rfl, ?_⟩
      exact hresp.clock hr hu
  · rw [if_neg hc, decide_eq_false hc, Bool.false_and, Bool.false_and]
    exact Or.inl ⟨rfl, s, rfl, rfl⟩

theorem onward_of_round (hr : s.sysRst = false) (h : s.round X = .ok t) :
    Onward X s t ∧ s.goesOn = true := by
  rcases round_cases X hr with ⟨-, u, hu, -⟩ | ⟨hg, u, hu, hn⟩
  · rw [h] at hu
    cases hu
  · rw [h] at hu
    cases hu
    exact ⟨hn, hg⟩

theorem exists_round (X : DontCare) (hr : s.sysRst = false) (hg : s.goesOn = true) :
    ∃ t, s.round X = .ok t ∧ Onward X s t := by
  rcases round_cases X hr with ⟨hs, -⟩ | ⟨-, h⟩
  · exact absurd (hs.symm.trans hg) Bool.false_ne_true
  · exact h

theorem stops_of_round (hr : s.sysRst = false) (h : s.round X = .error t) :
    s.goesOn = false ∧ t.world = s.world := by
  rcases round_cases X hr with ⟨hg, u, hu, hw⟩ | ⟨-, u, hu, -⟩
  · rw [h] at hu
    cases hu
    exact ⟨hg, hw⟩
  · rw [h] at hu
    cases hu

/-! ## A round with its access in the array -/

def isStore : Line → Bool
  | .st .. => true
  | _ => false

/-- A round with `sys_rst` low in which the access, if there is one, is in the array. -/
structure Next (X : DontCare) (s t : T5Sim) : Prop where
  edgeInput : s.edgeInput = s.input
  cpu : t.cpu = s.cpu.step X s.input
  sysRst : t.sysRst = false
  dwbAck : t.dwbAck = (s.cpu.dwbStb && !s.dwbAck)
  iadr : t.iadr = if s.cpu.iwbStb s.input then index s.cpu.iwbAdr else s.iadr
  inBuf : inBuf t.iadr = true
  iwbDat : t.iwbDat = t.ram.word t.iadr
  dwbDti : s.cpu.dwbStb = true → t.dwbDti = t.ram.load (index s.cpu.dwbAdr)
  ram : t.ram = if s.completes then s.ram.store s.cpu.request else s.ram
  cout : t.cout.filter isStore = s.cout.filter isStore ++
    if s.completes then [.st (index s.cpu.dwbAdr <<< 2) (s.ram.merged s.cpu.request)] else []

theorem filter_pcLine (s : T5Sim) : s.pcLine.toList.filter isStore = [] := by
  rw [pcLine]
  split <;> rfl

section InArray

variable (hin : s.cpu.dwbStb = true → Tra5.inBuf (index s.cpu.dwbAdr) = true)

include hin

theorem reply_of_inBuf : s.reply = s.dwbDti := by
  rw [reply]
  cases hs : s.cpu.dwbStb with
  | false => rfl
  | true => rw [hin hs, Bool.not_true, Bool.and_false, if_neg Bool.false_ne_true]

theorem ram_served_of_inBuf :
    s.served.ram = if s.completes then s.ram.store s.cpu.request else s.ram := by
  rw [served]
  cases hc : s.completes with
  | false => rfl
  | true =>
    rw [completes, Bool.and_eq_true, Bool.and_eq_true] at hc
    have hbuf : Tra5.inBuf (index s.cpu.request.adr) = true := hin hc.1.1
    rw [if_pos rfl, if_pos rfl, World.write, if_pos hbuf]
    rfl

theorem filter_accessLine :
    s.accessLine.toList.filter isStore =
      if s.completes then [.st (index s.cpu.dwbAdr <<< 2) (s.ram.merged s.cpu.request)]
      else [] := by
  rw [accessLine, completes]
  cases hs : s.cpu.dwbStb with
  | false => rfl
  | true =>
    rw [hin hs]
    cases s.dwbAck <;> cases s.cpu.dwbWre <;> rfl

theorem next_of_round (hr : s.sysRst = false) (h : s.round X = .ok t) : Next X s t := by
  obtain ⟨ho, hg⟩ := onward_of_round hr h
  rw [goesOn, Bool.and_eq_true, Bool.and_eq_true] at hg
  have hedge : s.edgeInput = s.input := by
    rw [ho.edgeInput, reply_of_inBuf hin]
    rfl
  have hram : t.ram = s.served.ram := congrArg World.ram ho.world
  refine ⟨hedge, by rw [ho.cpu, hedge], ho.sysRst, ho.dwbAck, ho.iadr, ?_, ?_, ?_, ?_, ?_⟩
  · rw [ho.iadr]
    exact hg.1.2
  · rw [ho.iwbDat, ho.iadr]
  · intro hstb
    rw [ho.dwbDti, ho.dadr, if_pos hstb]
  · rw [hram, ram_served_of_inBuf hin]
  · rw [ho.cout, List.filter_append, List.filter_append, filter_pcLine, List.append_nil,
      filter_accessLine hin]

end InArray

/-! ## The requests of loads and stores -/

/-- A store in the array is merged when it is acknowledged. -/
theorem dataBus_of_request {q : Request} (hq : s.cpu.request = q) (hstb : q.stb = true)
    (hwre : q.wre = true) (hack : s.dwbAck = true) (hbuf : Tra5.inBuf (index q.adr) = true)
    (hend : index q.adr ≠ testEnd) : ∃ u, s.dataBus = .ok u ∧ u.ram = s.ram.store q := by
  subst hq
  obtain ⟨u, hu, hserves⟩ := serves_of_store hstb hack hwre hend
  refine ⟨u, hu, ?_⟩
  have hram : u.ram = (s.world.write s.cpu.request).ram :=
    congrArg World.ram (hserves.world.trans (served_of_store hstb hack hwre))
  rw [hram, World.write, if_pos hbuf]
  rfl

/-- The word of the array is on the bus after the round in which the core asks for it. -/
theorem dwbDti_of_request {q : Request} (hq : s.cpu.request = q) (hstb : q.stb = true)
    (hr : s.sysRst = false) (h : s.round X = .ok t) : t.dwbDti = t.ram.load (index q.adr) := by
  subst hq
  obtain ⟨ho, -⟩ := onward_of_round hr h
  rw [ho.dwbDti, ho.dadr, if_pos (show s.cpu.dwbStb = true from hstb)]
  rfl

end T5Sim

/-- The core and the simulator's array are a little-endian byte memory.  A store changes
the bytes from its address on to the low bytes of its value and no other, a load writes
the extension of the bytes at its address, and in any sequence of accesses the loads
return what they would return from a byte array.  The loop merges the one and answers the
other when it finds the request on the bus. -/
theorem memory_little_endian (X : DontCare) :
    (∀ (ram : Ram) (e : Surroundings) (pc : BitVec 30) (w a b : BitVec 32) (op : Store)
      (q r : BitVec 5) (imm : BitVec 32), Encodes w (.store op q r imm) →
      alignedTo op.log2Size (a + imm) = true → (a + imm).toNat < ramSize →
      let o := datapath X e pc w a b
      (∀ n < ramSize, (ram.store o.request).byte n =
        if (a + imm).toNat ≤ n ∧ n < (a + imm).toNat + 2 ^ op.log2Size then
          byteOf b (n - (a + imm).toNat)
        else ram.byte n) ∧
      (o.request.stb = true ∧ o.request.wre = true) ∧
      ∀ s : T5Sim, s.cpu.request = o.request → s.dwbAck = true →
        index o.request.adr ≠ T5Sim.testEnd →
        ∃ u, s.dataBus = .ok u ∧ u.ram = s.ram.store o.request) ∧
    (∀ (e : Surroundings) (pc : BitVec 30) (w a b : BitVec 32) (op : Load) (r q : BitVec 5)
      (imm : BitVec 32), Encodes w (.load op r q imm) → alignedTo op.log2Size (a + imm) = true →
      let o := datapath X e pc w a b
      o.value = op.value (fun n => byteOf e.dwbDti (n % 4)) (a + imm).toNat ∧
        (∀ ram : Ram, (a + imm).toNat < ramSize → e.dwbDti = ram.load (index o.request.adr) →
          o.value = op.value ram.byte (a + imm).toNat) ∧
        (o.wre = orR r ∧ o.rd = r) ∧ (o.request.stb = true ∧ o.request.wre = false) ∧
        ∀ s t : T5Sim, s.cpu.request = o.request → s.sysRst = false → s.round X = .ok t →
          t.dwbDti = t.ram.load (index o.request.adr)) ∧
    (∀ (ram : Ram) (cs : List Access),
      (runAll (Access.onRam X) ram cs).2 = (runAll Access.onBytes ram.byte cs).2 ∧
        ∀ n < ramSize, (runAll (Access.onRam X) ram cs).1.byte n =
          (runAll Access.onBytes ram.byte cs).1 n) := by
  refine ⟨?_, ?_, runAll_onRam X⟩
  · intro ram e pc w a b op q r imm hw hal hin o
    have hreq : o.request = _ := request_of_store X hw e pc a b
    have hstb : o.request.stb = true := by rw [hreq]
    have hwre : o.request.wre = true := by rw [hreq]
    refine ⟨fun n hn => ?_, ⟨hstb, hwre⟩, fun s hs hack hend => ?_⟩
    · rw [Ram.byte_store_of_encodes X ram hw hal hin e hn, Write.apply, Store.write]
      simp only [Bool.and_eq_true, decide_eq_true_eq]
    · have hbuf : inBuf (index o.request.adr) = true := by
        rw [hreq]
        refine inBuf_of_lt ?_
        rw [toNat_index_word hin]
        rw [ramSize] at hin
        omega
      exact T5Sim.dataBus_of_request hs hstb hwre hack hbuf hend
  · intro e pc w a b op r q imm hw hal o
    obtain ⟨hadr, hwre⟩ := request_of_load X hw e pc a b
    have hstb : o.request.stb = true := stb_of_load X hw e pc a b
    refine ⟨datapath_of_load X hw hal e, fun ram hin hdti => ?_, ⟨?_, ?_⟩, ⟨hstb, hwre⟩,
      fun s t hs hr ht => T5Sim.dwbDti_of_request hs hstb hr ht⟩
    · rw [datapath_of_load X hw hal e, hdti, show o.request.adr = _ from hadr,
        ram.value_load op hal hin]
    · exact wre_of_load X hw hal e.executeCsr e.decodeCsr e.dhart e.dwbDti (T5Ctrl.npc pc)
    · exact (outcome_of_load X hw e.executeCsr e.decodeCsr e.dhart e.dwbDti (T5Ctrl.npc pc)).2.1

/-- `sb x2, 5(x0)` with the value `0x1234` in an empty memory. -/
theorem memory_little_endian_sb :
    let ram : Ram := fun _ => 0#32
    let q := (datapath default default 0#30 0x002002A3#32 0#32 0x1234#32).request
    (ram.store q).byte 5 = 0x34#8 ∧ q.stb = true ∧ q.wre = true := by
  have hw : Encodes 0x002002A3#32 (.store .sb 0#5 2#5 5#32) :=
    ⟨by decide, .store (by decide) (by decide)⟩
  have h := (memory_little_endian default).1 (fun _ => 0#32) default 0#30 _ 0#32 0x1234#32 .sb 0#5
    2#5 5#32 hw (by decide) (by decide)
  exact ⟨h.1 5 (by decide), h.2.1⟩

end Tra5
