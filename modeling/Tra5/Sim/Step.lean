/-
The simulation loop of `t5_sim.cc`.

One round of the loop looks at the outputs of the core, serves the data bus, clocks the
core and puts the words for the next edge on the two buses.  A `break` is `.error` with
the state in which the loop is left.

`dwb_ack` is assigned before the clock edge of its round, but `sena` sees it as a
registered signal: the edge is taken with the value assigned in the round before.
-/
import Tra5.Sim.Ram
import Tra5.Loops.While
import Tra5.Pipeline.Slots

namespace Tra5

/-- A line that the simulator prints to `cout` while it runs. -/
inductive Line where
  | pc (adr : BitVec 32)
  | errIadr (iadr : BitVec 32)
  | st (adr dat : BitVec 32)
  | ld (adr dat : BitVec 32)
  | ioWrite (adr dat : BitVec 32)
  | ioRead (adr dat : BitVec 32)
  deriving DecidableEq, Repr

/-- The variables of the loop, with the inputs of the core that it drives.  `iadr` and
`dadr` are not initialised by the source. -/
structure T5Sim where
  cpu : T5Rv32i
  sysRst : Bool
  iwbDat : BitVec 32
  dwbDti : BitVec 32
  dwbAck : Bool
  ram : Ram
  iadr : BitVec 32
  dadr : BitVec 32
  cnt : BitVec 32
  mtime : BitVec 32
  mtimecmp : BitVec 32
  cout : List Line
  cerr : List (BitVec 8)

namespace T5Sim

/-- The inputs of the core, with `sys_ena` tied to 1. -/
def input (s : T5Sim) : Input :=
  { sysRst := s.sysRst, sysEna := true, iwbDat := s.iwbDat, dwbDti := s.dwbDti, dwbAck := s.dwbAck }

def print (s : T5Sim) (l : Line) : T5Sim := { s with cout := s.cout ++ [l] }

/-! ## The instruction bus -/

def fetch (s : T5Sim) : T5Sim :=
  if s.cpu.iwbStb s.input then { s with iadr := index s.cpu.iwbAdr } else s

/-- The core's `xbra` and `xbpc` are read through the hierarchy. -/
def printPc (s : T5Sim) : T5Sim :=
  if s.cpu.aslu.xbra.getLsbD 1 && s.cpu.aslu.xbpc != 0x100#30 then
    s.print (.pc (s.cpu.aslu.xbpc.setWidth 32 <<< 2))
  else s

/-! ## The data bus -/

def uartBase : BitVec 32 := 0x40002000#32

def mtimeBase : BitVec 32 := 0x40000000#32

def mtimecmpBase : BitVec 32 := 0x40000008#32

/-- The word whose store ends a compliance test. -/
def testEnd : BitVec 32 := 0x400#32

def writeRam (s : T5Sim) : Except T5Sim T5Sim :=
  if s.dadr = testEnd then .error s
  else
    let dat := merge s.cpu.dwbSel (s.ram.word s.dadr) s.cpu.dwbDto
    .ok ({ s with ram := s.ram.set s.dadr dat }.print (.st (s.dadr <<< 2) dat))

def writeIo (s : T5Sim) : T5Sim :=
  let dat := s.cpu.dwbDto
  let t := s.print (.ioWrite (s.dadr <<< 2) dat)
  if s.dadr <<< 2 = uartBase then { t with cerr := t.cerr ++ [dat.extractLsb 7 0] }
  else if s.dadr <<< 2 = mtimeBase then { t with mtime := dat }
  else if s.dadr <<< 2 = mtimecmpBase then { t with mtimecmp := dat }
  else t

def readRam (s : T5Sim) : T5Sim := s.print (.ld (s.dadr <<< 2) s.dwbDti)

def readIo (s : T5Sim) : T5Sim :=
  let dti :=
    if s.dadr <<< 2 = mtimeBase then s.mtime
    else if s.dadr <<< 2 = mtimecmpBase then s.mtimecmp
    else 0#32
  { s with dwbDti := dti }.print (.ioRead (s.dadr <<< 2) dti)

def setDadr (s : T5Sim) : T5Sim := { s with dadr := index s.cpu.dwbAdr }

def dataBus (s : T5Sim) : Except T5Sim T5Sim :=
  if s.cpu.dwbStb then
    let t := s.setDadr
    if s.cpu.dwbWre && s.dwbAck then if inBuf t.dadr then t.writeRam else .ok t.writeIo
    else if !s.cpu.dwbWre && s.dwbAck then .ok (if inBuf t.dadr then t.readRam else t.readIo)
    else .ok t
  else .ok s

/-! ## One round -/

/-- What the loop does before the clock edge while `sys_rst` is low. -/
def respond (s : T5Sim) : Except T5Sim T5Sim :=
  let t := s.fetch.printPc
  if inBuf t.iadr then t.dataBus else .error (t.print (.errIadr t.iadr))

/-- The clock edge and what follows it. -/
def clock (X : DontCare) (s : T5Sim) : T5Sim :=
  { s with
    cpu := s.cpu.step X s.input
    dwbAck := if s.sysRst then s.dwbAck else s.cpu.dwbStb && !s.dwbAck
    iwbDat := if s.sysRst then s.iwbDat else s.ram.word s.iadr
    dwbDti := if s.sysRst then s.dwbDti else s.ram.load s.dadr
    sysRst := if s.cnt = 50#32 then false else s.sysRst
    cnt := s.cnt + 10#32
    mtime := s.mtime + 1#32 }

def round (X : DontCare) (s : T5Sim) : Except T5Sim T5Sim :=
  if s.cnt < 8388608#32 then
    if s.sysRst then .ok (s.clock X) else s.respond.map (clock X)
  else .error s

/-- The state in which the loop is entered, with `sys_rst` high since before.  The core
is in any state, and so are its other inputs and the variables that the source leaves
uninitialised. -/
structure AtEntry (s : T5Sim) : Prop where
  sysRst : s.sysRst = true
  cnt : s.cnt = 10#32

/-- Entering the loop with everything else at zero. -/
def entered (ram : Ram) : T5Sim :=
  { cpu := default, sysRst := true, iwbDat := 0#32, dwbDti := 0#32, dwbAck := false, ram
    iadr := 0#32, dadr := 0#32, cnt := 10#32, mtime := 0#32, mtimecmp := 0xFFFFFFFF#32
    cout := [], cerr := [] }

/-- The inputs at the clock edge of the round.  Reading a device puts its value on
`dwb_dti` before the edge. -/
def edgeInput (s : T5Sim) : Input :=
  if s.sysRst then s.input
  else
    match s.respond with
    | .ok t => t.input
    | .error _ => s.input

/-- The inputs at the clock edges of the first rounds. -/
def inputs (X : DontCare) : Nat → T5Sim → List Input
  | 0, _ => []
  | n + 1, s =>
    match s.round X with
    | .ok t => s.edgeInput :: inputs X n t
    | .error _ => []

/-- The states of the core and its inputs at the advancing edges of the first rounds. -/
def trace (X : DontCare) (n : Nat) (s : T5Sim) : List (T5Rv32i × Input) :=
  (machine X).trace s.cpu (inputs X n s)

/-! ## What a round does -/

variable {X : DontCare} {s t : T5Sim}

theorem respond_of_round (hr : s.sysRst = false) (h : s.round X = .ok t) :
    ∃ u, s.respond = .ok u ∧ t = u.clock X := by
  rw [round] at h
  by_cases hc : s.cnt < 8388608#32
  · rw [if_pos hc, hr, if_neg Bool.false_ne_true] at h
    cases hu : s.respond with
    | error b =>
      rw [hu] at h
      cases h
    | ok u =>
      rw [hu] at h
      cases h
      exact ⟨u, rfl, rfl⟩
  · rw [if_neg hc] at h
    cases h

theorem clock_of_reset (hr : s.sysRst = true) (h : s.round X = .ok t) : t = s.clock X := by
  rw [round] at h
  by_cases hc : s.cnt < 8388608#32
  · rw [if_pos hc, if_pos hr] at h
    cases h
    rfl
  · rw [if_neg hc] at h
    cases h

/-- The store that completes in the round, if there is one. -/
def completes (s : T5Sim) : Bool := s.cpu.dwbStb && s.cpu.dwbWre && s.dwbAck

theorem completes_of_idle (h : s.cpu.dwbStb = false) : s.completes = false := by
  rw [completes, h, Bool.false_and, Bool.false_and]

theorem completes_of_wait (h : s.dwbAck = false) : s.completes = false := by
  rw [completes, h, Bool.and_false]

theorem completes_of_load (h : s.cpu.dwbWre = false) : s.completes = false := by
  rw [completes, h, Bool.and_false, Bool.false_and]

theorem dataBus_of_idle (h : s.cpu.dwbStb = false) : s.dataBus = .ok s := by
  rw [dataBus, h, if_neg Bool.false_ne_true]

theorem dataBus_of_wait (hs : s.cpu.dwbStb = true) (ha : s.dwbAck = false) :
    s.dataBus = .ok s.setDadr := by
  rw [dataBus, if_pos hs, ha, Bool.and_false, Bool.and_false, if_neg Bool.false_ne_true,
    if_neg Bool.false_ne_true]

theorem dataBus_of_load (hs : s.cpu.dwbStb = true) (ha : s.dwbAck = true)
    (hw : s.cpu.dwbWre = false) :
    s.dataBus = .ok (if inBuf s.setDadr.dadr then s.setDadr.readRam else s.setDadr.readIo) := by
  rw [dataBus, if_pos hs, ha, hw]
  rfl

theorem dataBus_of_store (hs : s.cpu.dwbStb = true) (ha : s.dwbAck = true)
    (hw : s.cpu.dwbWre = true) :
    s.dataBus = if inBuf s.setDadr.dadr then s.setDadr.writeRam else .ok s.setDadr.writeIo := by
  rw [dataBus, if_pos hs, ha, hw]
  rfl

end T5Sim

end Tra5
