/-
The system as its programs see it.

`Soc` is four harts that execute RV32I and machine-mode instructions over one byte memory
and the devices of the simulator.  The harts take turns, and an instruction is executed
whole: there is no pipeline, no bus cycle and no array of words.  The only trace of time
is `rounds`, the number of clock cycles, of which a load or a store takes two and any
other instruction one, and the timer that counts them.

Not every program may rely on this machine.  `Soc.regular` says of one step what has to
hold for the core to do the same: the instruction is one that the core gets right, and
it neither overwrites a word that has been fetched already nor collides with the CSR
instruction behind it.
-/
import Tra5.Isa.Decode
import Tra5.Sim.Step

namespace Tra5

open Rv32 T5Inst

/-! ## Control and status registers -/

/-- The machine-mode registers that a program can rely on.  `mstatus` is not among them,
and `mtval` has no value after an `ecall` or `ebreak`. -/
structure MachineCsrs where
  mtvec : BitVec 32
  mscratch : BitVec 32
  medeleg : BitVec 32
  mepc : BitVec 30
  mcause : BitVec 4
  mtval : Option (BitVec 32)
  deriving DecidableEq, Repr, Inhabited

namespace MachineCsrs

open T5Aslu

def reset : MachineCsrs :=
  { mtvec := 0#32, mscratch := 0#32, medeleg := 0#32, mepc := 0#30, mcause := 0#4
    mtval := some 0#32 }

/-- The value that a CSR instruction of the hart `h` reads.  A number that is not
implemented reads as zero. -/
def read (c : MachineCsrs) (h : BitVec 2) (num : BitVec 12) : Option (BitVec 32) :=
  if num = csrMhartid then some (h.setWidth 32)
  else if num = csrMisa then some 0x40000100#32
  else if num = csrMscratch then some c.mscratch
  else if num = csrMedeleg then some c.medeleg
  else if num = csrMepc then some (byteAdr c.mepc)
  else if num = csrMtval then c.mtval
  else if num = csrMtvec then some c.mtvec
  else if num = csrMie ∨ num = csrMip then some 0x00000080#32
  else if num = csrMcause then some (c.mcause.setWidth 32)
  else if num = csrMstatus then none
  else some 0#32

/-- Writing a number that is not implemented does nothing. -/
def write (c : MachineCsrs) (num : BitVec 12) (v : BitVec 32) : MachineCsrs :=
  { mtvec := if num = csrMtvec then v else c.mtvec
    mscratch := if num = csrMscratch then v else c.mscratch
    medeleg := if num = csrMedeleg then v else c.medeleg
    mepc := if num = csrMepc then v.extractLsb 31 2 else c.mepc
    mcause := if num = csrMcause then v.extractLsb 3 0 else c.mcause
    mtval := if num = csrMtval then some v else c.mtval }

/-- A CSR instruction.  What has no value keeps none, unless it is written outright. -/
def update (c : MachineCsrs) (h : BitVec 2) (num : BitVec 12) (op : CsrOp) (src : BitVec 32) :
    MachineCsrs :=
  match op, c.read h num with
  | .write, _ => c.write num src
  | op, some old => c.write num (op.eval old src)
  | _, none => c

def trap (c : MachineCsrs) (pc : BitVec 30) (cause : BitVec 4) (tval : Option (BitVec 32)) :
    MachineCsrs :=
  { c with mepc := pc, mcause := cause, mtval := tval }

end MachineCsrs

/-! ## Memory and devices -/

structure Bus where
  mem : Nat → BitVec 8
  mtime : BitVec 32
  mtimecmp : BitVec 32
  console : List (BitVec 8)

namespace Bus

open T5Sim

def word (b : Bus) (pc : BitVec 30) : BitVec 32 := Load.lw.value b.mem (4 * pc.toNat)

/-- One clock cycle. -/
def tick (b : Bus) : Bus := { b with mtime := b.mtime + 1#32 }

def readDevice (b : Bus) (adr : BitVec 32) : BitVec 32 :=
  if adr = mtimeBase then b.mtime else if adr = mtimecmpBase then b.mtimecmp else 0#32

def writeDevice (b : Bus) (adr dat : BitVec 32) : Bus :=
  if adr = uartBase then { b with console := b.console ++ [dat.extractLsb 7 0] }
  else if adr = mtimeBase then { b with mtime := dat }
  else if adr = mtimecmpBase then { b with mtimecmp := dat }
  else b

/-- A load.  A device is read as a word, of which the load takes its part. -/
def load (b : Bus) (op : Load) (x : BitVec 32) : BitVec 32 :=
  if x.toNat < ramSize then op.value b.mem x.toNat
  else op.value (fun n => byteOf (b.readDevice (byteAdr (x.extractLsb 31 2))) (n % 4)) x.toNat

/-- A store.  A device takes the whole word, with a byte or a halfword on all lanes. -/
def store (b : Bus) (op : Store) (x v : BitVec 32) : Bus :=
  if x.toNat < ramSize then { b with mem := (op.write x.toNat v).apply b.mem }
  else b.writeDevice (byteAdr (x.extractLsb 31 2)) (storeData op v)

end Bus

/-! ## The machine -/

structure Soc where
  turn : BitVec 2
  pc : BitVec 2 → BitVec 30
  regs : BitVec 2 → Regs
  csrs : MachineCsrs
  bus : Bus
  rounds : Nat

namespace Soc

variable (s : Soc) (h : BitVec 2)

/-! ### The instruction of a hart -/

def word : BitVec 32 := s.bus.word (s.pc h)

def instr : Option Instr := decode (s.word h)

def rs1 : BitVec 32 := (s.regs h).get (Rv32.rs1 (s.word h))

def rs2 : BitVec 32 := (s.regs h).get (Rv32.rs2 (s.word h))

def traps (i : Instr) : Bool := i.traps (byteAdr (s.pc h)) (s.rs1 h) (s.rs2 h)

/-- The value for the destination of an instruction that does not trap.  A load sees the
timer in the second of its two cycles. -/
def value (i : Instr) : BitVec 32 :=
  match i with
  | .load op _ _ imm => s.bus.tick.load op (s.rs1 h + imm)
  | .csr _ _ _ _ num => (s.csrs.read h num).getD 0#32
  | i => i.value (byteAdr (s.pc h)) (s.rs1 h) (s.rs2 h)

def faultValue (i : Instr) : Option (BitVec 32) :=
  match i with
  | .ecall | .ebreak => none
  | i => some (i.faultAddress (byteAdr (s.pc h)) (s.rs1 h) (s.rs2 h))

def nextPc (i : Instr) : BitVec 30 :=
  if s.traps h i then s.csrs.mtvec.extractLsb 31 2
  else if i = .mret then s.csrs.mepc
  else (i.nextPc (byteAdr (s.pc h)) (s.rs1 h) (s.rs2 h)).extractLsb 31 2

def regsAfter (i : Instr) : Regs :=
  match i.dest with
  | some r => if s.traps h i then s.regs h else (s.regs h).set r (s.value h i)
  | none => s.regs h

/-- The CSRs once a CSR instruction has made its update. -/
def csrsIssued (i : Instr) : MachineCsrs :=
  match i with
  | .csr op isImm _ q num => s.csrs.update h num op (csrOperand isImm q (s.rs1 h))
  | _ => s.csrs

def csrsAfter (i : Instr) : MachineCsrs :=
  if s.traps h i then s.csrs.trap (s.pc h) i.cause (s.faultValue h i) else s.csrsIssued h i

def busAfter (i : Instr) : Bus :=
  match i with
  | .store op _ _ imm =>
    if s.traps h i then s.bus.tick.tick
    else (s.bus.tick.store op (s.rs1 h + imm) (s.rs2 h)).tick
  | .load .. => s.bus.tick.tick
  | _ => s.bus.tick

def cycles (i : Instr) : Nat := if i.isMemory then 2 else 1

/-! ### One step -/

/-- The hart whose turn it is executes `i`. -/
def exec (i : Instr) : Soc :=
  { turn := whart s.turn
    pc := Function.update s.pc s.turn (s.nextPc s.turn i)
    regs := Function.update s.regs s.turn (s.regsAfter s.turn i)
    csrs := s.csrsAfter s.turn i
    bus := s.busAfter s.turn i
    rounds := s.rounds + cycles i }

/-- A word that is no instruction stops the machine. -/
def step : Soc :=
  match s.instr s.turn with
  | some i => s.exec i
  | none => s

def run (n : Nat) : Soc := step^[n] s

/-! ### What the core can follow -/

/-- The address that a load or a store of the hart whose turn it is uses. -/
def address (imm : BitVec 32) : BitVec 32 := s.rs1 s.turn + imm

/-- The store that ends a simulation. -/
def ends (i : Instr) : Bool :=
  match i with
  | .store _ _ _ imm => (s.address imm).toNat / 4 == T5Sim.testEnd.toNat
  | _ => false

/-- The instruction is one that the core executes as the manual says.  A fence and a jump
that traps have to name `x0`, a CSR that is read has to have a value, the bus ignores bit
31 of an address, and a misaligned store reaches the devices. -/
def allowed (i : Instr) : Bool :=
  match i with
  | .fence rd | .fenceI rd => rd == 0#5
  | .jal rd _ | .jalr rd _ _ => !s.traps s.turn i || rd == 0#5
  | .csr _ _ rd _ num => (s.csrs.read s.turn num).isSome || rd == 0#5
  | .load _ _ _ imm => decide ((s.address imm).toNat < 2 ^ 31)
  | .store _ _ _ imm => decide ((s.address imm).toNat < 2 ^ 31) && !s.ends i &&
      (!s.traps s.turn i || decide ((s.address imm).toNat < ramSize))
  | _ => true

/-- The CSR instruction `j` of the next hart would keep the trap of `i` from being
recorded, or lose its own update of `mcause`. -/
def clashes (i j : Instr) : Bool :=
  match j with
  | .csr _ _ _ _ num =>
    (s.traps s.turn i &&
      (num == T5Aslu.csrMepc || num == T5Aslu.csrMcause || num == T5Aslu.csrMtval)) ||
      (i == .mret && num == T5Aslu.csrMcause)
  | _ => false

/-- The store hits a word that one of the next two harts has fetched. -/
def overwrites (i : Instr) : Bool :=
  match i with
  | .store _ _ _ imm => !s.traps s.turn i &&
      ((s.address imm).extractLsb 31 2 == s.pc (whart s.turn) ||
        (s.address imm).extractLsb 31 2 == s.pc (whart (whart s.turn)))
  | _ => false

/-- The core follows the next step.  The word of the next hart is in its decode slot, that
of the one after is on the bus, and the last of the four is fetching. -/
def regular : Bool :=
  match s.instr s.turn, s.instr (whart s.turn) with
  | some i, some j => s.allowed i && !s.clashes i j && !s.overwrites i &&
      T5Ctrl.rv32 (s.word (whart (whart s.turn))) &&
      decide ((s.pc (whart (whart (whart s.turn)))).toNat < 2 ^ 18)
  | _, _ => false

/-! ### Frames -/

variable {s} {h}

/-- What a regular step says of its instruction and of the one behind. -/
structure Regular (s : Soc) (i j : Instr) : Prop where
  encodes : Encodes (s.word s.turn) i
  behind : Encodes (s.word (whart s.turn)) j
  allowed : s.allowed i = true
  clashes : s.clashes i j = false
  overwrites : s.overwrites i = false
  rv32 : T5Ctrl.rv32 (s.word (whart (whart s.turn))) = true
  fetch : (s.pc (whart (whart (whart s.turn)))).toNat < 2 ^ 18

theorem regular_cases (hr : s.regular = true) :
    ∃ i j, s.step = s.exec i ∧ Regular s i j := by
  rw [regular] at hr
  cases hi : s.instr s.turn with
  | none =>
    rw [hi] at hr
    exact Bool.noConfusion hr
  | some i =>
    cases hj : s.instr (whart s.turn) with
    | none =>
      rw [hi, hj] at hr
      exact Bool.noConfusion hr
    | some j =>
      rw [hi, hj] at hr
      simp only [Bool.and_eq_true, Bool.not_eq_true', decide_eq_true_eq] at hr
      obtain ⟨⟨⟨⟨ha, hc⟩, ho⟩, hrv⟩, hf⟩ := hr
      refine ⟨i, j, by rw [step, hi], ?_⟩
      exact ⟨decode_eq_some_iff.mp hi, decode_eq_some_iff.mp hj, ha, hc, ho, hrv, hf⟩

theorem run_succ (s : Soc) (n : Nat) : s.run (n + 1) = (s.run n).step :=
  Function.iterate_succ_apply' step n s

@[simp] theorem turn_exec (s : Soc) (i : Instr) : (s.exec i).turn = whart s.turn := rfl

@[simp] theorem csrs_exec (s : Soc) (i : Instr) : (s.exec i).csrs = s.csrsAfter s.turn i := rfl

@[simp] theorem bus_exec (s : Soc) (i : Instr) : (s.exec i).bus = s.busAfter s.turn i := rfl

theorem pc_exec_turn (s : Soc) (i : Instr) : (s.exec i).pc s.turn = s.nextPc s.turn i :=
  Function.update_self ..

theorem regs_exec_turn (s : Soc) (i : Instr) : (s.exec i).regs s.turn = s.regsAfter s.turn i :=
  Function.update_self ..

theorem pc_exec_of_ne (hh : h ≠ s.turn) (i : Instr) : (s.exec i).pc h = s.pc h :=
  Function.update_of_ne hh ..

theorem regs_exec_of_ne (hh : h ≠ s.turn) (i : Instr) : (s.exec i).regs h = s.regs h :=
  Function.update_of_ne hh ..

/-! The word of another hart changes only if it is overwritten. -/

theorem word_congr {b c : Bus} {pc : BitVec 30}
    (hm : ∀ n, 4 * pc.toNat ≤ n → n < 4 * pc.toNat + 4 → b.mem n = c.mem n) :
    b.word pc = c.word pc :=
  Load.lw.value_congr hm

theorem mem_writeDevice (b : Bus) (adr dat : BitVec 32) : (b.writeDevice adr dat).mem = b.mem := by
  rw [Bus.writeDevice]
  split_ifs <;> rfl

theorem word_store_of_ne (b : Bus) {op : Store} {x v : BitVec 32} {pc : BitVec 30}
    (hal : alignedTo op.log2Size x = true) (hne : x.extractLsb 31 2 ≠ pc) :
    (b.store op x v).word pc = b.word pc := by
  refine word_congr (fun n h1 h2 => ?_)
  rw [Bus.store]
  split
  · have hoff := offset_of_aligned (Store.log2Size_le op) hal
    have hdiv : x.toNat / 4 ≠ pc.toNat := by
      rw [← toNat_word]
      exact fun e => hne (BitVec.eq_of_toNat_eq e)
    refine Memory.Write.apply_of_not_covers ?_ b.mem
    simp only [Store.write, Bool.and_eq_false_iff, decide_eq_false_iff_not]
    omega
  · rw [mem_writeDevice]

theorem word_busAfter {i : Instr} {pc : BitVec 30}
    (hne : ∀ op q r imm, i = .store op q r imm → s.traps s.turn i = false →
      (s.address imm).extractLsb 31 2 ≠ pc) :
    (s.busAfter s.turn i).word pc = s.bus.word pc := by
  cases i with
  | store op q r imm =>
    cases ht : s.traps s.turn (.store op q r imm) with
    | true =>
      simp only [busAfter, ht, if_true]
      rfl
    | false =>
      have hal : alignedTo op.log2Size (s.rs1 s.turn + imm) = true := by
        have := (Instr.aligned_of_not_traps ht).2
        simpa [Instr.accessMisaligned] using this
      simp only [busAfter, ht, Bool.false_eq_true, if_false]
      exact word_store_of_ne s.bus.tick hal (hne op q r imm rfl ht)
  | lui | auipc | jal | jalr | branch | load | opImm | opReg | fence | fenceI | ecall | ebreak
  | mret | csr => rfl

theorem overwrites_eq_false {i : Instr} (ho : s.overwrites i = false) {op : Store}
    {q r : BitVec 5} {imm : BitVec 32} (hi : i = .store op q r imm)
    (ht : s.traps s.turn i = false) :
    (s.address imm).extractLsb 31 2 ≠ s.pc (whart s.turn) ∧
      (s.address imm).extractLsb 31 2 ≠ s.pc (whart (whart s.turn)) := by
  subst hi
  simp only [overwrites, ht, Bool.not_false, Bool.true_and, Bool.or_eq_false_iff,
    beq_eq_false_iff_ne] at ho
  exact ho

theorem word_exec_next {i j : Instr} (hr : Regular s i j) :
    (s.exec i).word (whart s.turn) = s.word (whart s.turn) ∧
      (s.exec i).word (whart (whart s.turn)) = s.word (whart (whart s.turn)) := by
  have h1 := pc_exec_of_ne (whart_ne s.turn).symm i
  have h2 := pc_exec_of_ne (whart_two_ne s.turn).symm i
  refine ⟨?_, ?_⟩
  · rw [word, h1, bus_exec]
    refine word_busAfter (fun op q r imm hi ht => ?_)
    exact (overwrites_eq_false hr.overwrites hi ht).1
  · rw [word, h2, bus_exec]
    refine word_busAfter (fun op q r imm hi ht => ?_)
    exact (overwrites_eq_false hr.overwrites hi ht).2

end Soc

end Tra5
