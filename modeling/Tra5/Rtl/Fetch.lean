/-
System control and instruction fetch: `t5_sysc` and `t5_inst`.

Every flop of the core is updated by one of three rules.  The system reset loads
the shift register `rst` of `t5_sysc`, its last bit `srst` resets the flops of
the other modules, and outside reset a flop moves when `sena` is high and holds
its value otherwise.  A module is modelled by the record of its flops, the value
`reset` that `srst` loads, and a function `advance` for the edges where `sena`
is high.

A Verilog vector `[31:2]` is a `BitVec 30`, so bit `n` of the source is bit
`n - 2` of the vector, and likewise for the other vectors that do not start at
bit 0.
-/
import Mathlib.Data.BitVec

namespace Tra5

/-- The reduction `&x`. -/
def andR {n : Nat} (x : BitVec n) : Bool := x == BitVec.allOnes n

/-- The reduction `|x`. -/
def orR {n : Nat} (x : BitVec n) : Bool := x != 0#n

/-! ## System control -/

structure T5Sysc where
  rst : BitVec 4
  ena : Bool
  deriving DecidableEq, Repr, Inhabited

namespace T5Sysc

def srst (s : T5Sysc) : Bool := s.rst.getLsbD 3

/-- The pipeline moves when the system enable is high, reset is over, and the
data bus acknowledges exactly what the execute slot strobes. -/
def sena (s : T5Sysc) (sysEna : Bool) (xstb : BitVec 2) (dwbAck : Bool) : Bool :=
  sysEna && s.ena && !(xstb.getLsbD 1 ^^ dwbAck)

def step (s : T5Sysc) (sysRst : Bool) : T5Sysc :=
  { rst := if sysRst then 0xF#4 else s.rst.extractLsb 2 0 ++ BitVec.ofBool sysRst
    ena := !s.srst }

end T5Sysc

/-! ## Instruction fetch -/

/-- The flops of `t5_inst`.  The two low bits of `fpc` carry the hart whose word
is being decoded. -/
structure T5Inst where
  hart : BitVec 2
  dhart : BitVec 2
  fpc : BitVec 32
  iwbAdr : BitVec 30
  deriving DecidableEq, Repr, Inhabited

namespace T5Inst

/-- The Johnson counter that schedules the harts in the order 0, 1, 3, 2. -/
def whart (hart : BitVec 2) : BitVec 2 :=
  BitVec.ofBool (hart.getLsbD 0) ++ BitVec.ofBool (!hart.getLsbD 1)

def fhart (s : T5Inst) : BitVec 2 := s.fpc.extractLsb 1 0

def mhart (s : T5Inst) : BitVec 2 := s.hart

/-- The next-PC multiplexer.  A trap of either kind goes to `mtvec`, a return to
`mepc`, a taken branch or jump to the computed target. -/
def nextAdr (xbra xstb : BitVec 2) (mtvec mepc : BitVec 32) (xbpc xpc : BitVec 30) :
    BitVec 30 :=
  match xbra, andR xstb with
  | 0b11#2, false => mtvec.extractLsb 31 2
  | 0b00#2, true => mtvec.extractLsb 31 2
  | 0b01#2, false => mepc.extractLsb 31 2
  | 0b10#2, false => xbpc
  | _, _ => xpc

/-- The hart counter is reset by `sys_rst` and runs while `srst` is high, the
other two flops are reset by `srst`. -/
def step (s : T5Inst) (sysRst srst sena : Bool) (next : BitVec 30) : T5Inst :=
  { hart := if sysRst then 0#2 else if sena || srst then whart s.hart else s.hart
    dhart := if sysRst then 3#2 else if sena || srst then ~~~ whart s.hart else s.dhart
    fpc := if srst then 0#32 else if sena then s.iwbAdr ++ s.hart else s.fpc
    iwbAdr := if srst then 0#30 else if sena then next else s.iwbAdr }

end T5Inst

end Tra5
