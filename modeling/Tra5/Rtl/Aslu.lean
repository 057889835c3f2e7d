/-
The execute stage `t5_aslu`: adder, comparator, logic unit, shifter, branch
decision and control and status registers.

`xbpc` is declared `output [31:2]` and again `reg [31:0]`.  The model takes the
port's range, the one under which the uses `{xbpc, xoff}`, `xbpc[31:2]` and
`xbpc[20]` all mean bits of the same address.  The port `xstb` is declared as an
output but never driven here, so inside the module it is the net that `t5_data`
drives.
-/
import Tra5.Rtl.Memory

namespace Tra5

/-- The execute-slot registers of `t5_aslu`. -/
structure Execute where
  xopc : BitVec 5
  xfn3 : BitVec 3
  xcsr : BitVec 32
  xbra : BitVec 2
  xbpc : BitVec 30
  xdat : BitVec 32
  xmov : BitVec 32
  xalu : BitVec 32
  xoff : BitVec 2
  xexc : Bool
  deriving DecidableEq, Repr, Inhabited

/-- The control and status registers, one set for all four harts. -/
structure Csr where
  mepc : BitVec 32
  mcause : BitVec 4
  medeleg : BitVec 32
  mtvec : BitVec 32
  mtval : BitVec 32
  mscratch : BitVec 32
  mie : Bool
  mpie : Bool
  deriving DecidableEq, Repr, Inhabited

structure T5Aslu extends Execute, Csr where
  malu : BitVec 32
  deriving DecidableEq, Repr, Inhabited

namespace T5Aslu

/-! ## Adders -/

def xadr (d : Decode) : BitVec 32 := d.dcp1 + d.dcp2

/-- Bit 32 of the operands: zero for the unsigned comparisons, the sign
otherwise. -/
def unsignedOp (dfn3 : BitVec 3) : Bool :=
  (dfn3.getLsbD 2 && dfn3.getLsbD 1) || (dfn3.getLsbD 1 && dfn3.getLsbD 0)

def wop1 (d : Decode) : BitVec 33 :=
  BitVec.ofBool (if unsignedOp d.dfn3 then false else d.dop1.getLsbD 31) ++ d.dop1

def wop2 (d : Decode) : BitVec 33 :=
  BitVec.ofBool (if unsignedOp d.dfn3 then false else d.dop2.getLsbD 31) ++ d.dop2

def xadd (d : Decode) : BitVec 33 := if d.dsub then wop1 d - wop2 d else wop1 d + wop2 d

/-! ## Logic, shift and comparison -/

def xlog (X : DontCare) (d : Decode) : BitVec 32 :=
  match d.dfn3.extractLsb 1 0 with
  | 0b00#2 => d.dop1 ^^^ d.dop2
  | 0b10#2 => d.dop1 ||| d.dop2
  | 0b11#2 => d.dop1 &&& d.dop2
  | _ => X.xlog

/-- `{{n{x[31]}}, x[31:n]}`, one row of the arithmetic shift table. -/
def sraRow (n : Nat) (x : BitVec 32) : BitVec 32 :=
  (BitVec.fill n (x.getLsbD 31) ++ x.extractLsb 31 n).setWidth 32

/-- The arithmetic shift, written out row by row in the source. -/
def sra (dop1 : BitVec 32) : Nat → BitVec 32
  | 0 => dop1
  | 1 => sraRow 1 dop1
  | 2 => sraRow 2 dop1
  | 3 => sraRow 3 dop1
  | 4 => sraRow 4 dop1
  | 5 => sraRow 5 dop1
  | 6 => sraRow 6 dop1
  | 7 => sraRow 7 dop1
  | 8 => sraRow 8 dop1
  | 9 => sraRow 9 dop1
  | 10 => sraRow 10 dop1
  | 11 => sraRow 11 dop1
  | 12 => sraRow 12 dop1
  | 13 => sraRow 13 dop1
  | 14 => sraRow 14 dop1
  | 15 => sraRow 15 dop1
  | 16 => sraRow 16 dop1
  | 17 => sraRow 17 dop1
  | 18 => sraRow 18 dop1
  | 19 => sraRow 19 dop1
  | 20 => sraRow 20 dop1
  | 21 => sraRow 21 dop1
  | 22 => sraRow 22 dop1
  | 23 => sraRow 23 dop1
  | 24 => sraRow 24 dop1
  | 25 => sraRow 25 dop1
  | 26 => sraRow 26 dop1
  | 27 => sraRow 27 dop1
  | 28 => sraRow 28 dop1
  | 29 => sraRow 29 dop1
  | 30 => sraRow 30 dop1
  | _ => sraRow 31 dop1

def shamt (d : Decode) : Nat := (d.dop2.extractLsb 4 0).toNat

def xshf (X : DontCare) (d : Decode) : BitVec 32 :=
  match d.dfn3.getLsbD 2, d.dfn7.getLsbD 5 with
  | false, false => d.dop1 <<< shamt d
  | true, false => d.dop1 >>> shamt d
  | true, true => sra d.dop1 (shamt d)
  | false, true => X.xshf

def xneq (d : Decode) : Bool := orR ((xadd d).extractLsb 31 0)

def xcmp (d : Decode) : Bool :=
  match d.dfn3 with
  | 0#3 => !xneq d
  | 1#3 => xneq d
  | 2#3 => (xadd d).getLsbD 32
  | 3#3 => (xadd d).getLsbD 32
  | 4#3 => (xadd d).getLsbD 32
  | 5#3 => !(xadd d).getLsbD 32
  | 6#3 => (xadd d).getLsbD 32
  | _ => !(xadd d).getLsbD 32

def xset (d : Decode) : BitVec 32 := 0#31 ++ BitVec.ofBool ((xadd d).getLsbD 32)

def result (X : DontCare) (d : Decode) : BitVec 32 :=
  match d.dfn3 with
  | 0#3 => (xadd d).extractLsb 31 0
  | 1#3 => xshf X d
  | 2#3 => xset d
  | 3#3 => xset d
  | 4#3 => xlog X d
  | 5#3 => xshf X d
  | 6#3 => xlog X d
  | _ => xlog X d

/-! ## Control and status registers -/

def csrMstatus : BitVec 12 := 0x300#12
def csrMisa : BitVec 12 := 0x301#12
def csrMedeleg : BitVec 12 := 0x302#12
def csrMie : BitVec 12 := 0x304#12
def csrMip : BitVec 12 := 0x344#12
def csrMtvec : BitVec 12 := 0x305#12
def csrMtval : BitVec 12 := 0x343#12
def csrMcause : BitVec 12 := 0x342#12
def csrMscratch : BitVec 12 := 0x340#12
def csrMepc : BitVec 12 := 0x341#12
def csrMhartid : BitVec 12 := 0xF14#12

def csrNum (d : Decode) : BitVec 12 := d.dcp2.extractLsb 31 20

def readMstatus (c : Csr) : BitVec 32 :=
  3#21 ++ 0#3 ++ BitVec.ofBool c.mpie ++ 0#3 ++ BitVec.ofBool c.mie ++ 0#3

def rcsr (c : Csr) (dhart : BitVec 2) (num : BitVec 12) : BitVec 32 :=
  if num = csrMhartid then 0#30 ++ dhart
  else if num = csrMisa then 0x40000100#32
  else if num = csrMscratch then c.mscratch
  else if num = csrMedeleg then c.medeleg
  else if num = csrMepc then c.mepc.extractLsb 31 2 ++ 0#2
  else if num = csrMtval then c.mtval
  else if num = csrMtvec then c.mtvec
  else if num = csrMie ∨ num = csrMip then 0x00000080#32
  else if num = csrMcause then 0#28 ++ c.mcause
  else if num = csrMstatus then readMstatus c
  else 0#32

def mask (d : Decode) : BitVec 32 :=
  if d.dfn3.getLsbD 2 then 0#27 ++ d.dcp2.extractLsb 19 15 else d.dop1

/-- The value a CSR instruction with funct3 `dfn3` forms from the value it read. -/
def wcsr (X : DontCare) (d : Decode) (rcsr : BitVec 32) : BitVec 32 :=
  match d.dfn3.extractLsb 1 0 with
  | 1#2 => mask d
  | 2#2 => rcsr ||| mask d
  | 3#2 => rcsr &&& ~~~ mask d
  | _ => X.wcsr

/-- A CSR is written by every CSR instruction that names it, `wecsr` being
`dcsr` itself. -/
def wenable (d : Decode) (num : BitVec 12) : Bool := csrNum d == num && d.dcsr

/-- What the clocked CSR blocks see of the execute slot and of the decode slot. -/
structure CsrInputs where
  xbra : BitVec 2
  xstb : BitVec 2
  xexc : Bool
  xwre : Bool
  xbpc : BitVec 30
  xoff : BitVec 2
  xepc : BitVec 30
  dhart : BitVec 2
  deriving DecidableEq, Repr, Inhabited

def xbrk (xbpc : BitVec 30) : Bool := xbpc.getLsbD 18

def nextMstatus (i : CsrInputs) (wstatus : Bool) (w : BitVec 32) (c : Csr) : Bool × Bool :=
  match i.xbra, wstatus with
  | 0b11#2, false => (c.mie, false)
  | 0b01#2, false => (true, c.mpie)
  | _, _ => (w.getLsbD 7, w.getLsbD 3)

def nextMepc (i : CsrInputs) (wepc : Bool) (w : BitVec 32) (c : Csr) : BitVec 32 :=
  match andR i.xbra || wepc, andR i.xstb || wepc with
  | true, true => w
  | true, false => i.xepc ++ 0#2
  | false, true => i.xepc ++ 0#2
  | false, false => c.mepc

def nextMcause (i : CsrInputs) (wcause : Bool) (w : BitVec 32) (c : Csr) : BitVec 4 :=
  match i.xexc, andR i.xbra || wcause, andR i.xstb || wcause with
  | false, true, true => w.extractLsb 3 0
  | false, true, false => 0#4
  | true, true, false => BitVec.ofBool (!xbrk i.xbpc) ++ 3#3
  | false, false, true => 1#2 ++ BitVec.ofBool i.xwre ++ 0#1
  | _, _, _ => c.mcause

def nextMtval (i : CsrInputs) (wtval : Bool) (w : BitVec 32) (c : Csr) : BitVec 32 :=
  match andR i.xbra || wtval, andR i.xstb || wtval with
  | true, true => w
  | true, false => i.xbpc ++ i.xoff
  | false, true => i.xbpc ++ i.xoff
  | false, false => c.mtval

def nextCsr (X : DontCare) (i : CsrInputs) (d : Decode) (c : Csr) : Csr :=
  let w := wcsr X d (rcsr c i.dhart (csrNum d))
  { mepc := nextMepc i (wenable d csrMepc) w c
    mcause := nextMcause i (wenable d csrMcause) w c
    medeleg := if wenable d csrMedeleg then w else c.medeleg
    mtvec := if wenable d csrMtvec then w else c.mtvec
    mtval := nextMtval i (wenable d csrMtval) w c
    mscratch := if wenable d csrMscratch then w else c.mscratch
    mpie := (nextMstatus i (wenable d csrMstatus) w c).1
    mie := (nextMstatus i (wenable d csrMstatus) w c).2 }

/-! ## Branch decision and the execute registers -/

def wbra (d : Decode) : Bool :=
  d.dopc.getLsbD 4 && d.dopc.getLsbD 3 && !d.dopc.getLsbD 2 && (d.dopc.getLsbD 0 || xcmp d)

/-- A taken branch or a jump to an address that is not a multiple of four. -/
def balign (d : Decode) : Bool :=
  (orR ((xadr d).extractLsb 1 0) && d.dbra && xcmp d) || (d.djmp && (xadr d).getLsbD 1)

def xbraNext (d : Decode) : BitVec 2 :=
  BitVec.ofBool (wbra d || (d.dexc && !d.dcp2.getLsbD 21)) ++ BitVec.ofBool (balign d || d.dexc)

def xbpcNext (c : Csr) (d : Decode) : BitVec 30 :=
  if d.dexc && d.dcp2.getLsbD 21 then c.mepc.extractLsb 31 2 else (xadr d).extractLsb 31 2

/-- The store data, replicated over the byte lanes. -/
def xdatNext (X : DontCare) (d : Decode) : BitVec 32 :=
  match d.dfn3.extractLsb 1 0 with
  | 0#2 => BitVec.replicate 4 ((xadd d).extractLsb 7 0)
  | 1#2 => BitVec.replicate 2 ((xadd d).extractLsb 15 0)
  | 2#2 => (xadd d).extractLsb 31 0
  | _ => X.xdat

def execute (X : DontCare) (dhart : BitVec 2) (c : Csr) (d : Decode) : Execute :=
  { xopc := d.dopc
    xfn3 := d.dfn3
    xcsr := rcsr c dhart (csrNum d)
    xbra := xbraNext d
    xbpc := xbpcNext c d
    xdat := xdatNext X d
    xmov := (xadd d).extractLsb 31 0
    xalu := result X d
    xoff := if d.djmp then BitVec.ofBool ((xadr d).getLsbD 1) ++ 0#1 else (xadr d).extractLsb 1 0
    xexc := d.dexc }

def maluNext (X : DontCare) (x : Execute) (xpc : BitVec 30) : BitVec 32 :=
  match x.xopc.getLsbD 4, x.xopc.getLsbD 3, x.xopc.getLsbD 2, x.xopc.getLsbD 0 with
  | false, true, true, true => x.xmov
  | true, true, false, true => xpc ++ 0#2
  | false, false, true, true => x.xbpc ++ 0#2
  | false, false, true, false => x.xalu
  | false, true, true, false => x.xalu
  | true, true, true, false => x.xcsr
  | _, _, _, _ => X.malu

def reset : T5Aslu :=
  { xopc := 0x0D#5, xfn3 := 0#3, xcsr := 0#32, xbra := 0#2, xbpc := 0#30, xdat := 0#32
    xmov := 0#32, xalu := 0#32, xoff := 0#2, xexc := false
    mepc := 0#32, mcause := 0#4, medeleg := 0#32, mtvec := 0#32, mtval := 0#32
    mscratch := 0#32, mie := false, mpie := false
    malu := 0#32 }

def advance (X : DontCare) (dhart : BitVec 2) (x : T5Data) (ctrl : T5Ctrl) (s : T5Aslu) :
    T5Aslu :=
  let i : CsrInputs :=
    { xbra := s.xbra, xstb := x.xstb, xexc := s.xexc, xwre := x.xwre
      xbpc := s.xbpc, xoff := s.xoff, xepc := ctrl.xepc, dhart := dhart }
  { toExecute := execute X dhart s.toCsr ctrl.toDecode
    toCsr := nextCsr X i ctrl.toDecode s.toCsr
    malu := maluNext X s.toExecute ctrl.xpc }

end T5Aslu

end Tra5
