/-
The decoder `t5_ctrl`.

`decode` is what the decode registers load from an instruction word, and
`T5Ctrl.advance` is the clocked update.  The two differ for a word that does not
end in `11`: the operand, opcode and PC registers are clocked by `sena & rv32`
and hold their values, while the five flags are clocked by `sena` alone.

A `case` arm of the source that assigns `X` is resolved to a field of
`DontCare`.  The value is fixed and arbitrary, as in a two-state simulator, and
the theorems quantify over it.
-/
import Mathlib.Data.BitVec

namespace Tra5

/-- The values chosen for the don't-care arms of the design. -/
structure DontCare where
  imm0 : Bool
  imm41 : BitVec 4
  dcp2 : BitVec 15
  xlog : BitVec 32
  xshf : BitVec 32
  wcsr : BitVec 32
  xdat : BitVec 32
  malu : BitVec 32
  dext : BitVec 32
  deriving DecidableEq, Repr, Inhabited

structure Decode where
  dexc : Bool
  dcsr : Bool
  dsub : Bool
  dbra : Bool
  djmp : Bool
  dop1 : BitVec 32
  dop2 : BitVec 32
  dcp1 : BitVec 32
  dcp2 : BitVec 32
  dfn3 : BitVec 3
  dfn7 : BitVec 7
  dopc : BitVec 5
  deriving DecidableEq, Repr, Inhabited

/-- The flops of `t5_ctrl`: the decode registers and the PC pipeline. -/
structure T5Ctrl extends Decode where
  dpc : BitVec 30
  xpc : BitVec 30
  mpc : BitVec 30
  xepc : BitVec 30
  depc : BitVec 30
  deriving DecidableEq, Repr, Inhabited

namespace T5Ctrl

/-! ## Format decoder

The format is told from single bits of the opcode, and a test may accept more
opcodes than the one its comment in the source names. -/

def opc (ireg : BitVec 32) : BitVec 5 := ireg.extractLsb 6 2

def rv32 (ireg : BitVec 32) : Bool := ireg.getLsbD 1 && ireg.getLsbD 0

def btype (opc : BitVec 5) : Bool := opc.getLsbD 4 && !opc.getLsbD 2 && !opc.getLsbD 0

def stype (opc : BitVec 5) : Bool := !opc.getLsbD 4 && opc.getLsbD 3 && !opc.getLsbD 2

def utype (opc : BitVec 5) : Bool := !opc.getLsbD 4 && !opc.getLsbD 1 && opc.getLsbD 0

def jtype (opc : BitVec 5) : Bool := opc.getLsbD 4 && opc.getLsbD 1 && opc.getLsbD 0

def rtype (opc : BitVec 5) : Bool :=
  !opc.getLsbD 4 && opc.getLsbD 3 && opc.getLsbD 2 && !opc.getLsbD 0

def itype (opc : BitVec 5) : Bool := (!opc.getLsbD 3 && !opc.getLsbD 0) || opc == 0b11001#5

def ctype (opc : BitVec 5) (ireg : BitVec 32) : Bool :=
  opc.getLsbD 4 && opc.getLsbD 2 && (ireg.getLsbD 13 || ireg.getLsbD 12)

def etype (opc : BitVec 5) (ireg : BitVec 32) : Bool :=
  opc.getLsbD 4 && opc.getLsbD 2 && !(ireg.getLsbD 13 || ireg.getLsbD 12)

def rs1a (ireg : BitVec 32) : BitVec 5 := ireg.extractLsb 19 15

def rs2a (ireg : BitVec 32) : BitVec 5 := ireg.extractLsb 24 20

/-! ## Immediate decoder -/

def imm0 (X : DontCare) (opc : BitVec 5) (ireg : BitVec 32) : Bool :=
  match itype opc, stype opc with
  | true, false => ireg.getLsbD 20
  | false, true => ireg.getLsbD 7
  | false, false => false
  | true, true => X.imm0

def imm41 (X : DontCare) (opc : BitVec 5) (ireg : BitVec 32) : BitVec 4 :=
  match itype opc || jtype opc, stype opc || btype opc with
  | true, false => ireg.extractLsb 24 21
  | false, true => ireg.extractLsb 11 8
  | false, false => 0#4
  | true, true => X.imm41

def imm105 (opc : BitVec 5) (ireg : BitVec 32) : BitVec 6 :=
  if utype opc then 0#6 else ireg.extractLsb 30 25

def imm11 (opc : BitVec 5) (ireg : BitVec 32) : Bool :=
  match utype opc || jtype opc, utype opc || btype opc with
  | true, false => ireg.getLsbD 20
  | false, true => ireg.getLsbD 7
  | true, true => false
  | false, false => ireg.getLsbD 31

def imm1912 (opc : BitVec 5) (ireg : BitVec 32) : BitVec 8 :=
  if utype opc || jtype opc then ireg.extractLsb 19 12 else BitVec.fill 8 (ireg.getLsbD 31)

def imm3020 (opc : BitVec 5) (ireg : BitVec 32) : BitVec 11 :=
  if utype opc then ireg.extractLsb 30 20 else BitVec.fill 11 (ireg.getLsbD 31)

def imm (X : DontCare) (opc : BitVec 5) (ireg : BitVec 32) : BitVec 32 :=
  BitVec.ofBool (ireg.getLsbD 31) ++ imm3020 opc ireg ++ imm1912 opc ireg ++
    BitVec.ofBool (imm11 opc ireg) ++ imm105 opc ireg ++ imm41 X opc ireg ++
    BitVec.ofBool (imm0 X opc ireg)

/-! ## Decode registers -/

/-- What the decode registers load from the word `ireg` at address `fpc` with
the register file outputs `rs1d` and `rs2d`. -/
def decode (X : DontCare) (fpc : BitVec 30) (ireg rs1d rs2d : BitVec 32) : Decode :=
  let opc := opc ireg
  { dexc := etype opc ireg
    dcsr := ctype opc ireg
    dsub := btype opc || (rtype opc && (ireg.getLsbD 13 || ireg.getLsbD 30)) ||
      (itype opc && ireg.getLsbD 13)
    dbra := btype opc
    djmp := jtype opc || (itype opc && opc.getLsbD 4)
    dcp1 := if stype opc || itype opc || etype opc ireg then rs1d else fpc ++ 0#2
    dcp2 := if ctype opc ireg || etype opc ireg then ireg.extractLsb 31 15 ++ X.dcp2
      else imm X opc ireg
    dop1 := if rtype opc || itype opc || btype opc || ctype opc ireg then rs1d else 0#32
    dop2 := if rtype opc || stype opc || btype opc then rs2d else imm X opc ireg
    dfn3 := ireg.extractLsb 14 12
    dfn7 := ireg.extractLsb 31 25
    dopc := opc }

def npc (fpc : BitVec 30) : BitVec 30 := fpc + 1#30

/-- The reset value is a `lui` of zero, with the opcode set and every other
flop clear. -/
def reset : T5Ctrl :=
  { dexc := false, dcsr := false, dsub := false, dbra := false, djmp := false
    dop1 := 0#32, dop2 := 0#32, dcp1 := 0#32, dcp2 := 0#32
    dfn3 := 0#3, dfn7 := 0#7, dopc := 0x0D#5
    dpc := 0#30, xpc := 0#30, mpc := 0#30, xepc := 0#30, depc := 0#30 }

def advance (X : DontCare) (fpc : BitVec 30) (ireg rs1d rs2d : BitVec 32)
    (s : T5Ctrl) : T5Ctrl :=
  let d := decode X fpc ireg rs1d rs2d
  if rv32 ireg then
    { toDecode := d
      mpc := s.xpc, xpc := s.dpc, dpc := npc fpc
      xepc := s.depc, depc := fpc }
  else
    -- Only the flags follow the word.
    { s with
      dexc := d.dexc, dcsr := d.dcsr, dsub := d.dsub, dbra := d.dbra, djmp := d.djmp }

end T5Ctrl

end Tra5
