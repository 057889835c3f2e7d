/-
The data bus, write-back and the register file: `t5_data`, `t5_back`, `t5_gprf`
and the `dpram` it instantiates twice.
-/
import Tra5.Rtl.Fetch
import Tra5.Rtl.Ctrl

namespace Tra5

/-! ## Data bus -/

structure T5Data where
  xsel : BitVec 4
  xstb : BitVec 2
  xwre : Bool
  deriving DecidableEq, Repr, Inhabited

namespace T5Data

/-- The byte offset, from an adder of its own. -/
def xoff (d : Decode) : BitVec 2 := d.dcp1.extractLsb 1 0 + d.dcp2.extractLsb 1 0

/-- The selector of both `case` statements: the access size and the offset. -/
def lane (d : Decode) : BitVec 4 := d.dfn3.extractLsb 1 0 ++ xoff d

def byteSelect (lane : BitVec 4) : BitVec 4 :=
  match lane with
  | 0x0#4 => 0x1#4
  | 0x1#4 => 0x2#4
  | 0x2#4 => 0x4#4
  | 0x3#4 => 0x8#4
  | 0x4#4 => 0x3#4
  | 0x6#4 => 0xC#4
  | 0x8#4 => 0xF#4
  | _ => 0x0#4

def misaligned (lane : BitVec 4) : Bool :=
  match lane with
  | 0x0#4 | 0x1#4 | 0x2#4 | 0x3#4 | 0x4#4 | 0x6#4 | 0x8#4 => false
  | _ => true

def strobe (dopc : BitVec 5) : Bool := !dopc.getLsbD 4 && !dopc.getLsbD 2 && !dopc.getLsbD 0

def reset : T5Data := { xsel := 0#4, xstb := 0#2, xwre := false }

def advance (d : Decode) : T5Data :=
  { xsel := byteSelect (lane d)
    xstb := BitVec.ofBool (strobe d.dopc) ++ BitVec.ofBool (misaligned (lane d))
    xwre := d.dopc.getLsbD 3 }

end T5Data

/-! ## Write-back -/

structure T5Back where
  mopc : BitVec 5
  dext : BitVec 32
  drd : BitVec 5
  xrd : BitVec 5
  mrd : BitVec 5
  mwre : Bool
  deriving DecidableEq, Repr, Inhabited

namespace T5Back

def btype (xopc : BitVec 5) : Bool := xopc.getLsbD 4 && !xopc.getLsbD 2 && !xopc.getLsbD 0

def stype (xopc : BitVec 5) : Bool := !xopc.getLsbD 4 && xopc.getLsbD 3 && !xopc.getLsbD 2

def extendByte (unsigned : Bool) (b : BitVec 8) : BitVec 32 :=
  (if unsigned then 0#24 else BitVec.fill 24 (b.getLsbD 7)) ++ b

def extendHalf (unsigned : Bool) (h : BitVec 16) : BitVec 32 :=
  (if unsigned then 0#16 else BitVec.fill 16 (h.getLsbD 15)) ++ h

def extend (X : DontCare) (xsel : BitVec 4) (xfn3 : BitVec 3) (dwbDti : BitVec 32) :
    BitVec 32 :=
  match xsel with
  | 0x1#4 => extendByte (xfn3.getLsbD 2) (dwbDti.extractLsb 7 0)
  | 0x2#4 => extendByte (xfn3.getLsbD 2) (dwbDti.extractLsb 15 8)
  | 0x4#4 => extendByte (xfn3.getLsbD 2) (dwbDti.extractLsb 23 16)
  | 0x8#4 => extendByte (xfn3.getLsbD 2) (dwbDti.extractLsb 31 24)
  | 0x3#4 => extendHalf (xfn3.getLsbD 2) (dwbDti.extractLsb 15 0)
  | 0xC#4 => extendHalf (xfn3.getLsbD 2) (dwbDti.extractLsb 31 16)
  | 0xF#4 => dwbDti
  | _ => X.dext

/-- Write enable of the instruction in the execute slot. -/
def writes (xstb : BitVec 2) (xrd xopc : BitVec 5) : Bool :=
  !andR xstb && orR xrd && !stype xopc && !btype xopc

def dmux (mopc : BitVec 5) (dext malu : BitVec 32) : BitVec 32 :=
  if mopc = 0#5 then dext else malu

/-- Reset leaves a write to `x0` pending. -/
def reset : T5Back :=
  { mopc := 0x0D#5, dext := 0#32, drd := 0#5, xrd := 0#5, mrd := 0#5, mwre := true }

def advance (X : DontCare) (rd xopc : BitVec 5) (xfn3 : BitVec 3) (x : T5Data)
    (dwbDti : BitVec 32) (s : T5Back) : T5Back :=
  { mopc := xopc
    dext := extend X x.xsel xfn3 dwbDti
    drd := rd
    xrd := s.drd
    mrd := s.xrd
    mwre := writes x.xstb s.xrd xopc }

end T5Back

/-! ## Register file -/

/-- The memory of a `dpram` with `2 ^ aw` words of `dw` bits. -/
def Dpram (aw dw : Nat) : Type := BitVec aw → BitVec dw

instance {aw dw : Nat} : Inhabited (Dpram aw dw) := ⟨fun _ => BitVec.zero dw⟩

namespace Dpram

variable {aw dw : Nat}

def read (ram : Dpram aw dw) (xadr : BitVec aw) : BitVec dw := ram xadr

def step (ram : Dpram aw dw) (wre : Bool) (adr : BitVec aw) (dat : BitVec dw) : Dpram aw dw :=
  fun x => if wre && x == adr then dat else ram x

end Dpram

/-- The two copies of the register file, one for each read port. -/
structure T5Gprf where
  rs1 : Dpram 7 32
  rs2 : Dpram 7 32
  deriving Inhabited

namespace T5Gprf

/-- One clock edge.  `ena_i` is tied to 1, so the write happens on every clock
and not only when the pipeline moves. -/
def step (s : T5Gprf) (mwre : Bool) (mhart : BitVec 2) (rd0a : BitVec 5) (rd0d : BitVec 32) :
    T5Gprf :=
  { rs1 := s.rs1.step mwre (mhart ++ rd0a) rd0d
    rs2 := s.rs2.step mwre (mhart ++ rd0a) rd0d }

def rs1d (s : T5Gprf) (fhart : BitVec 2) (rs1a : BitVec 5) : BitVec 32 :=
  s.rs1.read (fhart ++ rs1a)

def rs2d (s : T5Gprf) (fhart : BitVec 2) (rs2a : BitVec 5) : BitVec 32 :=
  s.rs2.read (fhart ++ rs2a)

end T5Gprf

end Tra5
