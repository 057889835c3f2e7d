/-
The core `t5_rv32i`: the seven modules wired together.

`T5Rv32i.step` is one edge of `sys_clk`.  Every wire between two modules carries
a flop or a combinational function of flops, so a module's update takes the
records of the modules it is wired to.  The input `sexe` is not read by the
design and is left out.
-/
import Tra5.Rtl.Aslu

namespace Tra5

structure Input where
  sysRst : Bool
  sysEna : Bool
  iwbDat : BitVec 32
  dwbDti : BitVec 32
  dwbAck : Bool
  deriving DecidableEq, Repr, Inhabited

structure Request where
  adr : BitVec 30
  dto : BitVec 32
  sel : BitVec 4
  wre : Bool
  stb : Bool
  deriving DecidableEq, Repr, Inhabited

/-- Every flop of the core, and the register file. -/
structure T5Rv32i where
  sysc : T5Sysc
  inst : T5Inst
  ctrl : T5Ctrl
  aslu : T5Aslu
  data : T5Data
  back : T5Back
  gprf : T5Gprf
  deriving Inhabited

namespace T5Rv32i

/-! ## Wires -/

def srst (c : T5Rv32i) : Bool := c.sysc.srst

def sena (c : T5Rv32i) (i : Input) : Bool := c.sysc.sena i.sysEna c.data.xstb i.dwbAck

def rs1d (c : T5Rv32i) (ireg : BitVec 32) : BitVec 32 :=
  c.gprf.rs1d c.inst.fhart (T5Ctrl.rs1a ireg)

def rs2d (c : T5Rv32i) (ireg : BitVec 32) : BitVec 32 :=
  c.gprf.rs2d c.inst.fhart (T5Ctrl.rs2a ireg)

def rd0a (c : T5Rv32i) : BitVec 5 := c.back.mrd

def rd0d (c : T5Rv32i) : BitVec 32 := T5Back.dmux c.back.mopc c.back.dext c.aslu.malu

def nextAdr (c : T5Rv32i) : BitVec 30 :=
  T5Inst.nextAdr c.aslu.xbra c.data.xstb c.aslu.mtvec c.aslu.mepc c.aslu.xbpc c.ctrl.xpc

/-! ## Outputs -/

def iwbAdr (c : T5Rv32i) : BitVec 30 := c.inst.iwbAdr

def iwbStb (c : T5Rv32i) (i : Input) : Bool := c.sena i

def dwbAdr (c : T5Rv32i) : BitVec 30 := c.aslu.xbpc

def dwbDto (c : T5Rv32i) : BitVec 32 := c.aslu.xdat

def dwbSel (c : T5Rv32i) : BitVec 4 := c.data.xsel

def dwbWre (c : T5Rv32i) : Bool := c.data.xwre

def dwbStb (c : T5Rv32i) : Bool := c.data.xstb.getLsbD 1

def request (c : T5Rv32i) : Request :=
  { adr := c.dwbAdr, dto := c.dwbDto, sel := c.dwbSel, wre := c.dwbWre, stb := c.dwbStb }

/-! ## The clock edge -/

/-- The update of the flops that `srst` resets and `sena` moves. -/
def clocked {α : Type} (srst sena : Bool) (reset next hold : α) : α :=
  if srst then reset else if sena then next else hold

def step (X : DontCare) (c : T5Rv32i) (i : Input) : T5Rv32i :=
  let srst := c.srst
  let sena := c.sena i
  let fpc : BitVec 30 := c.inst.fpc.extractLsb 31 2
  { sysc := c.sysc.step i.sysRst
    inst := c.inst.step i.sysRst srst sena c.nextAdr
    ctrl := clocked srst sena T5Ctrl.reset
      (c.ctrl.advance X fpc i.iwbDat (c.rs1d i.iwbDat) (c.rs2d i.iwbDat)) c.ctrl
    aslu := clocked srst sena T5Aslu.reset
      (c.aslu.advance X c.inst.dhart c.data c.ctrl) c.aslu
    data := clocked srst sena T5Data.reset (T5Data.advance c.ctrl.toDecode) c.data
    back := clocked srst sena T5Back.reset
      (c.back.advance X (i.iwbDat.extractLsb 11 7) c.aslu.xopc c.aslu.xfn3 c.data i.dwbDti)
      c.back
    gprf := c.gprf.step c.back.mwre c.inst.mhart c.rd0a c.rd0d }

/-- An edge at which the pipeline moves. -/
def advancing (c : T5Rv32i) (i : Input) : Bool := !c.srst && c.sena i

end T5Rv32i

end Tra5
