/-
One instruction through the datapath.

`datapath` composes the decoder of `t5_ctrl`, the execute stages `t5_aslu` and
`t5_data` and the write-back of `t5_back` on one instruction word, with no
pipeline register in between.  The parts of the core it depends on besides the
word, its address and its operands are collected in `Surroundings`.
-/
import Tra5.Rtl.Core
import Tra5.Isa.Word
import Mathlib.Tactic.IntervalCases

namespace Tra5

/-- What an instruction does to its hart. -/
structure Outcome where
  wre : Bool
  rd : BitVec 5
  value : BitVec 32
  next : BitVec 30
  request : Request
  trap : Bool
  deriving DecidableEq, Repr, Inhabited

/-- The rest of the core as one instruction sees it: the hart tag, the CSRs
while it is in the decode slot and while it is in the execute slot, and the word
on the data bus when it leaves the execute slot. -/
structure Surroundings where
  dhart : BitVec 2
  decodeCsr : Csr
  executeCsr : Csr
  dwbDti : BitVec 32
  deriving DecidableEq, Repr, Inhabited

def outcome (X : DontCare) (csr : Csr) (dwbDti : BitVec 32) (x : Execute) (m : T5Data)
    (xpc : BitVec 30) (xrd : BitVec 5) : Outcome :=
  { wre := T5Back.writes m.xstb xrd x.xopc
    rd := xrd
    value := T5Back.dmux x.xopc (T5Back.extend X m.xsel x.xfn3 dwbDti)
      (T5Aslu.maluNext X x xpc)
    next := T5Inst.nextAdr x.xbra m.xstb csr.mtvec csr.mepc x.xbpc xpc
    request :=
      { adr := x.xbpc, dto := x.xdat, sel := m.xsel, wre := m.xwre, stb := m.xstb.getLsbD 1 }
    trap := andR x.xbra || andR m.xstb }

/-- One instruction word at `pc` with the operands `a` and `b`. -/
def datapath (X : DontCare) (e : Surroundings) (pc : BitVec 30) (w a b : BitVec 32) : Outcome :=
  let d := T5Ctrl.decode X pc w a b
  outcome X e.executeCsr e.dwbDti (T5Aslu.execute X e.dhart e.decodeCsr d) (T5Data.advance d)
    (T5Ctrl.npc pc) (w.extractLsb 11 7)

/-! ## Pairs of control bits -/

theorem andR_pair (p q : Bool) : andR (BitVec.ofBool p ++ BitVec.ofBool q) = (p && q) := by
  cases p <;> cases q <;> rfl

theorem getLsbD_one_pair (p q : Bool) : (BitVec.ofBool p ++ BitVec.ofBool q).getLsbD 1 = p := by
  cases p <;> cases q <;> rfl

theorem getLsbD_zero_pair (p q : Bool) : (BitVec.ofBool p ++ BitVec.ofBool q).getLsbD 0 = q := by
  cases p <;> cases q <;> rfl

theorem nextAdr_of_straight {xstb : BitVec 2} (h : andR xstb = false) (mtvec mepc : BitVec 32)
    (xbpc xpc : BitVec 30) :
    T5Inst.nextAdr (BitVec.ofBool false ++ BitVec.ofBool false) xstb mtvec mepc xbpc xpc = xpc := by
  unfold T5Inst.nextAdr
  rw [h]
  rfl

theorem nextAdr_of_jump {xstb : BitVec 2} (h : andR xstb = false) (mtvec mepc : BitVec 32)
    (xbpc xpc : BitVec 30) :
    T5Inst.nextAdr (BitVec.ofBool true ++ BitVec.ofBool false) xstb mtvec mepc xbpc xpc = xbpc := by
  unfold T5Inst.nextAdr
  rw [h]
  rfl

/-! ## Decode registers that raise no trap -/

/-- The decode registers hold an instruction that the execute stage lets pass:
no exception, no misaligned target and no misaligned access. -/
structure Calm (d : Decode) : Prop where
  dexc : d.dexc = false
  balign : T5Aslu.balign d = false
  access : (T5Data.strobe d.dopc && T5Data.misaligned (T5Data.lane d)) = false

namespace Calm

variable {X : DontCare} {d : Decode}

theorem andR_xstb (h : Calm d) : andR (T5Data.advance d).xstb = false :=
  (andR_pair _ _).trans h.access

theorem xbra (h : Calm d) :
    T5Aslu.xbraNext d = BitVec.ofBool (T5Aslu.wbra d) ++ BitVec.ofBool false := by
  rw [T5Aslu.xbraNext, h.dexc, h.balign, Bool.false_and, Bool.or_false, Bool.or_self]

theorem xbpc (h : Calm d) (csr : Csr) :
    T5Aslu.xbpcNext csr d = (T5Aslu.xadr d).extractLsb 31 2 := by
  rw [T5Aslu.xbpcNext, h.dexc, Bool.false_and, if_neg Bool.false_ne_true]

theorem nextAdr_eq (h : Calm d) (csr : Csr) (xbpc xpc : BitVec 30) :
    T5Inst.nextAdr (T5Aslu.xbraNext d) (T5Data.advance d).xstb csr.mtvec csr.mepc xbpc xpc =
      if T5Aslu.wbra d then xbpc else xpc := by
  rw [h.xbra]
  cases T5Aslu.wbra d with
  | false => exact nextAdr_of_straight h.andR_xstb _ _ _ _
  | true => exact nextAdr_of_jump h.andR_xstb _ _ _ _

theorem outcome (h : Calm d) (csr csr' : Csr) (dhart : BitVec 2) (dti : BitVec 32)
    (xpc : BitVec 30) (xrd : BitVec 5) :
    let o := outcome X csr dti (T5Aslu.execute X dhart csr' d) (T5Data.advance d) xpc xrd
    o.trap = false ∧
      o.wre = (orR xrd && !T5Back.stype d.dopc && !T5Back.btype d.dopc) ∧
      o.next = if T5Aslu.wbra d then (T5Aslu.xadr d).extractLsb 31 2 else xpc := by
  have hb : (T5Aslu.execute X dhart csr' d).xbra =
      BitVec.ofBool (T5Aslu.wbra d) ++ BitVec.ofBool false := h.xbra
  have hp : (T5Aslu.execute X dhart csr' d).xbpc = (T5Aslu.xadr d).extractLsb 31 2 := h.xbpc csr'
  refine ⟨?_, ?_, ?_⟩
  · simp only [Tra5.outcome, hb, andR_pair, h.andR_xstb, Bool.and_false, Bool.or_self]
  · simp only [Tra5.outcome, T5Back.writes, h.andR_xstb, Bool.not_false, Bool.true_and]
    rfl
  · rw [← hp]
    exact h.nextAdr_eq csr _ xpc

end Calm

/-! ## Addresses -/

def byteAdr (pc : BitVec 30) : BitVec 32 := pc ++ 0#2

theorem byteAdr_npc (pc : BitVec 30) : byteAdr (T5Ctrl.npc pc) = byteAdr pc + 4#32 := by
  apply BitVec.eq_of_toNat_eq
  have h := pc.isLt
  rw [byteAdr, byteAdr, BitVec.toNat_add, BitVec.toNat_append, BitVec.toNat_append, T5Ctrl.npc,
    BitVec.toNat_add]
  simp only [BitVec.toNat_ofNat, Nat.shiftLeft_eq, Nat.zero_mod, Nat.or_zero]
  omega

theorem low_byteAdr_add (pc : BitVec 30) (y : BitVec 32) :
    (byteAdr pc + y).extractLsb 1 0 = y.extractLsb 1 0 := by
  have h : (byteAdr pc).extractLsb' 0 2 = 0#2 := BitVec.extractLsb'_append_eq_right
  rw [BitVec.extractLsb, BitVec.extractLsb'_add (by omega)]
  exact (congrArg (· + y.extractLsb' 0 2) h).trans (BitVec.zero_add _)

/-- Dropping the two low bits of an address clears them.  Bit 1 has to be clear
already, bit 0 is the one that `jalr` clears. -/
theorem byteAdr_extractLsb {x : BitVec 32} (h : x.getLsbD 1 = false) :
    byteAdr (x.extractLsb 31 2) = x &&& ~~~ 1#32 := by
  refine BitVec.eq_of_getLsbD_eq (fun i hi => ?_)
  rw [byteAdr, BitVec.getLsbD_append]
  -- Only bit 1 needs the hypothesis.
  interval_cases i <;> simp
  exact h

theorem byteAdr_extractLsb_of_low {x : BitVec 32} (h : x.extractLsb 1 0 = 0#2) :
    byteAdr (x.extractLsb 31 2) = x :=
  Word.extractLsb'_append_zero x h

/-! ## The result multiplexer -/

section Result

variable {X : DontCare} {x : Execute}

theorem value_of_ne_load (h : x.xopc ≠ 0#5) (csr : Csr) (dti : BitVec 32)
    (m : T5Data) (xpc : BitVec 30) (xrd : BitVec 5) :
    (outcome X csr dti x m xpc xrd).value = T5Aslu.maluNext X x xpc := by
  simp only [outcome, T5Back.dmux, if_neg h]

theorem maluNext_lui (h : x.xopc = 0b01101#5) (xpc : BitVec 30) :
    T5Aslu.maluNext X x xpc = x.xmov := by
  unfold T5Aslu.maluNext
  rw [h]
  rfl

theorem maluNext_auipc (h : x.xopc = 0b00101#5) (xpc : BitVec 30) :
    T5Aslu.maluNext X x xpc = byteAdr x.xbpc := by
  unfold T5Aslu.maluNext
  rw [h]
  rfl

theorem maluNext_jump (h : x.xopc = 0b11011#5 ∨ x.xopc = 0b11001#5)
    (xpc : BitVec 30) : T5Aslu.maluNext X x xpc = byteAdr xpc := by
  unfold T5Aslu.maluNext
  rcases h with h | h <;> rw [h] <;> rfl

theorem maluNext_alu (h : x.xopc = 0b00100#5 ∨ x.xopc = 0b01100#5)
    (xpc : BitVec 30) : T5Aslu.maluNext X x xpc = x.xalu := by
  unfold T5Aslu.maluNext
  rcases h with h | h <;> rw [h] <;> rfl

theorem maluNext_csr (h : x.xopc = 0b11100#5) (xpc : BitVec 30) :
    T5Aslu.maluNext X x xpc = x.xcsr := by
  unfold T5Aslu.maluNext
  rw [h]
  rfl

end Result

end Tra5
