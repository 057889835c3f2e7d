/-
Isolation of a hart.

Two runs of the core that deliver the same words and the same load data to one
hart are compared, edge by edge.  The other harts may fetch anything.  `Agree`
says what the two pipelines have in common at each stage of the hart's
instruction, and `Agree.advance` that an edge preserves it.

The one thing the other harts can spoil is the PC behind the instruction.  The PC
pipeline is clocked by `rv32` of the word being decoded, so while the hart's
instruction is in the decode slot a word of the hart behind it that does not end
in `11` keeps `xpc` at the value of an earlier instruction.  A jump that writes no
link register does not read `xpc`.

Hart 2 executes one word more than it fetches, the one on the bus at the first
edge after the reset.
-/
import Tra5.Hart.Sequential
import Tra5.Hart.Start
import Tra5.Isa.Decode

namespace Tra5

open Rv32

/-! ## The rotation -/

namespace T5Inst

theorem whart_injective {h k : BitVec 2} (e : whart h = whart k) : h = k := by
  rw [← whart_four h, ← whart_four k, e]

theorem whart_eq_iff {h k : BitVec 2} : whart h = k ↔ h = whart (whart (whart k)) := by
  constructor
  · intro e
    rw [← e, whart_four]
  · intro e
    rw [e, whart_four]

end T5Inst

theorem nextAdr_of_quiet {xbra xstb : BitVec 2} (hb : xbra.getLsbD 0 = false)
    (hs : andR xstb = false) (mtvec mepc : BitVec 32) (xbpc xpc : BitVec 30) :
    T5Inst.nextAdr xbra xstb mtvec mepc xbpc xpc = if xbra.getLsbD 1 then xbpc else xpc := by
  have hpair : xbra = BitVec.ofBool (xbra.getLsbD 1) ++ BitVec.ofBool false := by
    rw [← hb]
    revert xbra
    decide
  rw [hpair]
  cases xbra.getLsbD 1 with
  | false => exact nextAdr_of_straight hs mtvec mepc xbpc xpc
  | true => exact nextAdr_of_jump hs mtvec mepc xbpc xpc

/-! ## Agreement of two pipelines -/

/-- The opcodes for which the result multiplexer takes the PC behind the
instruction. -/
def links (opc : BitVec 5) : Bool :=
  opc.getLsbD 4 && opc.getLsbD 3 && !opc.getLsbD 2 && opc.getLsbD 0

/-- The instruction in the decode slot needs the PC behind it, to go on there or
as its result. -/
def Pipe.needsDpc (p : Pipe) : Bool :=
  !T5Aslu.wbra p.ctrl.toDecode || (links p.ctrl.dopc && orR p.back.drd)

/-- The same of the instruction in the execute slot. -/
def Pipe.needsXpc (p : Pipe) : Bool :=
  !p.aslu.xbra.getLsbD 1 || (links p.aslu.xopc && orR p.back.xrd)

theorem maluNext_of_not_links {x : Execute} (h : links x.xopc = false) (X : DontCare)
    (xpc xpc' : BitVec 30) : T5Aslu.maluNext X x xpc = T5Aslu.maluNext X x xpc' := by
  unfold links at h
  unfold T5Aslu.maluNext
  revert h
  cases x.xopc.getLsbD 4 <;> cases x.xopc.getLsbD 3 <;> cases x.xopc.getLsbD 2 <;>
    cases x.xopc.getLsbD 0 <;> simp

/-- The decode slots hold instructions that do the same and raise no trap. -/
structure SameDecode (X : DontCare) (p q : Pipe) : Prop where
  execute : (T5Aslu.execute X p.inst.dhart p.aslu.toCsr p.ctrl.toDecode).forgetCsr =
    (T5Aslu.execute X q.inst.dhart q.aslu.toCsr q.ctrl.toDecode).forgetCsr
  data : T5Data.advance p.ctrl.toDecode = T5Data.advance q.ctrl.toDecode
  dpc : p.ctrl.dpc = q.ctrl.dpc
  drd : p.back.drd = q.back.drd
  calm : Calm p.ctrl.toDecode
  csr : readsCsr p.ctrl.dopc = false

/-- The execute slots hold the same instruction, one that raises no trap.  The
values read from the CSRs may differ, but they are not used, and so may the PC
behind the instruction where it is not. -/
structure SameExecute (p q : Pipe) : Prop where
  execute : p.aslu.toExecute.forgetCsr = q.aslu.toExecute.forgetCsr
  data : p.data = q.data
  xpc : p.needsXpc = true → p.ctrl.xpc = q.ctrl.xpc
  xrd : p.back.xrd = q.back.xrd
  bra : p.aslu.xbra.getLsbD 0 = false
  stb : andR p.data.xstb = false
  csr : readsCsr p.aslu.xopc = false

/-- The two pipelines agree on the hart `h`: on its bank, and on its instruction
in whichever slot it is.  The word on the bus answers the fetch of the hart in
`fhart`, except at the first edge after a reset. -/
structure Agree (X : DontCare) (h : BitVec 2) (p q : Pipe) : Prop where
  hart : p.inst.hart = q.inst.hart
  bank : p.gprf.bank h = q.gprf.bank h
  address : p.inst.hart = h → p.inst.iwbAdr = q.inst.iwbAdr
  fetch : p.inst.hart = T5Inst.whart h →
    p.inst.fpc = q.inst.fpc ∧ p.gprf.bank p.inst.fhart = q.gprf.bank p.inst.fhart
  reset : p.inst.hart ≠ T5Inst.whart p.inst.fhart →
    p.ctrl = T5Ctrl.reset ∧ q.ctrl = T5Ctrl.reset
  decode : p.inst.hart = T5Inst.whart (T5Inst.whart h) → SameDecode X p q
  execute : p.inst.hart = T5Inst.whart (T5Inst.whart (T5Inst.whart h)) → SameExecute p q

variable {X : DontCare} {p q : Pipe} {k l : Sample}

namespace SameExecute

theorem next_eq (h : SameExecute p q) : (p.outcome X k).next = (q.outcome X l).next := by
  obtain ⟨-, -, hbra, hbpc, -⟩ := Execute.eq_of_forgetCsr h.execute
  show T5Inst.nextAdr p.aslu.xbra p.data.xstb _ _ p.aslu.xbpc p.ctrl.xpc =
    T5Inst.nextAdr q.aslu.xbra q.data.xstb _ _ q.aslu.xbpc q.ctrl.xpc
  rw [← hbra, ← h.data, ← hbpc, nextAdr_of_quiet h.bra h.stb, nextAdr_of_quiet h.bra h.stb]
  cases hj : p.aslu.xbra.getLsbD 1 with
  | true => rfl
  | false =>
    have hneeds : p.needsXpc = true := by
      rw [Pipe.needsXpc, hj]
      rfl
    exact h.xpc hneeds

theorem request_eq (h : SameExecute p q) : (p.outcome X k).request = (q.outcome X l).request := by
  obtain ⟨-, -, -, hbpc, hdat⟩ := Execute.eq_of_forgetCsr h.execute
  simp only [Pipe.outcome, outcome, hbpc, hdat, h.data]

theorem maluNext_eq (h : SameExecute p q) (hrd : orR p.back.xrd = true) :
    T5Aslu.maluNext X p.aslu.toExecute p.ctrl.xpc =
      T5Aslu.maluNext X q.aslu.toExecute q.ctrl.xpc := by
  obtain ⟨hopc, -⟩ := Execute.eq_of_forgetCsr h.execute
  have hpc : T5Aslu.maluNext X q.aslu.toExecute p.ctrl.xpc =
      T5Aslu.maluNext X q.aslu.toExecute q.ctrl.xpc := by
    cases hl : links p.aslu.xopc with
    | true =>
      have hneeds : p.needsXpc = true := by
        rw [Pipe.needsXpc, hl, hrd]
        exact Bool.or_true _
      rw [h.xpc hneeds]
    | false => exact maluNext_of_not_links (hopc ▸ hl) X _ _
  rw [← hpc, ← maluNext_forgetCsr h.csr, h.execute]
  exact maluNext_forgetCsr (by rw [← hopc]; exact h.csr) X _

/-- The two instructions write the same to their bank. -/
theorem write_eq (h : SameExecute p q) (hd : p.aslu.xopc = 0#5 → k.dwbDti = l.dwbDti)
    (b : Bank) :
    b.write (p.outcome X k).wre (p.outcome X k).rd (p.outcome X k).value =
      b.write (q.outcome X l).wre (q.outcome X l).rd (q.outcome X l).value := by
  obtain ⟨hopc, hfn3, -⟩ := Execute.eq_of_forgetCsr h.execute
  have hwre : (q.outcome X l).wre = (p.outcome X k).wre := by
    show T5Back.writes q.data.xstb q.back.xrd q.aslu.xopc = T5Back.writes _ _ _
    rw [← h.data, ← h.xrd, ← hopc]
  have hrd : (q.outcome X l).rd = (p.outcome X k).rd := h.xrd.symm
  rw [hwre, hrd]
  cases hw : orR p.back.xrd with
  | false =>
    -- Without a destination nothing is written, and the values need not agree.
    have hoff : (p.outcome X k).wre = false := by
      show T5Back.writes p.data.xstb p.back.xrd p.aslu.xopc = false
      rw [T5Back.writes, hw, Bool.and_false, Bool.false_and, Bool.false_and]
    rw [hoff]
    rfl
  | true =>
    have hvalue : (p.outcome X k).value = (q.outcome X l).value := by
      show T5Back.dmux p.aslu.xopc (T5Back.extend X p.data.xsel p.aslu.xfn3 k.dwbDti) _ =
        T5Back.dmux q.aslu.xopc (T5Back.extend X q.data.xsel q.aslu.xfn3 l.dwbDti) _
      rw [h.maluNext_eq hw, ← hopc, ← hfn3, ← h.data, T5Back.dmux, T5Back.dmux]
      by_cases h0 : p.aslu.xopc = 0#5
      · rw [hd h0]
      · rw [if_neg h0, if_neg h0]
    rw [hvalue]

end SameExecute

/-! ## One edge -/

/-- The PC pipeline moves, or has nothing to move. -/
def PcShifts (p : Pipe) (k : Sample) : Prop :=
  T5Ctrl.rv32 k.iwbDat = true ∨ p.ctrl.xpc = p.ctrl.dpc

/-- The PC pipelines move, or stand still with the same PC. -/
def PcsMatch (p : Pipe) (k : Sample) (q : Pipe) (l : Sample) : Prop :=
  (PcShifts p k ∧ PcShifts q l) ∨
    (T5Ctrl.rv32 k.iwbDat = false ∧ T5Ctrl.rv32 l.iwbDat = false ∧ p.ctrl.xpc = q.ctrl.xpc)

theorem xpc_advance (h : PcShifts p k) : (p.advance X k).ctrl.xpc = p.ctrl.dpc := by
  show (T5Ctrl.advance X _ _ _ _ p.ctrl).xpc = p.ctrl.dpc
  rw [T5Ctrl.advance]
  by_cases hr : T5Ctrl.rv32 k.iwbDat = true
  · rw [if_pos hr]
  · rw [if_neg hr]
    exact h.resolve_left hr

theorem PcsMatch.xpc_advance (h : PcsMatch p k q l) (hd : p.ctrl.dpc = q.ctrl.dpc) :
    (p.advance X k).ctrl.xpc = (q.advance X l).ctrl.xpc := by
  rcases h with ⟨hp, hq⟩ | ⟨hk, hl, hx⟩
  · rw [Tra5.xpc_advance hp, Tra5.xpc_advance hq, hd]
  · rw [(p.advance_ctrl_of_not_rv32 X hk).2.2.2.2.1, (q.advance_ctrl_of_not_rv32 X hl).2.2.2.2.1,
      hx]

theorem SameDecode.advance (h : SameDecode X p q) (hpc : p.needsDpc = true → PcsMatch p k q l) :
    SameExecute (p.advance X k) (q.advance X l) where
  execute := h.execute
  data := h.data
  xpc := by
    have hneeds : (p.advance X k).needsXpc = p.needsDpc := by
      show (!(T5Aslu.xbraNext p.ctrl.toDecode).getLsbD 1 || _) = _
      rw [h.calm.xbra, getLsbD_one_pair]
      rfl
    intro hx
    exact (hpc (hneeds ▸ hx)).xpc_advance h.dpc
  xrd := h.drd
  bra := by
    show (T5Aslu.xbraNext p.ctrl.toDecode).getLsbD 0 = false
    rw [h.calm.xbra, getLsbD_zero_pair]
  stb := h.calm.andR_xstb
  csr := h.csr

theorem sameDecode_advance (hfpc : p.inst.fpc = q.inst.fpc)
    (hbank : p.gprf.bank p.inst.fhart = q.gprf.bank p.inst.fhart) (hw : k.iwbDat = l.iwbDat)
    (ho : p.FetchOrdinary k.iwbDat) : SameDecode X (p.advance X k) (q.advance X l) := by
  obtain ⟨i, henc, hi, ht⟩ := ho
  have hrv := rv32_of_encodes henc
  have hfh : q.inst.fhart = p.inst.fhart := by rw [T5Inst.fhart, T5Inst.fhart, hfpc]
  have hpc : q.fetchPc = p.fetchPc := by rw [Pipe.fetchPc, Pipe.fetchPc, hfpc]
  have h1 : q.rs1d k.iwbDat = p.rs1d k.iwbDat := by
    rw [Pipe.rs1d, hfh]
    exact congrFun (congrArg Bank.rs1 hbank.symm) _
  have h2 : q.rs2d k.iwbDat = p.rs2d k.iwbDat := by
    rw [Pipe.rs2d, hfh]
    exact congrFun (congrArg Bank.rs2 hbank.symm) _
  have hp := p.advance_ctrl_of_rv32 X hrv
  have hq := q.advance_ctrl_of_rv32 X (hw ▸ hrv : T5Ctrl.rv32 l.iwbDat = true)
  rw [← hw, h1, h2, hpc] at hq
  have hcalm := calm_of_ordinary X henc hi ht
  refine ⟨?_, ?_, ?_, congrArg (BitVec.extractLsb 11 7) hw, ?_, ?_⟩
  · rw [hp, hq]
    exact hcalm.forgetCsr_execute X _ _ _ _
  · rw [hp, hq]
  · rw [hp, hq]
  · rw [hp]
    exact hcalm
  · rw [hp]
    exact readsCsr_of_not_system henc hi

/-! ## The word before the first fetch -/

/-- The `lui` of the reset with the flags of another word.  It does not read
them. -/
def bubble (dcsr dsub dbra djmp : Bool) : T5Ctrl :=
  { T5Ctrl.reset with dcsr := dcsr, dsub := dsub, dbra := dbra, djmp := djmp }

theorem calm_bubble (a b c d : Bool) : Calm (bubble a b c d).toDecode :=
  ⟨rfl, by revert a b c d; decide, by revert a b c d; decide⟩

theorem xadd_bubble (a b c d : Bool) : T5Aslu.xadd (bubble a b c d).toDecode = 0#33 := by
  revert a b c d
  decide

theorem xbraNext_bubble (a b c d : Bool) : T5Aslu.xbraNext (bubble a b c d).toDecode = 0#2 := by
  revert a b c d
  decide

theorem xdatNext_bubble (X : DontCare) (a b c d : Bool) :
    T5Aslu.xdatNext X (bubble a b c d).toDecode = 0#32 := by
  show BitVec.replicate 4 ((T5Aslu.xadd (bubble a b c d).toDecode).extractLsb 7 0) = 0#32
  rw [xadd_bubble]
  decide

theorem result_bubble (X : DontCare) (a b c d : Bool) :
    T5Aslu.result X (bubble a b c d).toDecode = 0#32 := by
  show (T5Aslu.xadd (bubble a b c d).toDecode).extractLsb 31 0 = 0#32
  rw [xadd_bubble]
  decide

theorem forgetCsr_execute_bubble (X : DontCare) (dhart : BitVec 2) (csr : Csr) (a b c d : Bool) :
    (T5Aslu.execute X dhart csr (bubble a b c d).toDecode).forgetCsr =
      T5Aslu.reset.toExecute := by
  have hbpc : T5Aslu.xbpcNext csr (bubble a b c d).toDecode = 0#30 := by
    rw [(calm_bubble a b c d).xbpc]
    exact (by decide : (0#32 + 0#32).extractLsb 31 2 = 0#30)
  rw [T5Aslu.execute, Execute.forgetCsr, xbraNext_bubble, hbpc, xdatNext_bubble, result_bubble,
    xadd_bubble, Execute.mk.injEq]
  have hmov : (0#33).extractLsb 31 0 = 0#32 := by decide
  refine ⟨rfl, rfl, rfl, rfl, rfl, rfl, hmov, rfl, ?_, rfl⟩
  show (if d then BitVec.ofBool ((0#32 + 0#32).getLsbD 1) ++ 0#1
    else (0#32 + 0#32).extractLsb 1 0) = 0#2
  cases d <;> decide

theorem advance_ctrl_of_hollow (hp : p.ctrl = T5Ctrl.reset) (hk : Pipe.Hollow k.iwbDat) :
    ∃ a b c d, (p.advance X k).ctrl = bubble a b c d := by
  let d := T5Ctrl.decode X p.fetchPc k.iwbDat (p.rs1d k.iwbDat) (p.rs2d k.iwbDat)
  have hctrl : (p.advance X k).ctrl =
      { bubble d.dcsr d.dsub d.dbra d.djmp with dexc := d.dexc } := by
    show T5Ctrl.advance X p.fetchPc k.iwbDat _ _ p.ctrl = _
    rw [T5Ctrl.advance, if_neg (by rw [hk.rv32]; exact Bool.false_ne_true), hp]
    rfl
  have hexc : d.dexc = false := hk.etype
  rw [hctrl, hexc]
  exact ⟨_, _, _, _, rfl⟩

theorem sameDecode_of_hollow (hp : p.ctrl = T5Ctrl.reset) (hq : q.ctrl = T5Ctrl.reset)
    (hk : Pipe.Hollow k.iwbDat) (hl : Pipe.Hollow l.iwbDat)
    (hrd : k.iwbDat.extractLsb 11 7 = l.iwbDat.extractLsb 11 7) :
    SameDecode X (p.advance X k) (q.advance X l) := by
  obtain ⟨a, b, c, d, hpc⟩ := advance_ctrl_of_hollow (X := X) hp hk
  obtain ⟨a', b', c', d', hqc⟩ := advance_ctrl_of_hollow (X := X) hq hl
  refine ⟨?_, ?_, ?_, hrd, ?_, ?_⟩
  · rw [hpc, hqc, forgetCsr_execute_bubble, forgetCsr_execute_bubble]
  · rw [hpc, hqc]
    rfl
  · rw [hpc, hqc]
    rfl
  · rw [hpc]
    exact calm_bubble a b c d
  · rw [hpc]
    exact (by decide : readsCsr 0x0D#5 = false)

/-- Two words that nobody fetched, but that have the same effect in their slot. -/
inductive SameUnfetched (p : Pipe) (k l : BitVec 32) : Prop
  | ordinary (h : k = l) (ho : p.FetchOrdinary k)
  | hollow (hk : Pipe.Hollow k) (hl : Pipe.Hollow l)
    (hrd : k.extractLsb 11 7 = l.extractLsb 11 7)

/-- The edge delivers the same word and the same load data to the hart `h`, the
word is ordinary, and the PCs match while its instruction is in the decode slot,
if they are needed. -/
structure Delivers (h : BitVec 2) (p : Pipe) (k : Sample) (q : Pipe) (l : Sample) : Prop where
  word : p.inst.hart = T5Inst.whart h → p.inst.fhart = h →
    k.iwbDat = l.iwbDat ∧ p.FetchOrdinary k.iwbDat
  start : p.inst.hart = T5Inst.whart h → p.inst.fhart ≠ h → SameUnfetched p k.iwbDat l.iwbDat
  data : T5Inst.whart p.inst.hart = h → p.aslu.xopc = 0#5 → k.dwbDti = l.dwbDti
  pcs : p.inst.hart = T5Inst.whart (T5Inst.whart h) → p.needsDpc = true → PcsMatch p k q l

theorem Agree.sameDecode {h : BitVec 2} (ha : Agree X h p q) (hd : Delivers h p k q l)
    (hh : p.inst.hart = T5Inst.whart h) : SameDecode X (p.advance X k) (q.advance X l) := by
  obtain ⟨hfpc, hb⟩ := ha.fetch hh
  by_cases hf : p.inst.fhart = h
  · obtain ⟨hw, ho⟩ := hd.word hh hf
    exact sameDecode_advance hfpc hb hw ho
  · have hne : p.inst.hart ≠ T5Inst.whart p.inst.fhart := by
      intro e
      exact hf (T5Inst.whart_injective (e.symm.trans hh))
    cases hd.start hh hf with
    | ordinary hw ho => exact sameDecode_advance hfpc hb hw ho
    | hollow hk hl hrd =>
      exact sameDecode_of_hollow (ha.reset hne).1 (ha.reset hne).2 hk hl hrd

theorem Agree.advance {h : BitVec 2} (ha : Agree X h p q) (hd : Delivers h p k q l) :
    Agree X h (p.advance X k) (q.advance X l) := by
  have hexec (hx : T5Inst.whart p.inst.hart = h) : SameExecute p q :=
    ha.execute (T5Inst.whart_eq_iff.mp hx)
  have hbank : (p.advance X k).gprf.bank h = (q.advance X l).gprf.bank h := by
    by_cases hx : T5Inst.whart p.inst.hart = h
    · rw [Pipe.advance_gprf, Pipe.advance_gprf, ← ha.hart, hx, T5Gprf.bank_step_self,
        T5Gprf.bank_step_self, ha.bank, (hexec hx).write_eq (hd.data hx)]
    · rw [p.advance_bank_of_ne X k (Ne.symm hx),
        q.advance_bank_of_ne X l (ha.hart ▸ Ne.symm hx), ha.bank]
  refine ⟨congrArg T5Inst.whart ha.hart, hbank, fun hx => ?_, fun hx => ?_, fun hx => ?_,
    fun hx => ?_, fun hx => ?_⟩
  · rw [Pipe.advance_iwbAdr, Pipe.advance_iwbAdr, (hexec hx).next_eq]
  · have hh : p.inst.hart = h := T5Inst.whart_injective hx
    refine ⟨?_, ?_⟩
    · show p.inst.iwbAdr ++ p.inst.hart = q.inst.iwbAdr ++ q.inst.hart
      rw [ha.address hh, ha.hart]
    · rw [Pipe.advance_fhart, hh, hbank]
  · exact absurd (by rw [Pipe.advance_hart, Pipe.advance_fhart]) hx
  · exact ha.sameDecode hd (T5Inst.whart_injective hx)
  · have hh : p.inst.hart = T5Inst.whart (T5Inst.whart h) := T5Inst.whart_injective hx
    exact (ha.decode hh).advance (hd.pcs hh)

/-! ## Whole runs -/

theorem agree_of_postReset {c : T5Rv32i} (hc : PostReset X c) (h : BitVec 2) :
    Agree X h c.pipe c.pipe := by
  have hctrl : c.pipe.ctrl = T5Ctrl.reset := hc.flushed.ctrl
  have haslu : c.pipe.aslu = T5Aslu.reset := hc.flushed.aslu
  have hdata : c.pipe.data = T5Data.reset := hc.flushed.data
  refine ⟨rfl, rfl, fun _ => rfl, fun _ => ⟨rfl, rfl⟩, fun _ => ⟨hctrl, hctrl⟩,
    fun _ => ⟨rfl, rfl, rfl, rfl, ?_, ?_⟩, fun _ => ⟨rfl, rfl, fun _ => rfl, rfl, ?_, ?_, ?_⟩⟩
  · rw [hctrl]
    exact calm_bubble false false false false
  · rw [hctrl]
    decide
  · rw [haslu]
    decide
  · rw [hdata]
    decide
  · rw [haslu]
    decide

namespace T5Rv32i

/-- The word on the bus is one that the hart `h` has fetched. -/
def Fetched (s : T5Rv32i) (h : BitVec 2) : Prop :=
  s.inst.hart = T5Inst.whart h ∧ s.inst.fhart = h

/-- The word on the bus will be executed for the hart `h`, which has not fetched
it. -/
def Unfetched (s : T5Rv32i) (h : BitVec 2) : Prop :=
  s.inst.hart = T5Inst.whart h ∧ s.inst.fhart ≠ h

end T5Rv32i

structure SameDelivery (h : BitVec 2) (s : T5Rv32i) (i : Input) (t : T5Rv32i) (j : Input) :
    Prop where
  word : s.Fetched h → i.iwbDat = j.iwbDat
  data : T5Inst.whart s.inst.hart = h → s.aslu.xopc = 0#5 → i.dwbDti = j.dwbDti

/-- The words that the hart `h` fetches are ordinary. -/
def HartOrdinary (X : DontCare) (h : BitVec 2) (c : T5Rv32i) (is : List Input) : Prop :=
  (machine X).AtEdges c is (fun s i => s.Fetched h → s.FetchOrdinary i.iwbDat)

/-- What the core does to the hart `h` besides executing what it has fetched is
the same in both runs. -/
structure Undisturbed (h : BitVec 2) (s : T5Rv32i) (i : Input) (t : T5Rv32i) (j : Input) :
    Prop where
  -- Only at the first edge after the reset, and only for hart 2.
  start : s.Unfetched h → (i.iwbDat = j.iwbDat ∧ s.FetchOrdinary i.iwbDat) ∨
    (Pipe.Hollow i.iwbDat ∧ Pipe.Hollow j.iwbDat ∧
      i.iwbDat.extractLsb 11 7 = j.iwbDat.extractLsb 11 7)
  -- Here the words on the bus are those of the hart behind `h`.
  pcs : s.inst.hart = T5Inst.whart (T5Inst.whart h) → s.pipe.needsDpc = true →
    PcsMatch s.pipe i.sample t.pipe j.sample

/-! The conditions are decidable at a given edge. -/

theorem ordinary_iff {pc : BitVec 30} {w a b : BitVec 32} :
    Ordinary pc w a b ↔
      (decode w).any (fun i => !i.isSystem && !i.traps (byteAdr pc) a b) = true := by
  rw [Option.any_eq_true]
  simp only [Ordinary, decode_eq_some_iff, Bool.and_eq_true, Bool.not_eq_true']

instance (s : T5Rv32i) (w : BitVec 32) : Decidable (s.FetchOrdinary w) :=
  decidable_of_iff _ ordinary_iff.symm

instance (s : T5Rv32i) (h : BitVec 2) : Decidable (s.Fetched h) :=
  inferInstanceAs (Decidable (_ ∧ _))

instance (s : T5Rv32i) (h : BitVec 2) : Decidable (s.Unfetched h) :=
  inferInstanceAs (Decidable (_ ∧ _))

instance (p : Pipe) (k : Sample) (q : Pipe) (l : Sample) : Decidable (PcsMatch p k q l) := by
  delta PcsMatch PcShifts
  infer_instance

instance (w : BitVec 32) : Decidable (Pipe.Hollow w) :=
  decidable_of_iff (T5Ctrl.rv32 w = false ∧ T5Ctrl.etype (T5Ctrl.opc w) w = false)
    ⟨fun h => ⟨h.1, h.2⟩, fun h => ⟨h.rv32, h.etype⟩⟩

instance (h : BitVec 2) (s : T5Rv32i) (i : Input) (t : T5Rv32i) (j : Input) :
    Decidable (SameDelivery h s i t j) :=
  decidable_of_iff ((s.Fetched h → i.iwbDat = j.iwbDat) ∧
    (T5Inst.whart s.inst.hart = h → s.aslu.xopc = 0#5 → i.dwbDti = j.dwbDti))
    ⟨fun h => ⟨h.1, h.2⟩, fun h => ⟨h.word, h.data⟩⟩

instance (h : BitVec 2) (s : T5Rv32i) (i : Input) (t : T5Rv32i) (j : Input) :
    Decidable (Undisturbed h s i t j) :=
  decidable_of_iff ((s.Unfetched h → (i.iwbDat = j.iwbDat ∧ s.FetchOrdinary i.iwbDat) ∨
      (Pipe.Hollow i.iwbDat ∧ Pipe.Hollow j.iwbDat ∧
        i.iwbDat.extractLsb 11 7 = j.iwbDat.extractLsb 11 7)) ∧
    (s.inst.hart = T5Inst.whart (T5Inst.whart h) → s.pipe.needsDpc = true →
      PcsMatch s.pipe i.sample t.pipe j.sample))
    ⟨fun h => ⟨h.1, h.2⟩, fun h => ⟨h.start, h.pcs⟩⟩

/-- Two runs from one state after reset that deliver the same words and the same
load data to the hart `h`, words that are not SYSTEM and do not trap, give it the
same fetch addresses, the same registers and the same requests, provided the
words decoded right behind its own end in `11` or the PC they would stop is not
needed, and hart 2 is given the same start. -/
theorem hart_isolated (X : DontCare) (h : BitVec 2) {c : T5Rv32i} (hc : PostReset X c)
    {is js : List Input} (his : ∀ i ∈ is, i.sysRst = false) (hjs : ∀ j ∈ js, j.sysRst = false)
    (hlen : ((machine X).edges c is).length = ((machine X).edges c js).length)
    (hsame : (machine X).Lockstep c c is js (SameDelivery h)) (hord : HartOrdinary X h c is)
    (hundisturbed : (machine X).Lockstep c c is js (Undisturbed h)) :
    let s := (machine X).run c is
    let t := (machine X).run c js
    s.inst.hart = t.inst.hart ∧ s.commit.bank h = t.commit.bank h ∧
      (s.inst.hart = h → s.iwbAdr = t.iwbAdr) ∧
      (T5Inst.whart s.inst.hart = h → s.request = t.request) := by
  intro s t
  have hagree : Agree X h s.pipe t.pipe := by
    refine (stallFree X).rel_run (P := fun s i t j => SameDelivery h s i t j ∧
      (s.Fetched h → s.FetchOrdinary i.iwbDat) ∧ Undisturbed h s i t j)
      hc.running hc.running (agree_of_postReset hc h) ?_ his hjs hlen ?_
    · rintro s i t j hs - - - hadv - ⟨hd, ho, hu⟩ ha
      refine ha.advance ⟨fun hh hf => ?_, fun hh hf => ?_, hd.data, hu.pcs⟩
      · exact ⟨hd.word ⟨hh, hf⟩, T5Rv32i.fetchOrdinary_pipe hs hadv (ho ⟨hh, hf⟩)⟩
      · rcases hu.start ⟨hh, hf⟩ with ⟨hw, ho⟩ | ⟨hi, hj, hrd⟩
        · exact .ordinary hw (T5Rv32i.fetchOrdinary_pipe hs hadv ho)
        · exact .hollow hi hj hrd
    · intro as i bs cs j ds hsplit hsplit' hcount ha hb
      exact ⟨hsame as i bs cs j ds hsplit hsplit' hcount ha hb, hord as i bs hsplit ha,
        hundisturbed as i bs cs j ds hsplit hsplit' hcount ha hb⟩
  refine ⟨hagree.hart, hagree.bank, hagree.address, fun hh => ?_⟩
  have hx := hagree.execute (T5Inst.whart_eq_iff.mp hh)
  exact hx.request_eq (X := X) (k := default) (l := default)

/-- Hart 0 jumps to address 8 and stores there, and in both runs alike, although
harts 1 and 3 fetch other words in the second.  One of these does not even end in
`11`, but it is behind the jump. -/
theorem hart_isolated_other_words :
    let c := coldStart default
    let go := Input.fetch nop
    let other := Input.fetch 0x00100093#32
    let jump := Input.fetch 0x0080006F#32
    let store := Input.fetch 0x00002423#32
    let is := [go, Input.fetch 0#32, jump, go, go, go, store, go]
    let js := [go, Input.fetch 0#32, jump, Input.fetch 0#32, other, go, store, other]
    let s := (machine default).run c is
    let t := (machine default).run c js
    s.commit.bank 0#2 = t.commit.bank 0#2 ∧ s.request = t.request ∧
      s.request = { adr := 2#30, dto := 0#32, sel := 0xF#4, wre := true, stb := true } ∧
      ((machine default).run c (is.take 5)).iwbAdr = ((machine default).run c (js.take 5)).iwbAdr ∧
      ((machine default).run c (is.take 5)).iwbAdr = 2#30 := by
  intro c go other jump store is js s t
  have his : ∀ i ∈ is, i.sysRst = false := by decide
  have hjs : ∀ j ∈ js, j.sysRst = false := by decide
  have h (n : Nat) (hn : n = 5 ∨ n = 8) := hart_isolated default 0#2 (postReset_coldStart default)
    (fun i hi => his i (List.mem_of_mem_take (i := n) hi))
    (fun j hj => hjs j (List.mem_of_mem_take (i := n) hj))
    (by rcases hn with rfl | rfl <;> decide +kernel)
    (Clocked.Machine.Lockstep.of_index (by rcases hn with rfl | rfl <;> decide +kernel))
    (Clocked.Machine.AtEdges.of_index (by rcases hn with rfl | rfl <;> decide +kernel))
    (Clocked.Machine.Lockstep.of_index (by rcases hn with rfl | rfl <;> decide +kernel))
  have h5 := h 5 (Or.inl rfl)
  have h8 := h 8 (Or.inr rfl)
  exact ⟨h8.2.1, h8.2.2.2 (by decide +kernel), by decide +kernel, h5.2.2.1 (by decide +kernel),
    by decide +kernel⟩

/-- Hart 0 executes `addi x0, x0, 0` at address 0.  If the word of hart 1 that
follows does not end in `11`, hart 0 does not go on to the next address.  And hart
2 has another `x1` if `addi x1, x0, 5` is on the bus before the first fetch. -/
theorem hart_not_isolated :
    let c := coldStart default
    let go := Input.fetch nop
    let is := [go, Input.fetch 0#32, go, go, go]
    let js := [go, Input.fetch 0#32, go, Input.fetch 0#32, go]
    let ks := [go, Input.fetch 0x00500093#32, go, go, go]
    (((machine default).edges c is).length = ((machine default).edges c js).length ∧
      (machine default).Lockstep c c is js (SameDelivery 0#2) ∧ HartOrdinary default 0#2 c is ∧
      ((machine default).run c is).inst.hart = 0#2 ∧
      ((machine default).run c is).iwbAdr = 1#30 ∧ ((machine default).run c js).iwbAdr = 0#30) ∧
    ((machine default).edges c is).length = ((machine default).edges c ks).length ∧
      (machine default).Lockstep c c is ks (SameDelivery 2#2) ∧ HartOrdinary default 2#2 c is ∧
      ((machine default).run c is).commit.rs1d 2#2 1#5 = 0#32 ∧
      ((machine default).run c ks).commit.rs1d 2#2 1#5 = 5#32 := by
  intro c go is js ks
  refine ⟨⟨by decide +kernel, Clocked.Machine.Lockstep.of_index (by decide +kernel),
    Clocked.Machine.AtEdges.of_index (by decide +kernel), by decide +kernel, by decide +kernel,
    by decide +kernel⟩, by decide +kernel, Clocked.Machine.Lockstep.of_index (by decide +kernel),
    Clocked.Machine.AtEdges.of_index (by decide +kernel), by decide +kernel, by decide +kernel⟩

end Tra5
