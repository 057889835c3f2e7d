/-
CSR instructions as atomic updates.

`mscratch`, `medeleg` and `mtvec` are shared by the four harts.  Nothing but a CSR
instruction loads them, and one that names the register reads it and writes it at
one and the same edge, that at which it leaves the decode slot.  So the values of
the register are those of a sequence of updates in the order of these edges, and
each instruction hands the value before its update to its hart.

The operand comes from the hart's own bank but in one case: the word on the bus at
the first edge after a reset reads the bank of hart 0 and is executed for hart 2.
-/
import Tra5.Hart.Start
import Tra5.Trap.Status

namespace Tra5

open Rv32 T5Aslu

variable {X : DontCare}

/-! ## The shared registers -/

inductive SharedCsr where
  | mscratch
  | medeleg
  | mtvec
  deriving DecidableEq, Repr

namespace SharedCsr

def num : SharedCsr → BitVec 12
  | mscratch => csrMscratch
  | medeleg => csrMedeleg
  | mtvec => csrMtvec

def get (r : SharedCsr) (c : T5Rv32i) : BitVec 32 :=
  match r with
  | mscratch => c.aslu.mscratch
  | medeleg => c.aslu.medeleg
  | mtvec => c.aslu.mtvec

theorem rcsr_num (r : SharedCsr) (c : T5Rv32i) (dhart : BitVec 2) :
    rcsr c.aslu.toCsr dhart r.num = r.get c := by
  cases r <;> rfl

theorem get_of_aslu (r : SharedCsr) {c d : T5Rv32i} (h : c.aslu = d.aslu) : r.get c = r.get d := by
  cases r <;> simp only [get, h]

theorem get_of_postReset (r : SharedCsr) {c : T5Rv32i} (hc : PostReset X c) : r.get c = 0#32 := by
  cases r <;> rw [get, hc.flushed.aslu] <;> rfl

/-- The register once the word in the decode slot has left it. -/
def pending (X : DontCare) (r : SharedCsr) (c : T5Rv32i) : BitVec 32 :=
  if wenable c.ctrl.toDecode r.num then wcsr X c.ctrl.toDecode (r.get c) else r.get c

theorem get_step (r : SharedCsr) {c : T5Rv32i} {i : Input} (ha : c.advancing i = true) :
    r.get (c.step X i) = r.pending X c := by
  have hstep := T5Rv32i.toCsr_step X ha
  have hget : r.get (c.step X i) =
      if wenable c.ctrl.toDecode r.num then
        wcsr X c.ctrl.toDecode (rcsr c.aslu.toCsr c.inst.dhart (csrNum c.ctrl.toDecode))
      else r.get c := by
    cases r with
    | mscratch => exact congrArg Csr.mscratch hstep
    | medeleg => exact congrArg Csr.medeleg hstep
    | mtvec => exact congrArg Csr.mtvec hstep
  rw [hget, pending]
  cases hw : wenable c.ctrl.toDecode r.num with
  | false => rfl
  | true =>
    simp only [wenable, Bool.and_eq_true, beq_iff_eq] at hw
    rw [hw.1, rcsr_num]

theorem pending_of_slot (r : SharedCsr) {c : T5Rv32i} {op : CsrOp} {src : BitVec 32}
    (h : CsrSlot X c.ctrl.toDecode op r.num src) : r.pending X c = op.eval (r.get c) src := by
  rw [pending, h.wenable, beq_self_eq_true, if_pos rfl, h.wcsr]

end SharedCsr

/-! ## Updates -/

/-- The update of the register that the word decoded at an edge makes, if it is a CSR
instruction that names it.  The operand is the hart's own. -/
def csrUpdate (num : BitVec 12) (edge : T5Rv32i × Input) : Option (CsrOp × BitVec 32) :=
  let w := edge.2.iwbDat
  if csrNum w = num then
    (csrKind w).map (fun k =>
      (k.1, csrOperand k.2 (rs1 w) (edge.1.commit.rs1d edge.1.owner (rs1 w))))
  else none

/-- The updates of the register by the words decoded in a run, in their order. -/
def csrUpdates (X : DontCare) (num : BitVec 12) (c : T5Rv32i) (js : List Input) :
    List (CsrOp × BitVec 32) :=
  ((machine X).trace c js).filterMap (csrUpdate num)

theorem csrUpdate_of_encodes {s : T5Rv32i} {i : Input} {op : CsrOp} {isImm : Bool} {r q : BitVec 5}
    {num : BitVec 12} (hw : Encodes i.iwbDat (.csr op isImm r q num)) :
    csrUpdate num (s, i) = some (op, csrOperand isImm q (s.commit.rs1d s.owner q)) := by
  cases hw.format with
  | csr ho hf =>
    simp only [csrUpdate, if_pos, csrKind_eq_some_iff.mpr hw, Option.map_some]

theorem encodes_of_csrUpdate_eq_some {s : T5Rv32i} {i : Input} {num : BitVec 12}
    {u : CsrOp × BitVec 32} (h : csrUpdate num (s, i) = some u) :
    ∃ isImm, Encodes i.iwbDat (.csr u.1 isImm (rd i.iwbDat) (rs1 i.iwbDat) num) ∧
      u.2 = csrOperand isImm (rs1 i.iwbDat) (s.commit.rs1d s.owner (rs1 i.iwbDat)) := by
  rw [csrUpdate] at h
  by_cases hnum : csrNum i.iwbDat = num
  · rw [if_pos hnum, Option.map_eq_some_iff] at h
    obtain ⟨⟨op, isImm⟩, hkind, rfl⟩ := h
    rw [← hnum]
    exact ⟨isImm, csrKind_eq_some_iff.mp hkind, rfl⟩
  · rw [if_neg hnum] at h
    exact absurd h.symm (Option.some_ne_none u)

theorem wenable_of_csrUpdate_eq_none {pc : BitVec 30} {a b : BitVec 32} {s : T5Rv32i} {i : Input}
    {instr : Instr} (hw : Encodes i.iwbDat instr) {num : BitVec 12}
    (h : csrUpdate num (s, i) = none) :
    wenable (T5Ctrl.decode X pc i.iwbDat a b) num = false := by
  by_cases hcsr : ∃ op isImm r q n, instr = .csr op isImm r q n
  · obtain ⟨op, isImm, r, q, n, rfl⟩ := hcsr
    rw [(csrSlot_of_encodes X hw).wenable, beq_eq_false_iff_ne]
    rintro rfl
    rw [csrUpdate_of_encodes hw] at h
    exact Option.some_ne_none _ h
  · have hno : ∀ op isImm r q n, instr ≠ .csr op isImm r q n :=
      fun op isImm r q n he => hcsr ⟨op, isImm, r, q, n, he⟩
    rw [wenable, dcsr_of_not_csr hw hno, Bool.and_false]

/-! ## Operands -/

/-- The word reads its operand from the bank of its own hart, or does not read it. -/
def OwnOperand (num : BitVec 12) (s : T5Rv32i) (i : Input) : Prop :=
  ∀ op, csrKind i.iwbDat = some (op, false) → csrNum i.iwbDat = num →
    s.commit.rs1d s.inst.fhart (rs1 i.iwbDat) = s.commit.rs1d s.owner (rs1 i.iwbDat)

theorem InDecode.csrSlot_of_own {s d : T5Rv32i} {i : Input} {op : CsrOp} {isImm : Bool}
    {r q : BitVec 5} {num : BitVec 12} (hs : Reachable X s) (h : InDecode X s i d)
    (hown : OwnOperand num s i) (hw : Encodes i.iwbDat (.csr op isImm r q num)) :
    CsrSlot X d.ctrl.toDecode op num (csrOperand isImm q (s.commit.rs1d s.owner q)) := by
  have hslot := h.csrSlot hs hw
  rw [(operands_of_advancing hs.running h.advancing i.iwbDat).1] at hslot
  cases isImm with
  | true => exact hslot
  | false =>
    cases hw.format with
    | csr ho hf =>
      have hbank := hown op (csrKind_eq_some_iff.mpr hw) rfl
      rw [← hbank]
      exact hslot

theorem fhart_eq_owner {c : T5Rv32i} (hc : T5Rv32i.Running c) {js : List Input}
    (hjs : ∀ j ∈ js, j.sysRst = false) (hne : (machine X).edges c js ≠ []) :
    ((machine X).run c js).inst.fhart = ((machine X).run c js).owner := by
  obtain ⟨n, hn⟩ := Nat.exists_eq_succ_of_ne_zero (mt List.length_eq_zero_iff.mp hne)
  obtain ⟨as, j, bs, -, -, -, hlast⟩ := (stallFree X).exists_last_edge hc hjs hn
  have hpipe : ((machine X).run c js).pipe = ((machine X).run c as).pipe.advance X j.sample := hlast
  have hinst : ((machine X).run c js).inst = _ := congrArg Pipe.inst hpipe
  rw [T5Rv32i.owner, hinst]
  refine (Pipe.advance_fhart X _ j.sample).trans ?_
  exact (T5Inst.whart_four _).symm

/-- The word at the first edge of a run after a reset, if it is a CSR instruction that
names the register and takes its operand from a register, finds the same value there in
the banks of harts 0 and 2. -/
def FirstOperand (X : DontCare) (num : BitVec 12) (c : T5Rv32i) (js : List Input) : Prop :=
  ∀ as j bs op, js = as ++ j :: bs → (machine X).edges c as = [] →
    ((machine X).run c as).advancing j = true → csrKind j.iwbDat = some (op, false) →
    csrNum j.iwbDat = num → c.commit.rs1d 0#2 (rs1 j.iwbDat) = c.commit.rs1d 2#2 (rs1 j.iwbDat)

theorem FirstOperand.ownOperand {c : T5Rv32i} (hc : PostReset X c) {num : BitVec 12}
    {js : List Input} (h : FirstOperand X num c js) (hjs : ∀ j ∈ js, j.sysRst = false) :
    (machine X).AtEdges c js (OwnOperand num) := by
  intro as j bs he ha op hkind hnum
  have has : ∀ i ∈ as, i.sysRst = false :=
    fun i hi => hjs i (by rw [he]; exact List.mem_append_left _ hi)
  by_cases hedges : (machine X).edges c as = []
  · have hpipe := pipe_run_of_stalls hc.running has hedges
    have hinst : ((machine X).run c as).inst = T5Inst.reset :=
      (congrArg Pipe.inst hpipe).trans hc.inst
    have hcommit : ((machine X).run c as).commit = c.commit := congrArg Pipe.gprf hpipe
    rw [T5Rv32i.owner, hinst, hcommit]
    exact h as j bs op he hedges ha hkind hnum
  · rw [fhart_eq_owner hc.running has hedges]

/-! ## Runs -/

/-- What holds after the edges `t` of a run from a state after a reset. -/
structure Atomic (X : DontCare) (r : SharedCsr) (s : T5Rv32i) (t : List (T5Rv32i × Input)) :
    Prop where
  reachable : Reachable X s
  value : r.get s = CsrOp.evalAll 0#32 (t.dropLast.filterMap (csrUpdate r.num))
  pending : r.pending X s = CsrOp.evalAll 0#32 (t.filterMap (csrUpdate r.num))

theorem atomic_of_postReset {c : T5Rv32i} (hc : PostReset X c) (r : SharedCsr) :
    Atomic X r c [] := by
  refine ⟨hc.reachable, r.get_of_postReset hc, ?_⟩
  have hno : wenable T5Ctrl.reset.toDecode r.num = false := Bool.and_false _
  rw [SharedCsr.pending, hc.flushed.ctrl, hno]
  exact r.get_of_postReset hc

theorem Atomic.stall {s : T5Rv32i} {r : SharedCsr} {t : List (T5Rv32i × Input)}
    (h : Atomic X r s t) {i : Input} (hi : i.sysRst = false) (ha : s.advancing i = false) :
    Atomic X r (s.step X i) t := by
  have hpipe : (s.step X i).pipe = s.pipe :=
    (stallFree X).abs_stall s i h.reachable.running hi ha
  have haslu : (s.step X i).aslu = s.aslu := congrArg Pipe.aslu hpipe
  have hctrl : (s.step X i).ctrl = s.ctrl := congrArg Pipe.ctrl hpipe
  refine ⟨h.reachable.step hi, ?_, ?_⟩
  · rw [r.get_of_aslu haslu]
    exact h.value
  · rw [SharedCsr.pending, r.get_of_aslu haslu, hctrl]
    exact h.pending

theorem Atomic.edge {s : T5Rv32i} {r : SharedCsr} {t : List (T5Rv32i × Input)}
    (h : Atomic X r s t) {i : Input} (hi : i.sysRst = false) (ha : s.advancing i = true)
    {instr : Instr} (hw : Encodes i.iwbDat instr) (hown : OwnOperand r.num s i) :
    Atomic X r (s.step X i) (t ++ [(s, i)]) := by
  have hdec : InDecode X s i (s.step X i) := .of_step ha hi
  have hget : r.get (s.step X i) = CsrOp.evalAll 0#32 (t.filterMap (csrUpdate r.num)) :=
    (r.get_step ha).trans h.pending
  refine ⟨h.reachable.step hi, by rw [List.dropLast_concat]; exact hget, ?_⟩
  rw [List.filterMap_append]
  cases hu : csrUpdate r.num (s, i) with
  | none =>
    have hno : wenable (s.step X i).ctrl.toDecode r.num = false := by
      rw [hdec.toDecode h.reachable.running (rv32_of_encodes hw)]
      exact wenable_of_csrUpdate_eq_none hw hu
    rw [SharedCsr.pending, hno, hget, List.filterMap_cons_none hu]
    simp
  | some u =>
    obtain ⟨isImm, hcsr, hsrc⟩ := encodes_of_csrUpdate_eq_some hu
    have hslot := hdec.csrSlot_of_own h.reachable hown hcsr
    rw [← hsrc] at hslot
    rw [r.pending_of_slot hslot, hget, List.filterMap_cons_some hu]
    exact (CsrOp.evalAll_append _ _ _ _).symm

theorem atomic_run {c : T5Rv32i} (hc : PostReset X c) (r : SharedCsr) {js : List Input}
    (hjs : ∀ j ∈ js, j.sysRst = false)
    (hw : (machine X).AtEdges c js (fun _ j => ∃ instr, Encodes j.iwbDat instr))
    (hfirst : FirstOperand X r.num c js) :
    Atomic X r ((machine X).run c js) ((machine X).trace c js) := by
  have hown := hfirst.ownOperand hc hjs
  refine Clocked.Machine.trace_run (M := machine X) (P := Atomic X r) (t := [])
    (R := fun s j => (∃ instr, Encodes j.iwbDat instr) ∧ OwnOperand r.num s j)
    ?_ (fun _ _ _ h hj ha => h.stall hj ha) (atomic_of_postReset hc r) hjs
    (fun as j bs he ha => ⟨hw as j bs he ha, hown as j bs he ha⟩)
  rintro s j t h hj ha ⟨⟨instr, hinstr⟩, ho⟩
  exact h.edge hj ha hinstr ho

/-! ## One CSR instruction -/

theorem InDecode.get_shared {s d : T5Rv32i} {i : Input} (hs : T5Rv32i.Running s)
    (h : InDecode X s i d) (r : SharedCsr) : r.get d = r.pending X s := by
  have hpipe : d.pipe = (s.step X i).pipe := by
    rw [h.pipe hs, T5Rv32i.pipe_step_of_advancing X hs.readSafe h.advancing h.sysRst]
  rw [r.get_of_aslu (congrArg Pipe.aslu hpipe), r.get_step h.advancing]

theorem InDecode.dhart {s d : T5Rv32i} {i : Input} (hs : T5Rv32i.Running s)
    (h : InDecode X s i d) : d.inst.dhart = s.owner := by
  have hinst : d.inst = _ := congrArg Pipe.inst (h.pipe hs)
  rw [hinst]
  show ~~~ T5Inst.whart s.inst.hart = s.owner
  rw [T5Rv32i.owner]
  generalize s.inst.hart = k
  revert k
  decide

/-- The write port while a CSR instruction is in the memory slot. -/
theorem Transit.csr_port {s d x m : T5Rv32i} {i k l : Input} {op : CsrOp} {isImm : Bool}
    {r q : BitVec 5} {num : BitVec 12} (hs : Reachable X s) (h : Transit X s i d k x l m)
    (hw : Encodes i.iwbDat (.csr op isImm r q num)) :
    m.inst.mhart = s.owner ∧ m.back.mwre = orR r ∧ m.rd0a = r ∧
      m.rd0d = rcsr d.aslu.toCsr s.owner num := by
  have hpass := h.passage_step
  obtain ⟨hwre, hrd, hval⟩ := h.decode.csr_port hs hw h.execute.advancing h.execute.sysRst hpass
  rw [h.decode.dhart hs.running] at hval
  exact ⟨(hpass.owner hs.running).1, hwre, hrd, hval⟩

/-- The CSR instructions that name one of the three shared registers are atomic updates
of it, in the order in which they leave the decode slot, and nothing else changes it.
After a run the register holds the result of all but the one that is still in the decode
slot.  Each instruction writes the value before its own update to its hart, and the
operand is that of the hart's bank when the instruction is decoded, before its own write.
The runs start after any reset and stall anywhere. -/
theorem csr_atomic (X : DontCare) {c : T5Rv32i} (hc : PostReset X c) (reg : SharedCsr)
    {js : List Input} (hjs : ∀ j ∈ js, j.sysRst = false)
    (hw : (machine X).AtEdges c js (fun _ j => ∃ instr, Encodes j.iwbDat instr))
    (hfirst : FirstOperand X reg.num c js) :
    reg.get ((machine X).run c js) =
      CsrOp.evalAll 0#32 (((machine X).trace c js).dropLast.filterMap (csrUpdate reg.num)) ∧
    ∀ (as bs : List Input) (i k l : Input) (d x m : T5Rv32i) (op : CsrOp) (isImm : Bool)
      (r q : BitVec 5) (num : BitVec 12),
      let s := (machine X).run c as
      let old := CsrOp.evalAll 0#32 (csrUpdates X reg.num c as)
      js = as ++ i :: bs → Encodes i.iwbDat (.csr op isImm r q num) → Transit X s i d k x l m →
      m.inst.mhart = s.owner ∧ m.back.mwre = orR r ∧ m.rd0a = r ∧
      (num = csrMhartid → m.rd0d = 0#30 ++ s.owner) ∧
      (num = reg.num → m.rd0d = old ∧
        reg.get x = op.eval old (csrOperand isImm q (s.commit.rs1d s.owner q))) := by
  refine ⟨(atomic_run hc reg hjs hw hfirst).value, ?_⟩
  rintro as bs i k l d x m op isImm r q num s old rfl hcsr ht
  have has : ∀ j ∈ as, j.sysRst = false := fun j hj => hjs j (List.mem_append_left _ hj)
  have hs : Reachable X s := hc.reachable.run has
  obtain ⟨hhart, hwre, hrd, hval⟩ := ht.csr_port hs hcsr
  refine ⟨hhart, hwre, hrd, ?_, ?_⟩
  · rintro rfl
    exact hval
  · rintro rfl
    have hold : reg.get d = old := by
      have hfirst' : FirstOperand X reg.num c as := fun bs' j cs op he =>
        hfirst bs' j (cs ++ i :: bs) op (by rw [he, List.append_assoc, List.cons_append])
      rw [ht.decode.get_shared hs.running]
      exact (atomic_run hc reg has hw.of_append hfirst').pending
    have hown : OwnOperand reg.num s i := hfirst.ownOperand hc hjs as i bs rfl ht.decode.advancing
    constructor
    · rw [hval, reg.rcsr_num, hold]
    · rw [ht.execute.get_shared (ht.decode.running hs.running),
        reg.pending_of_slot (ht.decode.csrSlot_of_own hs hown hcsr), hold]

/-- `csrrwi x1, mscratch, 5` of hart 0 and `csrrsi x1, mscratch, 2` of hart 1 leave 7. -/
theorem csr_atomic_two_harts :
    SharedCsr.mscratch.get ((machine default).run (coldStart default)
      [Input.fetch nop, Input.fetch nop, Input.fetch 0x3402D0F3#32, Input.fetch 0x340160F3#32,
        Input.fetch nop]) = 7#32 := by
  have hc := postReset_coldStart default
  have hnop : Encodes nop (.opImm .add 0#5 0#5 0#32) :=
    ⟨by decide, .opImm (by decide) (by decide) (by decide) (by decide)⟩
  have hwrite : Encodes 0x3402D0F3#32 (.csr .write true 1#5 5#5 csrMscratch) :=
    ⟨by decide, .csr (by decide) (by decide)⟩
  have hset : Encodes 0x340160F3#32 (.csr .set true 1#5 2#5 csrMscratch) :=
    ⟨by decide, .csr (by decide) (by decide)⟩
  have hw : ∀ j ∈ [Input.fetch nop, Input.fetch nop, Input.fetch 0x3402D0F3#32,
      Input.fetch 0x340160F3#32, Input.fetch nop], ∃ instr, Encodes j.iwbDat instr := by
    intro j hj
    simp only [List.mem_cons, List.not_mem_nil, or_false] at hj
    rcases hj with rfl | rfl | rfl | rfl | rfl
    · exact ⟨_, hnop⟩
    · exact ⟨_, hnop⟩
    · exact ⟨_, hwrite⟩
    · exact ⟨_, hset⟩
    · exact ⟨_, hnop⟩
  have hzero : ∀ r, (coldStart default).commit.rs1d 0#2 r =
      (coldStart default).commit.rs1d 2#2 r := by decide +kernel
  have hlow : ∀ j ∈ [Input.fetch nop, Input.fetch nop, Input.fetch 0x3402D0F3#32,
      Input.fetch 0x340160F3#32, Input.fetch nop], j.sysRst = false := by decide
  have h := (csr_atomic default hc .mscratch hlow
    (fun as j bs he _ => hw j (by rw [he]; exact List.mem_append_right _ List.mem_cons_self))
    (fun _ _ _ _ _ _ _ _ _ => hzero _)).1
  exact h.trans (by decide +kernel)

/-- A register file with 5 in `x1` of hart 0 and 7 in `x1` of hart 2. -/
def twoBanks : T5Gprf :=
  (T5Gprf.step default true 0#2 1#5 5#32).step true 2#2 1#5 7#32

/-- `csrrw x1, mscratch, x1` is on the bus at the first edge after a reset.  It is
executed for hart 2, whose `x1` is 7, and leaves 5 in `mscratch`. -/
theorem csr_takes_other_operand :
    let c := (machine default).run { (default : T5Rv32i) with gprf := twoBanks } resetPulse
    let s := c.step default (Input.fetch nop)
    let d := s.step default (Input.fetch 0x340090F3#32)
    let x := d.step default (Input.fetch nop)
    let m := x.step default (Input.fetch nop)
    PostReset default c ∧
      Encodes (Input.fetch 0x340090F3#32).iwbDat (.csr .write false 1#5 1#5 csrMscratch) ∧
      Transit default s (Input.fetch 0x340090F3#32) d (Input.fetch nop) x (Input.fetch nop) m ∧
      m.inst.mhart = 2#2 ∧ m.back.mwre = true ∧ m.rd0a = 1#5 ∧ s.owner = 2#2 ∧
      s.commit.rs1d 2#2 1#5 = 7#32 ∧ SharedCsr.mscratch.get x = 5#32 := by
  intro c s d x m
  refine ⟨⟨_, resetPulse, resetWave_resetPulse, rfl⟩, ⟨by decide, .csr (by decide) (by decide)⟩,
    transit_of_edges (by decide +kernel) (by decide +kernel) (by decide +kernel) (by decide), ?_⟩
  decide +kernel

end Tra5
