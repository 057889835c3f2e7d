/-
The pipeline follows the machine.

At every advancing edge the machine executes the instruction that is in the execute
slot.  By then the next hart's word is in the decode slot with its operands, the word
of the hart after that is on the instruction bus and the fourth hart is fetching.
`Follows` ties all four to the machine, the first with its CSR update made and its trap
still to come.
-/
import Tra5.System.Retire

namespace Tra5

open Rv32 T5Inst

/-! ## The slots -/

/-- The decode registers of the instruction of the hart `h`. -/
def Soc.decoded (X : DontCare) (s : Soc) (h : BitVec 2) : Decode :=
  T5Ctrl.decode X (s.pc h) (s.word h) (s.rs1 h) (s.rs2 h)

structure DecodeSlot (X : DontCare) (s : Soc) (h : BitVec 2) (p : Pipe) : Prop where
  toDecode : p.ctrl.toDecode = s.decoded X h
  dpc : p.ctrl.dpc = T5Ctrl.npc (s.pc h)
  depc : p.ctrl.depc = s.pc h
  drd : p.back.drd = rd (s.word h)

/-- The execute slot.  A CSR instruction has read what the machine will let it read. -/
structure ExecuteSlot (X : DontCare) (s : Soc) (h : BitVec 2) (i : Instr) (p : Pipe) : Prop where
  toExecute : ∃ k csr, p.aslu.toExecute = T5Aslu.execute X k csr (s.decoded X h) ∧
    ∀ op isImm r q num v, i = .csr op isImm r q num → s.csrs.read h num = some v →
      T5Aslu.rcsr csr k num = v
  data : p.data = T5Data.advance (s.decoded X h)
  xpc : p.ctrl.xpc = T5Ctrl.npc (s.pc h)
  xepc : p.ctrl.xepc = s.pc h
  xrd : p.back.xrd = rd (s.word h)

structure Follows (X : DontCare) (s : Soc) (i : Instr) (p : Pipe) : Prop where
  hart : p.inst.hart = whart (whart (whart s.turn))
  dhart : p.inst.dhart = whart s.turn
  fhart : p.inst.fhart = whart (whart s.turn)
  iwbAdr : p.inst.iwbAdr = s.pc (whart (whart (whart s.turn)))
  fetchPc : p.fetchPc = s.pc (whart (whart s.turn))
  rs1d : ∀ h q, p.gprf.rs1d h q = (s.regs h).get q
  rs2d : ∀ h q, p.gprf.rs2d h q = (s.regs h).get q
  csrs : CsrSees p.aslu.toCsr (s.csrsIssued s.turn i)
  decode : DecodeSlot X s (whart s.turn) p
  execute : ExecuteSlot X s s.turn i p

/-- The data bus answers the load of the execute slot as the machine does. -/
def Soc.LoadAnswered (s : Soc) (i : Instr) (dwbDti : BitVec 32) : Prop :=
  ∀ op r q imm, i = .load op r q imm → s.traps s.turn i = false →
    op.value (fun n => byteOf dwbDti (n % 4)) (s.address imm).toNat =
      s.bus.tick.load op (s.address imm)

/-! ## What a regular step allows -/

namespace Soc

variable {s : Soc} {i j : Instr}

theorem Regular.namesZero (hr : Regular s i j) :
    NamesZero i (s.word s.turn) (s.traps s.turn i) := by
  have ha := hr.allowed
  refine ⟨fun ht hj => ?_, fun r hi => ?_⟩
  · cases i with
    | jal r imm | jalr r q imm =>
      simp only [Soc.allowed, ht, Bool.not_true, Bool.false_or, beq_iff_eq] at ha
      rw [← ha]
      exact rd_of_dest hr.encodes rfl
    | lui | auipc | branch | load | store | opImm | opReg | fence | fenceI | ecall | ebreak | mret
    | csr => exact Bool.noConfusion hj
  · rcases hi with rfl | rfl <;> exact beq_iff_eq.mp ha

theorem Regular.readable (hr : Regular s i j) {op : CsrOp} {isImm : Bool} {r q : BitVec 5}
    {num : BitVec 12} (hi : i = .csr op isImm r q num) (h0 : r ≠ 0#5) :
    (s.csrs.read s.turn num).isSome = true := by
  have ha := hr.allowed
  subst hi
  simp only [Soc.allowed, Bool.or_eq_true, beq_iff_eq] at ha
  exact ha.resolve_right h0

/-- A hart whose turn it is not keeps its decode registers. -/
theorem decoded_exec {X : DontCare} {h : BitVec 2} (hh : h ≠ s.turn)
    (hw : (s.exec i).word h = s.word h) : (s.exec i).decoded X h = s.decoded X h := by
  simp only [decoded, rs1, rs2, hw, pc_exec_of_ne hh, regs_exec_of_ne hh]

end Soc

/-! ## One edge -/

namespace Follows

variable {X : DontCare} {s : Soc} {i j : Instr} {p : Pipe}

theorem whart_hart (hf : Follows X s i p) : whart p.inst.hart = s.turn := by
  rw [hf.hart, whart_four]

theorem csrInputs (hf : Follows X s i p) : ∃ k csr,
    executeInputs p.aslu.toExecute p.data p.ctrl.xepc p.inst.dhart =
      Soc.inputs X s s.turn csr k (whart s.turn) := by
  obtain ⟨k, csr, hx, -⟩ := hf.execute.toExecute
  refine ⟨k, csr, ?_⟩
  rw [hx, hf.execute.data, hf.execute.xepc, hf.dhart]
  rfl

/-- The instruction in the execute slot does what it does in the machine. -/
theorem outcome (hf : Follows X s i p) {k : Sample} (hload : s.LoadAnswered i k.dwbDti) :
    ∃ e, s.Answers s.turn i e ∧ p.outcome X k =
      datapath X e (s.pc s.turn) (s.word s.turn) (s.rs1 s.turn) (s.rs2 s.turn) := by
  obtain ⟨k', csr, hx, hread⟩ := hf.execute.toExecute
  refine ⟨{ dhart := k', decodeCsr := csr, executeCsr := p.aslu.toCsr, dwbDti := k.dwbDti },
    ⟨hf.csrs, hread, hload⟩, ?_⟩
  rw [Pipe.outcome, hx, hf.execute.data, hf.execute.xpc, hf.execute.xrd]
  rfl

theorem advance_next (hf : Follows X s i p) (hr : Soc.Regular s i j) {k : Sample}
    (hload : s.LoadAnswered i k.dwbDti) : (p.outcome X k).next = (s.exec i).pc s.turn := by
  obtain ⟨e, hans, ho⟩ := hf.outcome hload
  rw [ho, hans.next hr.encodes, Soc.pc_exec_turn]

theorem advance_regs (hf : Follows X s i p) (hr : Soc.Regular s i j) {k : Sample}
    (hload : s.LoadAnswered i k.dwbDti) (h : BitVec 2) (q : BitVec 5) :
    (p.advance X k).gprf.rs1d h q = ((s.exec i).regs h).get q ∧
      (p.advance X k).gprf.rs2d h q = ((s.exec i).regs h).get q := by
  obtain ⟨e, hans, ho⟩ := hf.outcome hload
  by_cases hh : h = s.turn
  · subst hh
    have hb : (p.advance X k).gprf.bank s.turn = (p.gprf.bank s.turn).write (p.outcome X k).wre
        (p.outcome X k).rd (p.outcome X k).value := by
      rw [Pipe.advance_gprf, hf.whart_hart, T5Gprf.bank_step_self]
    have hreg := hans.registers (X := X) hr.encodes hr.namesZero
      (fun _ _ _ _ _ hi h0 => hr.readable hi h0) q
    rw [Soc.regs_exec_turn, ← hreg, ← ho]
    constructor
    · refine (congrFun (congrArg Bank.rs1 hb) q).trans ?_
      show (if _ then _ else p.gprf.rs1d s.turn q) = _
      rw [hf.rs1d]
    · refine (congrFun (congrArg Bank.rs2 hb) q).trans ?_
      show (if _ then _ else p.gprf.rs2d s.turn q) = _
      rw [hf.rs2d]
  · have hb := p.advance_bank_of_ne X k (h := h) (by rw [hf.whart_hart]; exact hh)
    rw [Soc.regs_exec_of_ne hh, ← hf.rs1d]
    constructor
    · exact congrFun (congrArg Bank.rs1 hb) q
    · rw [hf.rs1d, ← hf.rs2d]
      exact congrFun (congrArg Bank.rs2 hb) q

theorem decoded_next (hf : Follows X s i p) (hr : Soc.Regular s i j) :
    p.ctrl.toDecode = (s.exec i).decoded X (whart s.turn) := by
  rw [hf.decode.toDecode, Soc.decoded_exec (whart_ne s.turn).symm (Soc.word_exec_next hr).1]

theorem advance_csrs (hf : Follows X s i p) (hr : Soc.Regular s i j) (k : Sample) :
    CsrSees (p.advance X k).aslu.toCsr ((s.exec i).csrsIssued (whart s.turn) j) := by
  obtain ⟨k', csr, he⟩ := hf.csrInputs
  have hstep : (p.advance X k).aslu.toCsr =
      T5Aslu.nextCsr X (executeInputs p.aslu.toExecute p.data p.ctrl.xepc p.inst.dhart)
        p.ctrl.toDecode p.aslu.toCsr := rfl
  rw [hstep, he]
  exact Soc.sees_nextCsr hr hf.csrs (hf.decoded_next hr)

/-- What the CSR instruction behind reads at this edge. -/
theorem read_next (hf : Follows X s i p) (hr : Soc.Regular s i j) {op : CsrOp} {isImm : Bool}
    {r q : BitVec 5} {num : BitVec 12} {v : BitVec 32} (hj : j = .csr op isImm r q num)
    (hv : (s.exec i).csrs.read (whart s.turn) num = some v) :
    T5Aslu.rcsr p.aslu.toCsr p.inst.dhart num = v := by
  subst hj
  obtain ⟨k, csr, -⟩ := hf.csrInputs
  have hc := (Soc.clashes_eq_false hr.clashes).1
  have htrap := (Soc.andR_inputs (X := X) hr.encodes csr k (whart s.turn)).2
  have hsees := Soc.sees_settle (X := X) hf.csrs hr.encodes csr k (whart s.turn)
  rw [hf.dhart, ← rcsr_settle (whart s.turn) (by rw [htrap]; exact hc)]
  exact hsees.rcsr hv

theorem advance_decode (hf : Follows X s i p) (hr : Soc.Regular s i j) {k : Sample}
    (hword : k.iwbDat = s.word (whart (whart s.turn))) :
    DecodeSlot X (s.exec i) (whart (whart s.turn)) (p.advance X k) ∧
      (p.advance X k).ctrl.xpc = p.ctrl.dpc ∧ (p.advance X k).ctrl.xepc = p.ctrl.depc := by
  have hctrl := p.advance_ctrl_of_rv32 X (k := k) (by rw [hword]; exact hr.rv32)
  have hne := (whart_two_ne s.turn).symm
  have hw := (Soc.word_exec_next hr).2
  have h1 : p.rs1d k.iwbDat = s.rs1 (whart (whart s.turn)) := by
    rw [Pipe.rs1d, hf.fhart, hf.rs1d, hword]
    rfl
  have h2 : p.rs2d k.iwbDat = s.rs2 (whart (whart s.turn)) := by
    rw [Pipe.rs2d, hf.fhart, hf.rs2d, hword]
    rfl
  rw [h1, h2, hf.fetchPc, hword] at hctrl
  refine ⟨⟨?_, ?_, ?_, ?_⟩, by rw [hctrl], by rw [hctrl]⟩
  · rw [hctrl, Soc.decoded_exec hne hw]
    rfl
  · rw [hctrl, Soc.pc_exec_of_ne hne]
  · rw [hctrl, Soc.pc_exec_of_ne hne]
  · rw [hw, ← hword]
    rfl

theorem advance_execute (hf : Follows X s i p) (hr : Soc.Regular s i j) {k : Sample}
    (hword : k.iwbDat = s.word (whart (whart s.turn))) :
    ExecuteSlot X (s.exec i) (whart s.turn) j (p.advance X k) := by
  obtain ⟨-, hxpc, hxepc⟩ := hf.advance_decode hr hword
  have hne := (whart_ne s.turn).symm
  refine ⟨⟨p.inst.dhart, p.aslu.toCsr, ?_, fun op isImm r q num v hj hv => ?_⟩, ?_, ?_, ?_, ?_⟩
  · rw [← hf.decoded_next hr]
    rfl
  · exact hf.read_next hr hj hv
  · rw [← hf.decoded_next hr]
    rfl
  · rw [hxpc, hf.decode.dpc, Soc.pc_exec_of_ne hne]
  · rw [hxepc, hf.decode.depc, Soc.pc_exec_of_ne hne]
  · rw [(Soc.word_exec_next hr).1, ← hf.decode.drd]
    rfl

theorem whart_two (h : BitVec 2) : ~~~ h = whart (whart h) := by
  revert h
  decide

/-- One edge of the pipeline is one step of the machine. -/
theorem advance (hf : Follows X s i p) (hr : Soc.Regular s i j) {k : Sample}
    (hword : k.iwbDat = s.word (whart (whart s.turn))) (hload : s.LoadAnswered i k.dwbDti) :
    Follows X (s.exec i) j (p.advance X k) where
  hart := by rw [Pipe.advance_hart, hf.hart]; rfl
  dhart := by
    show ~~~ whart p.inst.hart = whart (whart s.turn)
    rw [hf.whart_hart, whart_two]
  fhart := by rw [Pipe.advance_fhart, hf.hart]; rfl
  iwbAdr := by
    rw [Pipe.advance_iwbAdr, hf.advance_next hr hload, Soc.turn_exec, whart_four]
  fetchPc := by
    rw [Pipe.advance_fetchPc, hf.iwbAdr, ← Soc.pc_exec_of_ne (whart_three_ne s.turn).symm i]
    rfl
  rs1d := fun h q => (hf.advance_regs hr hload h q).1
  rs2d := fun h q => (hf.advance_regs hr hload h q).2
  csrs := hf.advance_csrs hr k
  decode := (hf.advance_decode hr hword).1
  execute := hf.advance_execute hr hword

end Follows

end Tra5
