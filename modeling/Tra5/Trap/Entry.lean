/-
Trap entry.

The alignment of an address is tested twice, by the two-bit adder of `t5_data` and
by the adder of `t5_aslu`, and the next PC, `mepc`, `mcause` and `mtval` each have a
selector of their own over `xbra`, `xstb` and `xexc`.  For an instruction whose
successor ends in `11` they agree: `trap_entry` says what the edge records at which
the instruction leaves the execute slot, and where its hart goes on.
-/
import Tra5.Trap.TrapCsr
import Tra5.Trap.Status
import Tra5.Hart.Start

namespace Tra5

open Rv32 T5Aslu

variable {X : DontCare} {w a b : BitVec 32} {pc : BitVec 30}

/-! ## The address in `xbpc` and `xoff` -/

theorem append_low (x : BitVec 32) : x.extractLsb 31 2 ++ x.extractLsb 1 0 = x := by
  refine BitVec.eq_of_getLsbD_eq (fun i hi => ?_)
  rw [BitVec.getLsbD_append]
  interval_cases i <;> simp

theorem append_bit_one (x : BitVec 32) :
    x.extractLsb 31 2 ++ (BitVec.ofBool (x.getLsbD 1) ++ 0#1) = x &&& ~~~ 1#32 := by
  refine BitVec.eq_of_getLsbD_eq (fun i hi => ?_)
  rw [BitVec.getLsbD_append, BitVec.getLsbD_append]
  interval_cases i <;> simp

theorem and_not_one_of_even {x : BitVec 32} (h : x.getLsbD 0 = false) : x &&& ~~~ 1#32 = x := by
  refine BitVec.eq_of_getLsbD_eq (fun i hi => ?_)
  interval_cases i <;> simp
  simpa using h

/-- The registers from which `mtval` is loaded hold the address of the access or of
the jump. -/
theorem faultAddress_of_encodes (X : DontCare) {i : Instr} (hw : Encodes w i)
    (hi : i.isMemory = true ∨ (i.target (byteAdr pc) a b).isSome = true) (dhart : BitVec 2)
    (csr : Csr) :
    let x := execute X dhart csr (T5Ctrl.decode X pc w a b)
    x.xbpc ++ x.xoff = i.faultAddress (byteAdr pc) a b := by
  have hplain (d : Decode) (he : d.dexc = false) (hj : d.djmp = false) :
      (execute X dhart csr d).xbpc ++ (execute X dhart csr d).xoff = xadr d := by
    simp only [execute, xbpcNext, he, hj, Bool.false_and, Bool.false_eq_true, if_false]
    exact append_low (xadr d)
  have hjump (d : Decode) (he : d.dexc = false) (hj : d.djmp = true) :
      (execute X dhart csr d).xbpc ++ (execute X dhart csr d).xoff = xadr d &&& ~~~ 1#32 := by
    simp only [execute, xbpcNext, he, hj, Bool.false_and, Bool.false_eq_true, if_false, if_true]
    exact append_bit_one (xadr d)
  cases hw.format with
  | load h =>
    rw [T5Ctrl.decode_load h]
    exact hplain _ rfl rfl
  | store h =>
    rw [T5Ctrl.decode_store h]
    exact hplain _ rfl rfl
  | @branch op h hf =>
    rw [T5Ctrl.decode_branch h]
    have ht : op.taken a b = true := by
      cases hb : op.taken a b with
      | true => rfl
      | false => simp [Instr.isMemory, Instr.target, hb] at hi
    simp only [Instr.faultAddress, Instr.target, ht, if_true, Option.getD_some]
    exact hplain _ rfl rfl
  | jal h =>
    rw [T5Ctrl.decode_jal h]
    exact (hjump _ rfl rfl).trans (and_not_one_of_even (jal_target_even pc w))
  | jalr h =>
    rw [T5Ctrl.decode_jalr h]
    exact hjump _ rfl rfl
  | lui | auipc | opImm | opReg | fence | fenceI | ecall | ebreak | mret | csr =>
    exact absurd hi (by simp [Instr.isMemory, Instr.target])

theorem xbpc_of_target (X : DontCare) {i : Instr} (hw : Encodes w i) {t : BitVec 32}
    (ht : i.target (byteAdr pc) a b = some t) (dhart : BitVec 2) (csr : Csr) :
    (execute X dhart csr (T5Ctrl.decode X pc w a b)).xbpc = t.extractLsb 31 2 := by
  have hsome : (i.target (byteAdr pc) a b).isSome = true := by rw [ht]; rfl
  have hf := faultAddress_of_encodes X hw (Or.inr hsome) dhart csr
  have hfa : i.faultAddress (byteAdr pc) a b = t := by
    cases i with
    | load | store => exact absurd ht (by simp [Instr.target])
    | lui | auipc | jal | jalr | branch | opImm | opReg | fence | fenceI | ecall | ebreak | mret
    | csr => simp only [Instr.faultAddress, ht, Option.getD_some]
  rw [← hfa, ← hf]
  exact (BitVec.extractLsb'_append_eq_left).symm

/-! ## The cause -/

theorem bit20_of_dcp2 (w : BitVec 32) (y : BitVec 15) :
    xbrk ((0#32 + (w.extractLsb 31 15 ++ y)).extractLsb 31 2) = w.getLsbD 20 := by
  rw [BitVec.zero_add, xbrk, BitVec.getLsbD_extractLsb, BitVec.getLsbD_append]
  simp

/-- A trap shows in `xbra` or in `xstb`, never in both. -/
theorem trap_of_encodes (X : DontCare) {i : Instr} (hw : Encodes w i)
    (ht : i.traps (byteAdr pc) a b = true) :
    let d := T5Ctrl.decode X pc w a b
    (xbraNext d = 0b11#2 ∧ andR (T5Data.advance d).xstb = false ∧ i.isMemory = false) ∨
      (xbraNext d = 0b00#2 ∧ andR (T5Data.advance d).xstb = true ∧ i.isMemory = true) := by
  intro d
  have hx : xbraNext d = _ := xbraNext_of_encodes X hw
  have hs : andR (T5Data.advance d).xstb = _ := andR_xstb_of_encodes X hw
  rw [hx, hs]
  cases hsys : i.isSystem with
  | true =>
    cases i with
    | ecall | ebreak => exact Or.inl ⟨rfl, rfl, rfl⟩
    | mret | csr => exact Bool.noConfusion ht
    | lui | auipc | jal | jalr | branch | load | store | opImm | opReg | fence | fenceI =>
      exact Bool.noConfusion hsys
  | false =>
    rw [Instr.traps_of_not_system hsys, Bool.or_eq_true] at ht
    rw [branchCode_of_not_system hsys]
    cases hm : i.isMemory with
    | true =>
      have hnone := Instr.target_of_memory hm (byteAdr pc) a b
      have hj : i.jumpMisaligned (byteAdr pc) a b = false := by
        rw [Instr.jumpMisaligned, hnone]
        rfl
      rw [hj] at ht ⊢
      exact Or.inr ⟨by rw [hnone]; rfl, ht.resolve_left Bool.false_ne_true, rfl⟩
    | false =>
      have ha := Instr.accessMisaligned_of_not_memory hm a
      have hj : i.jumpMisaligned (byteAdr pc) a b = true :=
        ht.resolve_right (by rw [ha]; exact Bool.false_ne_true)
      exact Or.inl ⟨by rw [isSome_of_jumpMisaligned hj, hj]; rfl, ha, rfl⟩

theorem dexc_of_not_system (X : DontCare) {i : Instr} (hw : Encodes w i)
    (hi : i.isSystem = false) : (T5Ctrl.decode X pc w a b).dexc = false := by
  show T5Ctrl.etype (opcode w) w = false
  cases hw.format with
  | lui h | auipc h | jal h | jalr h | branch h | load h | store h | opImm h | opReg h | fence h
  | fenceI h => rw [h]; rfl
  | ecall | ebreak | mret | csr => exact Bool.noConfusion hi

theorem xwre_of_memory {i : Instr} (hw : Encodes w i) (hi : i.isMemory = true) :
    1#2 ++ BitVec.ofBool ((opcode w).getLsbD 3) ++ 0#1 = i.cause := by
  cases hw.format with
  | load h | store h => rw [h]; rfl
  | lui | auipc | jal | jalr | branch | opImm | opReg | fence | fenceI | ecall | ebreak | mret
  | csr => exact Bool.noConfusion hi

/-- `ecall` and `ebreak` differ in bit 20 of the address that `x0` and the word add
up to. -/
theorem xbrk_of_exc (X : DontCare) {i : Instr} (hw : Encodes w i) (hi : i = .ecall ∨ i = .ebreak)
    (ha : a = 0#32) (pc : BitVec 30) (b : BitVec 32) (dhart : BitVec 2) (csr : Csr) :
    let x := execute X dhart csr (T5Ctrl.decode X pc w a b)
    x.xexc = true ∧ BitVec.ofBool (!xbrk x.xbpc) ++ 3#3 = i.cause := by
  have hword (hopc : opcode w = 0b11100#5) (hf : (w.getLsbD 13 || w.getLsbD 12) = false)
      (h21 : w.getLsbD 21 = false) :
      (execute X dhart csr (T5Ctrl.decode X pc w a b)).xexc = true ∧
        xbrk (execute X dhart csr (T5Ctrl.decode X pc w a b)).xbpc = w.getLsbD 20 := by
    rw [T5Ctrl.decode_exc hopc hf, ha]
    refine ⟨rfl, ?_⟩
    simp only [execute, xbpcNext, bit21_of_dcp2, h21, Bool.and_false, Bool.false_eq_true, if_false,
      xadr]
    exact bit20_of_dcp2 w X.dcp2
  rcases hi with rfl | rfl
  · cases hw.format with
    | ecall h =>
      obtain ⟨he, hb⟩ := hword (by rw [h]; rfl) (by rw [h]; rfl) (by rw [h]; rfl)
      refine ⟨he, ?_⟩
      rw [hb, h]
      rfl
  · cases hw.format with
    | ebreak h =>
      obtain ⟨he, hb⟩ := hword (by rw [h]; rfl) (by rw [h]; rfl) (by rw [h]; rfl)
      refine ⟨he, ?_⟩
      rw [hb, h]
      rfl

/-! ## The execute slot -/

section Slot

variable {s x : T5Rv32i} {i : Input} {instr : Instr}

/-- The registers of the execute slot that tell what its instruction does. -/
theorem InExecute.code (hs : T5Rv32i.Running s) (h : InExecute X s i x)
    (hw : Encodes i.iwbDat instr) :
    x.aslu.xbra = branchCode instr (byteAdr (s.inst.fpc.extractLsb 31 2)) (s.rs1d i.iwbDat)
        (s.rs2d i.iwbDat) ∧
      andR x.data.xstb = instr.accessMisaligned (s.rs1d i.iwbDat) := by
  obtain ⟨dhart, csr, hexec, hdata⟩ := h.slot hs (rv32_of_encodes hw)
  have hbra : x.aslu.xbra = xbraNext _ := congrArg Execute.xbra hexec
  rw [hbra, hdata]
  exact ⟨xbraNext_of_encodes X hw, andR_xstb_of_encodes X hw⟩

theorem InExecute.trap_code (hs : T5Rv32i.Running s) (h : InExecute X s i x)
    (hw : Encodes i.iwbDat instr)
    (ht : instr.traps (byteAdr (s.inst.fpc.extractLsb 31 2)) (s.rs1d i.iwbDat)
      (s.rs2d i.iwbDat) = true) :
    (x.aslu.xbra = 0b11#2 ∧ andR x.data.xstb = false ∧ instr.isMemory = false) ∨
      (x.aslu.xbra = 0b00#2 ∧ andR x.data.xstb = true ∧ instr.isMemory = true) := by
  obtain ⟨dhart, csr, hexec, hdata⟩ := h.slot hs (rv32_of_encodes hw)
  have hbra : x.aslu.xbra = xbraNext _ := congrArg Execute.xbra hexec
  rw [hbra, hdata]
  exact trap_of_encodes X hw ht

theorem rs1d_of_zero (hs : Reachable X s) (ha : s.advancing i = true)
    (h0 : rs1 i.iwbDat = 0#5) : s.rs1d i.iwbDat = 0#32 :=
  csrOperand_of_zero hs ha false h0

theorem InExecute.recordedMcause (hs : Reachable X s) (h : InExecute X s i x)
    (hw : Encodes i.iwbDat instr)
    (ht : instr.traps (byteAdr (s.inst.fpc.extractLsb 31 2)) (s.rs1d i.iwbDat)
      (s.rs2d i.iwbDat) = true) (c : Csr) :
    Tra5.recordedMcause x.csrInputs c = instr.cause := by
  obtain ⟨dhart, csr, hexec, hdata⟩ := h.slot hs.running (rv32_of_encodes hw)
  have hbra : x.csrInputs.xbra = xbraNext _ := congrArg Execute.xbra hexec
  have hexc : x.csrInputs.xexc = _ := congrArg Execute.xexc hexec
  have hbpc : x.csrInputs.xbpc = _ := congrArg Execute.xbpc hexec
  have hwre : x.csrInputs.xwre = _ := congrArg T5Data.xwre hdata
  rw [Tra5.recordedMcause, hbra]
  by_cases hsys : instr.isSystem = true
  · have hexc' : instr = .ecall ∨ instr = .ebreak := by
      cases instr with
      | ecall => exact Or.inl rfl
      | ebreak => exact Or.inr rfl
      | mret | csr => exact Bool.noConfusion ht
      | lui | auipc | jal | jalr | branch | load | store | opImm | opReg | fence | fenceI =>
        exact Bool.noConfusion hsys
    have h0 : rs1 i.iwbDat = 0#5 := by
      rcases hexc' with rfl | rfl <;> cases hw.format with | _ h => rw [h]; rfl
    obtain ⟨he, hb⟩ := xbrk_of_exc X hw hexc' (rs1d_of_zero hs h.advancing h0)
      (s.inst.fpc.extractLsb 31 2) (s.rs2d i.iwbDat) dhart csr
    have h11 : branchCode instr (byteAdr (s.inst.fpc.extractLsb 31 2)) (s.rs1d i.iwbDat)
        (s.rs2d i.iwbDat) = 0b11#2 := by rcases hexc' with rfl | rfl <;> rfl
    rw [xbraNext_of_encodes X hw, h11, hexc, he, hbpc]
    exact hb
  · have hsys : instr.isSystem = false := Bool.eq_false_iff.mpr hsys
    have he : (T5Ctrl.decode X (s.inst.fpc.extractLsb 31 2) i.iwbDat (s.rs1d i.iwbDat)
        (s.rs2d i.iwbDat)).dexc = false := dexc_of_not_system X hw hsys
    rw [hexc.trans he, hwre]
    rcases trap_of_encodes X hw ht with ⟨h11, -, hmem⟩ | ⟨h00, -, hmem⟩
    · rw [h11]
      cases instr with
      | load | store => exact Bool.noConfusion hmem
      | ecall | ebreak | mret | csr => exact Bool.noConfusion hsys
      | lui | auipc | jal | jalr | branch | opImm | opReg | fence | fenceI => rfl
    · rw [h00]
      exact xwre_of_memory hw hmem

theorem InExecute.mtval (hs : T5Rv32i.Running s) (h : InExecute X s i x)
    (hw : Encodes i.iwbDat instr)
    (hi : instr.isMemory = true ∨ (instr.target (byteAdr (s.inst.fpc.extractLsb 31 2))
      (s.rs1d i.iwbDat) (s.rs2d i.iwbDat)).isSome = true) :
    x.aslu.xbpc ++ x.aslu.xoff = instr.faultAddress (byteAdr (s.inst.fpc.extractLsb 31 2))
      (s.rs1d i.iwbDat) (s.rs2d i.iwbDat) := by
  obtain ⟨dhart, csr, hexec, -⟩ := h.slot hs (rv32_of_encodes hw)
  rw [show x.aslu.xbpc = _ from congrArg Execute.xbpc hexec,
    show x.aslu.xoff = _ from congrArg Execute.xoff hexec]
  exact faultAddress_of_encodes X hw hi dhart csr

/-- An instruction that neither traps nor returns goes on at its next PC. -/
theorem branchCode_of_quiet {pc : BitVec 32} (ht : instr.traps pc a b = false)
    (hret : instr ≠ .mret) :
    branchCode instr pc a b =
      BitVec.ofBool (instr.target pc a b).isSome ++ BitVec.ofBool false := by
  rw [← (Instr.aligned_of_not_traps ht).1]
  cases instr with
  | ecall | ebreak => exact Bool.noConfusion ht
  | mret => exact absurd rfl hret
  | lui | auipc | jal | jalr | branch | load | store | opImm | opReg | fence | fenceI | csr => rfl

theorem InExecute.nextAdr_of_quiet (hs : T5Rv32i.Running s) (h : InExecute X s i x)
    (hw : Encodes i.iwbDat instr)
    (ht : instr.traps (byteAdr (s.inst.fpc.extractLsb 31 2)) (s.rs1d i.iwbDat)
      (s.rs2d i.iwbDat) = false) (hret : instr ≠ .mret)
    (hpc : x.ctrl.xpc = T5Ctrl.npc (s.inst.fpc.extractLsb 31 2)) :
    byteAdr x.nextAdr = instr.nextPc (byteAdr (s.inst.fpc.extractLsb 31 2)) (s.rs1d i.iwbDat)
      (s.rs2d i.iwbDat) := by
  obtain ⟨hbra, hstb⟩ := h.code hs hw
  rw [branchCode_of_quiet ht hret] at hbra
  obtain ⟨hjump, haccess⟩ := Instr.aligned_of_not_traps ht
  rw [haccess] at hstb
  rw [T5Rv32i.nextAdr, hbra, hpc, Instr.nextPc]
  cases htgt : instr.target (byteAdr (s.inst.fpc.extractLsb 31 2)) (s.rs1d i.iwbDat)
      (s.rs2d i.iwbDat) with
  | none => exact (congrArg byteAdr (nextAdr_of_straight hstb _ _ _ _)).trans (byteAdr_npc _)
  | some t =>
    obtain ⟨dhart, csr, hexec, -⟩ := h.slot hs (rv32_of_encodes hw)
    have hxbpc : x.aslu.xbpc = t.extractLsb 31 2 :=
      (congrArg Execute.xbpc hexec).trans (xbpc_of_target X hw htgt dhart csr)
    -- A target that does not trap is aligned.
    have haligned : t.extractLsb 1 0 = 0#2 :=
      (alignedTo_two_iff t).mp ((Instr.jumpMisaligned_eq_false_iff instr _ _ _).mp hjump t htgt)
    refine (congrArg byteAdr (nextAdr_of_jump hstb _ _ _ _)).trans ?_
    rw [hxbpc]
    exact byteAdr_extractLsb_of_low haligned

end Slot

/-! ## The edge out of the execute slot -/

namespace T5Rv32i

/-- The decode slot does not write any of the trap registers. -/
def TrapCsrsFree (x : T5Rv32i) : Prop :=
  wenable x.ctrl.toDecode csrMepc = false ∧ wenable x.ctrl.toDecode csrMcause = false ∧
    wenable x.ctrl.toDecode csrMtval = false

instance (x : T5Rv32i) : Decidable x.TrapCsrsFree := inferInstanceAs (Decidable (_ ∧ _ ∧ _))

variable {x : T5Rv32i} {l : Input}

theorem iwbAdr_step (X : DontCare) (ha : x.advancing l = true) (hl : l.sysRst = false) :
    (x.step X l).iwbAdr = x.nextAdr := by
  rw [iwbAdr, step_of_advancing X ha hl]
  rfl

theorem trapCsrs_step (X : DontCare) (ha : x.advancing l = true) (hfree : x.TrapCsrsFree) :
    trapCsrs (x.step X l).aslu.toCsr =
      (nextMepc x.csrInputs false (x.csrValue X) x.aslu.toCsr,
        nextMcause x.csrInputs false (x.csrValue X) x.aslu.toCsr,
        nextMtval x.csrInputs false (x.csrValue X) x.aslu.toCsr) := by
  rw [toCsr_step X ha]
  simp only [trapCsrs, nextCsr, hfree.1, hfree.2.1, hfree.2.2]
  rfl

theorem trapCsrs_step_of_quiet (X : DontCare) (ha : x.advancing l = true)
    (hfree : x.TrapCsrsFree) (hb : andR x.aslu.xbra = false) (hs : andR x.data.xstb = false) :
    trapCsrs (x.step X l).aslu.toCsr = trapCsrs x.aslu.toCsr := by
  obtain ⟨h1, h2, h3⟩ := next_of_quiet (e := x.csrInputs) (x.csrValue X) x.aslu.toCsr hb hs
  rw [trapCsrs_step X ha hfree, h1, h2, h3]
  rfl

end T5Rv32i

theorem nextAdr_of_trap {xbra xstb : BitVec 2}
    (h : (xbra = 0b11#2 ∧ andR xstb = false) ∨ (xbra = 0b00#2 ∧ andR xstb = true))
    (mtvec mepc : BitVec 32) (xbpc xpc : BitVec 30) :
    T5Inst.nextAdr xbra xstb mtvec mepc xbpc xpc = mtvec.extractLsb 31 2 := by
  unfold T5Inst.nextAdr
  rcases h with ⟨hb, hs⟩ | ⟨hb, hs⟩ <;> rw [hb, hs] <;> rfl

theorem nextAdr_of_return {xbra xstb : BitVec 2} (hb : xbra = 0b01#2) (hs : andR xstb = false)
    (mtvec mepc : BitVec 32) (xbpc xpc : BitVec 30) :
    T5Inst.nextAdr xbra xstb mtvec mepc xbpc xpc = mepc.extractLsb 31 2 := by
  unfold T5Inst.nextAdr
  rw [hb, hs]
  rfl

section Edge

variable {s d x : T5Rv32i} {i k l : Input} {instr : Instr}

/-- An instruction that traps. -/
theorem entry_of_trap (hs : Reachable X s) (hd : InDecode X s i d) (hx : InDecode X d k x)
    (ha : x.advancing l = true) (hl : l.sysRst = false) (hw : Encodes i.iwbDat instr)
    (hk : T5Ctrl.rv32 k.iwbDat = true) (hfree : x.TrapCsrsFree)
    (ht : instr.traps (byteAdr (s.inst.fpc.extractLsb 31 2)) (s.rs1d i.iwbDat)
      (s.rs2d i.iwbDat) = true) :
    (x.step X l).iwbAdr = x.aslu.mtvec.extractLsb 31 2 ∧
      (x.step X l).aslu.mepc = byteAdr (s.inst.fpc.extractLsb 31 2) ∧
      (x.step X l).aslu.mcause = instr.cause ∧
      (instr ≠ .ecall → instr ≠ .ebreak → (x.step X l).aslu.mtval =
        instr.faultAddress (byteAdr (s.inst.fpc.extractLsb 31 2)) (s.rs1d i.iwbDat)
          (s.rs2d i.iwbDat)) := by
  have htransit : Transit X s i d k x l (x.step X l) := ⟨hd, hx, .of_step ha hl⟩
  have hexec := hd.inExecute_next hx
  have hcases := hexec.trap_code hs.running hw ht
  have hone : andR x.csrInputs.xbra ≠ andR x.csrInputs.xstb := by
    show andR x.aslu.xbra ≠ andR x.data.xstb
    rcases hcases with ⟨hb, hst, -⟩ | ⟨hb, hst, -⟩ <;> rw [hb, hst] <;> decide
  obtain ⟨hmepc, hmcause, hmtval⟩ := next_of_trap (x.csrValue X) x.aslu.toCsr hone
  have hcsrs := T5Rv32i.trapCsrs_step X ha hfree
  rw [hmepc, hmcause, hmtval, hexec.recordedMcause hs hw ht] at hcsrs
  simp only [trapCsrs, Prod.mk.injEq] at hcsrs
  obtain ⟨h1, h2, h3⟩ := hcsrs
  refine ⟨?_, ?_, h2, fun hne hne' => ?_⟩
  · rw [T5Rv32i.iwbAdr_step X ha hl]
    exact nextAdr_of_trap (hcases.imp (fun h => ⟨h.1, h.2.1⟩) (fun h => ⟨h.1, h.2.1⟩)) _ _ _ _
  · refine h1.trans ?_
    show x.ctrl.xepc ++ 0#2 = _
    rw [(htransit.pcs hs.running (rv32_of_encodes hw)).2 hk]
    rfl
  · refine h3.trans ?_
    refine hexec.mtval hs.running hw ?_
    cases hm : instr.isMemory with
    | true => exact Or.inl rfl
    | false =>
      refine Or.inr (isSome_of_jumpMisaligned ?_)
      have hacc := Instr.accessMisaligned_of_not_memory hm (s.rs1d i.iwbDat)
      cases instr with
      | ecall => exact absurd rfl hne
      | ebreak => exact absurd rfl hne'
      | lui | auipc | jal | jalr | branch | load | store | opImm | opReg | fence | fenceI | mret
      | csr => simpa [Instr.traps, hacc] using ht

/-- An instruction that does not trap. -/
theorem entry_of_quiet (hs : Reachable X s) (hd : InDecode X s i d) (hx : InDecode X d k x)
    (ha : x.advancing l = true) (hl : l.sysRst = false) (hw : Encodes i.iwbDat instr)
    (hk : T5Ctrl.rv32 k.iwbDat = true) (hfree : x.TrapCsrsFree)
    (ht : instr.traps (byteAdr (s.inst.fpc.extractLsb 31 2)) (s.rs1d i.iwbDat)
      (s.rs2d i.iwbDat) = false) :
    trapCsrs (x.step X l).aslu.toCsr = trapCsrs x.aslu.toCsr ∧
      (instr = .mret → (x.step X l).iwbAdr = x.aslu.mepc.extractLsb 31 2) ∧
      (instr ≠ .mret → byteAdr (x.step X l).iwbAdr =
        instr.nextPc (byteAdr (s.inst.fpc.extractLsb 31 2)) (s.rs1d i.iwbDat)
          (s.rs2d i.iwbDat)) := by
  have htransit : Transit X s i d k x l (x.step X l) := ⟨hd, hx, .of_step ha hl⟩
  have hexec := hd.inExecute_next hx
  obtain ⟨hbra, hstb⟩ := hexec.code hs.running hw
  have hquiet : andR x.aslu.xbra = false ∧ andR x.data.xstb = false := by
    have htraps := (hexec.traps_and_returns hs hw).1
    rw [ht] at htraps
    exact Bool.or_eq_false_iff.mp htraps
  refine ⟨T5Rv32i.trapCsrs_step_of_quiet X ha hfree hquiet.1 hquiet.2, fun hret => ?_,
    fun hret => ?_⟩
  · subst hret
    rw [T5Rv32i.iwbAdr_step X ha hl]
    exact nextAdr_of_return hbra hquiet.2 _ _ _ _
  · have hpc := (htransit.pcs hs.running (rv32_of_encodes hw)).1
    rw [hk, if_pos rfl] at hpc
    rw [T5Rv32i.iwbAdr_step X ha hl]
    exact hexec.nextAdr_of_quiet hs.running hw ht hret hpc

end Edge

/-! ## Bubbles -/

/-- The execute slot holds what the reset left there or in the decode slot: the core
has advanced at most once. -/
def BubbleInExecute (X : DontCare) (x : T5Rv32i) : Prop :=
  ∃ p js, PostReset X p ∧ (∀ j ∈ js, j.sysRst = false) ∧ ((machine X).edges p js).length ≤ 1 ∧
    x = (machine X).run p js

theorem Pipe.AtReset.quiet {p : Pipe} (h : p.AtReset) {ks : List Sample} (hlen : ks.length ≤ 1) :
    andR (p.run X ks).aslu.xbra = false ∧ andR (p.run X ks).data.xstb = false := by
  cases ks with
  | nil =>
    rw [Pipe.run_nil, h.aslu, h.data]
    exact ⟨rfl, rfl⟩
  | cons k ks =>
    have hks : ks = [] := by
      rw [List.length_cons] at hlen
      exact List.length_eq_zero_iff.mp (by omega)
    subst hks
    have hexc : p.ctrl.dexc = false := by rw [h.ctrl]; rfl
    refine ⟨?_, h.bubble.andR_xstb⟩
    show andR (xbraNext p.ctrl.toDecode) = false
    rw [h.bubble.xbraNext, hexc]
    rfl

theorem entry_of_bubble {x : T5Rv32i} {l : Input} (hx : BubbleInExecute X x)
    (ha : x.advancing l = true) (hl : l.sysRst = false) (hfree : x.TrapCsrsFree) :
    trapCsrs (x.step X l).aslu.toCsr = trapCsrs x.aslu.toCsr ∧ (x.step X l).iwbAdr = 0#30 := by
  obtain ⟨p, js, hp, hjs, hlen, rfl⟩ := hx
  have hpipe := pipe_run hp.running hjs (X := X)
  have hsamples : (samples X p js).length ≤ 1 := by
    rwa [samples, Clocked.Refinement.samples, List.length_map]
  obtain ⟨hb, hs⟩ := hp.atReset.quiet (X := X) hsamples
  rw [← hpipe] at hb hs
  refine ⟨T5Rv32i.trapCsrs_step_of_quiet X ha hfree hb hs, ?_⟩
  have hstep : (((machine X).run p js).step X l).pipe =
      p.pipe.run X (samples X p js ++ [l.sample]) := by
    rw [T5Rv32i.pipe_step_of_advancing X (hp.reachable.run hjs).running.readSafe ha hl, hpipe,
      Pipe.run, Pipe.run, List.foldl_append]
    rfl
  have hlen' : (samples X p js ++ [l.sample]).length ≤ 2 := by
    rw [List.length_append, List.length_singleton]
    omega
  -- The third word would be that of hart 2, which is not covered here.
  have hthree (k₀ k₁ k₂ : Sample) (he : samples X p js ++ [l.sample] = [k₀, k₁, k₂]) : False := by
    rw [he] at hlen'
    exact absurd (show 3 ≤ 2 from hlen') (by decide)
  have hadr := (hp.atReset.run (X := X) (show (samples X p js ++ [l.sample]).length ≤ 3 by omega)
    (fun k₀ k₁ k₂ he => (hthree k₀ k₁ k₂ he).elim)).1
  rw [← hstep] at hadr
  exact hadr

/-- Trap entry.  An instruction leaves the execute slot with a word behind it that
ends in `11` and is not a CSR instruction for a trap register.  If it traps, its
hart goes to `mtvec` and `mepc`, `mcause` and `mtval` record the trap.  Otherwise, and
for a bubble, the three stay and the hart goes on where the instruction says. -/
theorem trap_entry (X : DontCare) :
    (∀ (s d x : T5Rv32i) (i k l : Input) (instr : Instr), Reachable X s → InDecode X s i d →
      InDecode X d k x → x.advancing l = true → l.sysRst = false → Encodes i.iwbDat instr →
      T5Ctrl.rv32 k.iwbDat = true → x.TrapCsrsFree →
      let pc := byteAdr (s.inst.fpc.extractLsb 31 2)
      let a := s.rs1d i.iwbDat
      let b := s.rs2d i.iwbDat
      let y := x.step X l
      y.inst.hart = s.owner ∧
      (instr.traps pc a b = true →
        y.iwbAdr = x.aslu.mtvec.extractLsb 31 2 ∧ y.aslu.mepc = pc ∧
        y.aslu.mcause = instr.cause ∧
        (instr ≠ .ecall → instr ≠ .ebreak → y.aslu.mtval = instr.faultAddress pc a b)) ∧
      (instr.traps pc a b = false →
        trapCsrs y.aslu.toCsr = trapCsrs x.aslu.toCsr ∧
        (instr = .mret → y.iwbAdr = x.aslu.mepc.extractLsb 31 2) ∧
        (instr ≠ .mret → byteAdr y.iwbAdr = instr.nextPc pc a b))) ∧
    (∀ (x : T5Rv32i) (l : Input), BubbleInExecute X x → x.advancing l = true →
      l.sysRst = false → x.TrapCsrsFree →
      trapCsrs (x.step X l).aslu.toCsr = trapCsrs x.aslu.toCsr ∧ (x.step X l).iwbAdr = 0#30) := by
  refine ⟨?_, fun x l hx ha hl hfree => entry_of_bubble hx ha hl hfree⟩
  intro s d x i k l instr hs hd hx ha hl hw hk hfree pc a b y
  have htransit : Transit X s i d k x l (x.step X l) := ⟨hd, hx, .of_step ha hl⟩
  exact ⟨(htransit.passage.owner hs.running).1,
    entry_of_trap hs hd hx ha hl hw hk hfree, entry_of_quiet hs hd hx ha hl hw hk hfree⟩

/-- `lw x1, 1(x0)` of hart 0 at address 0, with `mtvec` at zero. -/
theorem trap_entry_misaligned_load :
    let s := (machine default).run (coldStart default) [Input.fetch nop, Input.fetch nop]
    let d := s.step default (Input.fetch 0x00102083#32)
    let x := d.step default (Input.fetch nop)
    let y := x.step default { Input.fetch nop with dwbAck := true }
    y.iwbAdr = 0#30 ∧ y.aslu.mepc = 0#32 ∧ y.aslu.mcause = 4#4 ∧ y.aslu.mtval = 1#32 := by
  intro s d x y
  have hw : Encodes (Input.fetch 0x00102083#32).iwbDat (.load .lw 1#5 0#5 1#32) :=
    ⟨by decide, .load (by decide) (by decide)⟩
  have h := (trap_entry default).1 s d x (Input.fetch 0x00102083#32) (Input.fetch nop)
    { Input.fetch nop with dwbAck := true } _ (reachable_run_coldStart default (by decide))
    (.of_step (by decide +kernel) rfl) (.of_step (by decide +kernel) rfl) (by decide +kernel) rfl
    hw (by decide) (by decide +kernel)
  obtain ⟨hadr, hmepc, hmcause, hmtval⟩ := h.2.1 (by decide +kernel)
  exact ⟨hadr.trans (by decide +kernel), hmepc.trans (by decide +kernel), hmcause,
    (hmtval (by decide) (by decide)).trans (by decide +kernel)⟩

end Tra5
