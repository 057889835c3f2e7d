/-
An instruction leaves the execute slot.

The datapath is compared with the machine of `Tra5.System.Machine`: for every instruction
that the machine allows, whatever it is, the next PC and the register write that the core
computes are those of the machine.  `Answers` collects what the rest of the core has to
contribute: the CSRs, and the word on the data bus for a load.
-/
import Tra5.System.Csrs
import Tra5.Trap.Registers
import Tra5.Datapath.Compute

namespace Tra5

open Rv32 T5Aslu T5Inst

variable {X : DontCare} {w a b : BitVec 32} {pc : BitVec 30} {i : Instr}

/-! ## The next PC -/

theorem extractLsb_byteAdr (p : BitVec 30) : (byteAdr p).extractLsb 31 2 = p :=
  extractLsb_adr p 0#2

theorem next_of_encodes (X : DontCare) (e : Surroundings) (hw : Encodes w i) (pc : BitVec 30)
    (a b : BitVec 32) :
    (datapath X e pc w a b).next =
      if i.traps (byteAdr pc) a b then e.executeCsr.mtvec.extractLsb 31 2
      else if i = .mret then e.executeCsr.mepc.extractLsb 31 2
      else (i.nextPc (byteAdr pc) a b).extractLsb 31 2 := by
  let d := T5Ctrl.decode X pc w a b
  show nextAdr (xbraNext d) (T5Data.advance d).xstb e.executeCsr.mtvec e.executeCsr.mepc
    (execute X e.dhart e.decodeCsr d).xbpc (T5Ctrl.npc pc) = _
  cases ht : i.traps (byteAdr pc) a b with
  | true =>
    rw [if_pos rfl]
    have hcode := trap_of_encodes X hw ht
    exact nextAdr_of_trap (hcode.imp (fun h => ⟨h.1, h.2.1⟩) (fun h => ⟨h.1, h.2.1⟩)) _ _ _ _
  | false =>
    rw [if_neg Bool.false_ne_true]
    have hstb : andR (T5Data.advance d).xstb = false :=
      (andR_xstb_of_encodes X hw).trans (Instr.aligned_of_not_traps ht).2
    by_cases hret : i = .mret
    · rw [if_pos hret]
      exact nextAdr_of_return ((xbraNext_eq_one_iff X hw).mpr hret) hstb _ _ _ _
    · have hbra : xbraNext d = _ := (xbraNext_of_encodes X hw).trans (branchCode_of_quiet ht hret)
      rw [if_neg hret, hbra, Instr.nextPc]
      cases htgt : i.target (byteAdr pc) a b with
      | none =>
        refine (nextAdr_of_straight hstb _ _ _ _).trans ?_
        rw [Option.getD_none, ← byteAdr_npc, extractLsb_byteAdr]
      | some t =>
        refine (nextAdr_of_jump hstb _ _ _ _).trans ?_
        exact xbpc_of_target X hw htgt e.dhart e.decodeCsr

/-! ## The register write -/

theorem wre_datapath (X : DontCare) (e : Surroundings) (pc : BitVec 30) (w a b : BitVec 32) :
    (datapath X e pc w a b).wre =
      T5Back.writes (T5Data.advance (T5Ctrl.decode X pc w a b)).xstb (rd w) (opcode w) := rfl

/-- The instruction names `x0` where the core would write and the manual would not. -/
def NamesZero (i : Instr) (w : BitVec 32) (trap : Bool) : Prop :=
  (trap = true → i.isJump = true → rd w = 0#5) ∧
    ∀ r, i = .fence r ∨ i = .fenceI r → r = 0#5

theorem not_wre_of_trap (e : Surroundings) (hw : Encodes w i)
    (ht : i.traps (byteAdr pc) a b = true) (hz : i.isJump = true → rd w = 0#5) :
    (datapath X e pc w a b).wre = false := by
  rw [wre_datapath]
  cases hj : i.isJump with
  | false => exact not_writes_of_trap X hw ht hj
  | true => rw [hz hj, writes_of_zero]

theorem not_wre_of_no_dest (e : Surroundings) (hw : Encodes w i) (hd : i.dest = none)
    (hf : ∀ r, i = .fence r ∨ i = .fenceI r → r = 0#5) :
    (datapath X e pc w a b).wre = false := by
  rw [wre_datapath]
  have hzero (h : rd w = 0#5) (x : BitVec 2) : T5Back.writes x (rd w) (opcode w) = false := by
    rw [h, writes_of_zero]
  cases hw.format with
  | lui | auipc | jal | jalr | load | opImm | opReg | csr =>
    exact absurd hd (Option.some_ne_none _)
  | branch h =>
    have hb : T5Back.btype (opcode w) = true := by rw [h]; rfl
    rw [T5Back.writes, hb, Bool.not_true, Bool.and_false]
  | store h =>
    have hs : T5Back.stype (opcode w) = true := by rw [h]; rfl
    rw [T5Back.writes, hs, Bool.not_true, Bool.and_false, Bool.false_and]
  | fence => exact hzero (hf _ (Or.inl rfl)) _
  | fenceI => exact hzero (hf _ (Or.inr rfl)) _
  | ecall h | ebreak h | mret h => exact hzero (by rw [h]; rfl) _

/-- The instructions with a destination are those of the integer datapath, the loads and
the CSR instructions. -/
theorem dest_cases {r : BitVec 5} (hd : i.dest = some r) :
    i.isCompute = true ∨ (∃ op q imm, i = .load op r q imm) ∨
      ∃ op isImm q num, i = .csr op isImm r q num := by
  cases i with
  | lui | auipc | jal | jalr | opImm | opReg => exact Or.inl rfl
  | load op r' q imm =>
    obtain rfl := Option.some.inj hd
    exact Or.inr (Or.inl ⟨op, q, imm, rfl⟩)
  | csr op isImm r' q num =>
    obtain rfl := Option.some.inj hd
    exact Or.inr (Or.inr ⟨op, isImm, q, num, rfl⟩)
  | branch | store | fence | fenceI | ecall | ebreak | mret =>
    exact absurd hd.symm (Option.some_ne_none r)

theorem wre_of_dest_some (e : Surroundings) (hw : Encodes w i) {r : BitVec 5}
    (hd : i.dest = some r) (ht : i.traps (byteAdr pc) a b = false) :
    (datapath X e pc w a b).wre = orR r ∧ (datapath X e pc w a b).rd = r := by
  refine ⟨?_, rd_of_dest hw hd⟩
  rcases dest_cases hd with hi | ⟨op, q, imm, rfl⟩ | ⟨op, isImm, q, num, rfl⟩
  · have hcalm := calm_of_ordinary X hw (isSystem_of_isCompute hi) ht
    have hout := hcalm.outcome (X := X) e.executeCsr e.decodeCsr e.dhart e.dwbDti
      (T5Ctrl.npc pc) (rd w)
    refine hout.2.1.trans ((wre_of_encodes hw hi).trans ?_)
    rw [hd]
    rfl
  · have hal : alignedTo op.log2Size (a + imm) = true := by
      simpa [Instr.accessMisaligned] using (Instr.aligned_of_not_traps ht).2
    exact wre_of_load X hw hal e.executeCsr e.decodeCsr e.dhart e.dwbDti (T5Ctrl.npc pc)
  · exact (outcome_of_csr X hw e.executeCsr e.decodeCsr e.dhart e.dwbDti (T5Ctrl.npc pc)).1

theorem value_of_isCompute (e : Surroundings) (hw : Encodes w i) (hi : i.isCompute = true)
    (hd : i.dest.isSome = true) :
    (datapath X e pc w a b).value = i.value (byteAdr pc) a b :=
  (value_of_ne_load (opcode_ne_load hw hi) _ _ _ _ _).trans
    (value_of_encodes e.dhart e.decodeCsr hw hi hd)

/-! ## The machine -/

namespace Soc

variable {s : Soc} {h : BitVec 2}

/-- The rest of the core answers the instruction `i` of the hart `h` as the machine does. -/
structure Answers (s : Soc) (h : BitVec 2) (i : Instr) (e : Surroundings) : Prop where
  csrs : CsrSees e.executeCsr (s.csrsIssued h i)
  read : ∀ op isImm r q num v, i = .csr op isImm r q num → s.csrs.read h num = some v →
    rcsr e.decodeCsr e.dhart num = v
  load : ∀ op r q imm, i = .load op r q imm → s.traps h i = false →
    op.value (fun n => byteOf e.dwbDti (n % 4)) (s.rs1 h + imm).toNat =
      s.bus.tick.load op (s.rs1 h + imm)

theorem Answers.next {e : Surroundings} (hans : s.Answers h i e) (hw : Encodes (s.word h) i) :
    (datapath X e (s.pc h) (s.word h) (s.rs1 h) (s.rs2 h)).next = s.nextPc h i := by
  rw [next_of_encodes X e hw, nextPc]
  show (if s.traps h i then _ else _) = _
  cases ht : s.traps h i with
  | true =>
    have hc := hans.csrs.mtvec
    rw [csrsIssued_of_traps ht] at hc
    rw [if_pos rfl, if_pos rfl, hc]
  | false =>
    rw [if_neg Bool.false_ne_true, if_neg Bool.false_ne_true]
    by_cases hret : i = .mret
    · have hc := hans.csrs.mepc
      subst hret
      rw [if_pos rfl, if_pos rfl, hc]
      rfl
    · rw [if_neg hret, if_neg hret]

/-- The value that is written to a destination other than `x0`. -/
theorem Answers.value {e : Surroundings} (hans : s.Answers h i e) (hw : Encodes (s.word h) i)
    {r : BitVec 5} (hd : i.dest = some r) (ht : s.traps h i = false)
    (hread : ∀ op isImm q num, i = .csr op isImm r q num → (s.csrs.read h num).isSome = true) :
    (datapath X e (s.pc h) (s.word h) (s.rs1 h) (s.rs2 h)).value = s.value h i := by
  rcases dest_cases hd with hi | ⟨op, q, imm, rfl⟩ | ⟨op, isImm, q, num, rfl⟩
  · rw [value_of_isCompute e hw hi (by rw [hd]; rfl)]
    cases i with
    | load | csr => exact absurd hi Bool.false_ne_true
    | lui | auipc | jal | jalr | branch | store | opImm | opReg | fence | fenceI | ecall | ebreak
    | mret => rfl
  · have hal : alignedTo op.log2Size (s.rs1 h + imm) = true := by
      simpa [Instr.accessMisaligned] using (Instr.aligned_of_not_traps ht).2
    exact (datapath_of_load X hw hal e).trans (hans.load op r q imm rfl ht)
  · obtain ⟨v, hv⟩ := Option.isSome_iff_exists.mp (hread op isImm q num rfl)
    refine (outcome_of_csr X hw e.executeCsr e.decodeCsr e.dhart e.dwbDti _).2.2.trans ?_
    rw [hans.read op isImm r q num v rfl hv]
    simp only [Soc.value, hv, Option.getD_some]

theorem get_regsAfter {r : BitVec 5} (hd : i.dest = some r) (ht : s.traps h i = false)
    (q : BitVec 5) :
    (s.regsAfter h i).get q = if r ≠ 0#5 ∧ q = r then s.value h i else (s.regs h).get q := by
  simp only [regsAfter, hd, ht, Bool.false_eq_true, if_false]
  rfl

theorem regsAfter_of_keep (hk : i.dest = none ∨ s.traps h i = true) :
    s.regsAfter h i = s.regs h := by
  rw [regsAfter]
  cases hd : i.dest with
  | none => rfl
  | some r =>
    rcases hk with hk | hk
    · rw [hd] at hk
      exact absurd hk (Option.some_ne_none r)
    · simp only [hk, if_true]

/-- The write port changes the registers of the hart as the machine does. -/
theorem Answers.registers {e : Surroundings} (hans : s.Answers h i e)
    (hw : Encodes (s.word h) i) (hz : NamesZero i (s.word h) (s.traps h i))
    (hread : ∀ op isImm r q num, i = .csr op isImm r q num → r ≠ 0#5 →
      (s.csrs.read h num).isSome = true) (q : BitVec 5) :
    let o := datapath X e (s.pc h) (s.word h) (s.rs1 h) (s.rs2 h)
    (if o.wre && q == o.rd then o.value else (s.regs h).get q) = (s.regsAfter h i).get q := by
  intro o
  have hkeep (hwre : o.wre = false) (hk : i.dest = none ∨ s.traps h i = true) :
      (if o.wre && q == o.rd then o.value else (s.regs h).get q) = (s.regsAfter h i).get q := by
    rw [hwre, Bool.false_and, if_neg Bool.false_ne_true, regsAfter_of_keep hk]
  cases ht : s.traps h i with
  | true => exact hkeep (not_wre_of_trap e hw ht (hz.1 ht)) (Or.inr ht)
  | false =>
    cases hd : i.dest with
    | none => exact hkeep (not_wre_of_no_dest e hw hd hz.2) (Or.inl hd)
    | some r =>
      obtain ⟨hwre, hrd⟩ := wre_of_dest_some (X := X) e hw hd ht
      rw [get_regsAfter hd ht, show o.wre = _ from hwre, show o.rd = _ from hrd]
      by_cases h0 : r = 0#5
      · rw [h0, show orR 0#5 = false from rfl, Bool.false_and, if_neg Bool.false_ne_true,
          if_neg fun hc => hc.1 rfl]
      · have hor : orR r = true := bne_iff_ne.mpr h0
        have hval : o.value = s.value h i := by
          refine hans.value hw hd ht (fun op isImm q' num hi => ?_)
          exact hread op isImm r q' num hi h0
        rw [hor, Bool.true_and, hval]
        by_cases hq : q = r
        · rw [if_pos (beq_iff_eq.mpr hq), if_pos ⟨h0, hq⟩]
        · rw [if_neg (mt beq_iff_eq.mp hq), if_neg fun hc => hq hc.2]

end Soc

end Tra5
