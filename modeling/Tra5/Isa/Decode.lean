/-
Decoding, and the registers of a hart.

`decode` is the function behind the relation `Encodes`: the two say the same of every
word, so a word encodes at most one instruction.  The decoder is assembled from one table
per function code.

A register file carries the fact that `x0` is zero.
-/
import Tra5.Isa.Exec

namespace Rv32

/-! ## Function codes -/

def Branch.ofFunct3 (f : BitVec 3) : Option Branch :=
  match f with
  | 0b000#3 => some .beq
  | 0b001#3 => some .bne
  | 0b100#3 => some .blt
  | 0b101#3 => some .bge
  | 0b110#3 => some .bltu
  | 0b111#3 => some .bgeu
  | _ => none

theorem Branch.ofFunct3_eq_some_iff {f : BitVec 3} {op : Branch} :
    Branch.ofFunct3 f = some op ↔ f = op.funct3 := by
  revert f
  cases op <;> decide

def Load.ofFunct3 (f : BitVec 3) : Option Load :=
  match f with
  | 0b000#3 => some .lb
  | 0b001#3 => some .lh
  | 0b010#3 => some .lw
  | 0b100#3 => some .lbu
  | 0b101#3 => some .lhu
  | _ => none

theorem Load.ofFunct3_eq_some_iff {f : BitVec 3} {op : Load} :
    Load.ofFunct3 f = some op ↔ f = op.funct3 := by
  revert f
  cases op <;> decide

def Store.ofFunct3 (f : BitVec 3) : Option Store :=
  match f with
  | 0b000#3 => some .sb
  | 0b001#3 => some .sh
  | 0b010#3 => some .sw
  | _ => none

theorem Store.ofFunct3_eq_some_iff {f : BitVec 3} {op : Store} :
    Store.ofFunct3 f = some op ↔ f = op.funct3 := by
  revert f
  cases op <;> decide

/-- The operations whose second function code is zero. -/
def Alu.ofBase (f : BitVec 3) : Alu :=
  match f with
  | 0b000#3 => .add
  | 0b001#3 => .sll
  | 0b010#3 => .slt
  | 0b011#3 => .sltu
  | 0b100#3 => .xor
  | 0b101#3 => .srl
  | 0b110#3 => .or
  | _ => .and

/-- The operations with bit 5 of the second function code set. -/
def Alu.ofAlternate (f : BitVec 3) : Option Alu :=
  match f with
  | 0b000#3 => some .sub
  | 0b101#3 => some .sra
  | _ => none

theorem Alu.ofBase_eq_iff {f : BitVec 3} {op : Alu} :
    Alu.ofBase f = op ↔ f = op.funct3 ∧ op.funct7 = 0b0000000#7 := by
  revert f
  cases op <;> decide

theorem Alu.ofAlternate_eq_some_iff {f : BitVec 3} {op : Alu} :
    Alu.ofAlternate f = some op ↔ f = op.funct3 ∧ op.funct7 = 0b0100000#7 := by
  revert f
  cases op <;> decide

theorem Alu.funct7_cases (op : Alu) : op.funct7 = 0b0000000#7 ∨ op.funct7 = 0b0100000#7 := by
  cases op <;> decide

/-- The operation of a register-register word. -/
def Alu.ofCodes (f : BitVec 3) (g : BitVec 7) : Option Alu :=
  if g = 0b0000000#7 then some (Alu.ofBase f)
  else if g = 0b0100000#7 then Alu.ofAlternate f
  else none

theorem Alu.ofCodes_eq_some_iff {f : BitVec 3} {g : BitVec 7} {op : Alu} :
    Alu.ofCodes f g = some op ↔ f = op.funct3 ∧ g = op.funct7 := by
  rw [Alu.ofCodes]
  by_cases h0 : g = 0b0000000#7
  · rw [if_pos h0, Option.some.injEq, Alu.ofBase_eq_iff, h0, eq_comm (b := op.funct7)]
  · rw [if_neg h0]
    by_cases h1 : g = 0b0100000#7
    · rw [if_pos h1, Alu.ofAlternate_eq_some_iff, h1, eq_comm (b := op.funct7)]
    · rw [if_neg h1]
      refine ⟨fun h => absurd h.symm (Option.some_ne_none op), fun h => ?_⟩
      rcases op.funct7_cases with hop | hop
      · exact absurd (h.2.trans hop) h0
      · exact absurd (h.2.trans hop) h1

/-- The operation of a register-immediate word.  Only the shifts have a second function
code, and there is no subtraction. -/
def Alu.ofImmCodes (f : BitVec 3) (g : BitVec 7) : Option Alu :=
  if (Alu.ofBase f).isShift then Alu.ofCodes f g else some (Alu.ofBase f)

theorem Alu.isShift_ofBase (op : Alu) (hsub : op ≠ .sub) :
    (Alu.ofBase op.funct3).isShift = op.isShift := by
  cases op with
  | sub => exact absurd rfl hsub
  | add | sll | slt | sltu | xor | srl | sra | or | and => rfl

theorem Alu.funct7_of_not_shift {op : Alu} (h : op.isShift = false) (hsub : op ≠ .sub) :
    op.funct7 = 0b0000000#7 := by
  cases op with
  | sub => exact absurd rfl hsub
  | sll | srl | sra => exact Bool.noConfusion h
  | add | slt | sltu | xor | or | and => rfl

theorem Alu.ofImmCodes_eq_some_iff {f : BitVec 3} {g : BitVec 7} {op : Alu} :
    Alu.ofImmCodes f g = some op ↔
      f = op.funct3 ∧ op ≠ .sub ∧ (op.isShift = true → g = op.funct7) := by
  rw [Alu.ofImmCodes]
  cases hs : (Alu.ofBase f).isShift with
  | true =>
    rw [if_pos rfl, Alu.ofCodes_eq_some_iff]
    constructor
    · rintro ⟨hf, hg⟩
      have hsub : op ≠ .sub := by
        rintro rfl
        rw [hf] at hs
        exact Bool.noConfusion hs
      exact ⟨hf, hsub, fun _ => hg⟩
    · rintro ⟨hf, hsub, hg⟩
      rw [hf, op.isShift_ofBase hsub] at hs
      exact ⟨hf, hg hs⟩
  | false =>
    rw [if_neg Bool.false_ne_true, Option.some.injEq, Alu.ofBase_eq_iff]
    constructor
    · rintro ⟨hf, h7⟩
      have hsub : op ≠ .sub := by
        rintro rfl
        exact absurd h7 (by decide)
      rw [hf, op.isShift_ofBase hsub] at hs
      exact ⟨hf, hsub, fun h => absurd (hs.symm.trans h) Bool.false_ne_true⟩
    · rintro ⟨hf, hsub, -⟩
      rw [hf, op.isShift_ofBase hsub] at hs
      exact ⟨hf, op.funct7_of_not_shift hs hsub⟩

/-! ## Words -/

/-- The instruction of a SYSTEM word. -/
def decodeSystem (w : BitVec 32) : Option Instr :=
  if w = 0x00000073#32 then some .ecall
  else if w = 0x00100073#32 then some .ebreak
  else if w = 0x30200073#32 then some .mret
  else (CsrOp.ofFunct3 (funct3 w)).map (fun k => .csr k.1 k.2 (rd w) (rs1 w) (csrNum w))

/-- The instruction whose fields the word has, its two low bits aside. -/
def decodeFormat (w : BitVec 32) : Option Instr :=
  match opcode w with
  | 0b01101#5 => some (.lui (rd w) (immU w))
  | 0b00101#5 => some (.auipc (rd w) (immU w))
  | 0b11011#5 => some (.jal (rd w) (immJ w))
  | 0b11001#5 => if funct3 w = 0b000#3 then some (.jalr (rd w) (rs1 w) (immI w)) else none
  | 0b11000#5 =>
    (Branch.ofFunct3 (funct3 w)).map (fun op => .branch op (rs1 w) (rs2 w) (immB w))
  | 0b00000#5 => (Load.ofFunct3 (funct3 w)).map (fun op => .load op (rd w) (rs1 w) (immI w))
  | 0b01000#5 => (Store.ofFunct3 (funct3 w)).map (fun op => .store op (rs1 w) (rs2 w) (immS w))
  | 0b00100#5 =>
    (Alu.ofImmCodes (funct3 w) (funct7 w)).map (fun op => .opImm op (rd w) (rs1 w) (immI w))
  | 0b01100#5 =>
    (Alu.ofCodes (funct3 w) (funct7 w)).map (fun op => .opReg op (rd w) (rs1 w) (rs2 w))
  | 0b00011#5 =>
    if funct3 w = 0b000#3 then some (.fence (rd w))
    else if funct3 w = 0b001#3 then some (.fenceI (rd w))
    else none
  | 0b11100#5 => decodeSystem w
  | _ => none

def decode (w : BitVec 32) : Option Instr :=
  if w.extractLsb 1 0 = 0b11#2 then decodeFormat w else none

theorem format_of_decodeSystem {w : BitVec 32} {i : Instr} (hop : opcode w = 0b11100#5)
    (h : decodeSystem w = some i) : Format w i := by
  rw [decodeSystem] at h
  split at h
  case isTrue hw =>
    obtain rfl := Option.some.inj h
    exact .ecall hw
  split at h
  case isTrue hw =>
    obtain rfl := Option.some.inj h
    exact .ebreak hw
  split at h
  case isTrue hw =>
    obtain rfl := Option.some.inj h
    exact .mret hw
  obtain ⟨⟨op, isImm⟩, hk, rfl⟩ := Option.map_eq_some_iff.mp h
  exact .csr hop (CsrOp.ofFunct3_eq_some_iff.mp hk)

theorem decodeSystem_of_csr {w : BitVec 32} {op : CsrOp} {isImm : Bool}
    (hf : funct3 w = op.funct3 isImm) :
    decodeSystem w = some (.csr op isImm (rd w) (rs1 w) (csrNum w)) := by
  have hne (v : BitVec 32) (hv : funct3 v = 0b000#3) : w ≠ v := by
    rintro rfl
    rw [hv] at hf
    exact absurd hf (by cases op <;> cases isImm <;> decide)
  rw [decodeSystem, if_neg (hne _ rfl), if_neg (hne _ rfl), if_neg (hne _ rfl),
    CsrOp.ofFunct3_eq_some_iff.mpr hf]
  rfl

theorem format_of_decodeFormat {w : BitVec 32} {i : Instr} (h : decodeFormat w = some i) :
    Format w i := by
  unfold decodeFormat at h
  split at h
  case h_1 ho =>
    obtain rfl := Option.some.inj h
    exact .lui ho
  case h_2 ho =>
    obtain rfl := Option.some.inj h
    exact .auipc ho
  case h_3 ho =>
    obtain rfl := Option.some.inj h
    exact .jal ho
  case h_4 ho =>
    obtain ⟨hf, hi⟩ := Option.ite_none_right_eq_some.mp h
    obtain rfl := Option.some.inj hi
    exact .jalr ho hf
  case h_5 ho =>
    obtain ⟨op, hf, rfl⟩ := Option.map_eq_some_iff.mp h
    exact .branch ho (Branch.ofFunct3_eq_some_iff.mp hf)
  case h_6 ho =>
    obtain ⟨op, hf, rfl⟩ := Option.map_eq_some_iff.mp h
    exact .load ho (Load.ofFunct3_eq_some_iff.mp hf)
  case h_7 ho =>
    obtain ⟨op, hf, rfl⟩ := Option.map_eq_some_iff.mp h
    exact .store ho (Store.ofFunct3_eq_some_iff.mp hf)
  case h_8 ho =>
    obtain ⟨op, hf, rfl⟩ := Option.map_eq_some_iff.mp h
    obtain ⟨hf3, hsub, hshift⟩ := Alu.ofImmCodes_eq_some_iff.mp hf
    exact .opImm ho hf3 hsub hshift
  case h_9 ho =>
    obtain ⟨op, hf, rfl⟩ := Option.map_eq_some_iff.mp h
    obtain ⟨hf3, hf7⟩ := Alu.ofCodes_eq_some_iff.mp hf
    exact .opReg ho hf3 hf7
  case h_10 ho =>
    split at h
    case isTrue hf =>
      obtain rfl := Option.some.inj h
      exact .fence ho hf
    obtain ⟨hf, hi⟩ := Option.ite_none_right_eq_some.mp h
    obtain rfl := Option.some.inj hi
    exact .fenceI ho hf
  case h_11 ho => exact format_of_decodeSystem ho h
  case h_12 => exact absurd h.symm (Option.some_ne_none i)

theorem decodeFormat_of_format {w : BitVec 32} {i : Instr} (h : Format w i) :
    decodeFormat w = some i := by
  unfold decodeFormat
  cases h with
  | lui ho | auipc ho | jal ho =>
    rw [ho]
    rfl
  | jalr ho hf =>
    rw [ho]
    exact if_pos hf
  | branch ho hf =>
    rw [ho, Branch.ofFunct3_eq_some_iff.mpr hf]
    rfl
  | load ho hf =>
    rw [ho, Load.ofFunct3_eq_some_iff.mpr hf]
    rfl
  | store ho hf =>
    rw [ho, Store.ofFunct3_eq_some_iff.mpr hf]
    rfl
  | opImm ho hf hsub hshift =>
    rw [ho, Alu.ofImmCodes_eq_some_iff.mpr ⟨hf, hsub, hshift⟩]
    rfl
  | opReg ho hf hf7 =>
    rw [ho, Alu.ofCodes_eq_some_iff.mpr ⟨hf, hf7⟩]
    rfl
  | fence ho hf =>
    rw [ho]
    exact if_pos hf
  | fenceI ho hf =>
    rw [ho]
    refine (if_neg ?_).trans (if_pos hf)
    rw [hf]
    decide
  | ecall hw | ebreak hw | mret hw =>
    subst hw
    rfl
  | csr ho hf =>
    rw [ho]
    exact decodeSystem_of_csr hf

/-- The decoder accepts exactly the encodings. -/
theorem decode_eq_some_iff {w : BitVec 32} {i : Instr} : decode w = some i ↔ Encodes w i := by
  rw [decode, Option.ite_none_right_eq_some]
  exact ⟨fun ⟨hlow, h⟩ => ⟨hlow, format_of_decodeFormat h⟩,
    fun h => ⟨h.low, decodeFormat_of_format h.format⟩⟩

example : decode 0x00508093#32 = some (.opImm .add 1#5 1#5 5#32) := by decide

/-! ## Source registers -/

def Instr.source1 : Instr → Option (BitVec 5)
  | .jalr _ q _ | .branch _ q _ _ | .load _ _ q _ | .store _ q _ _ | .opImm _ _ q _
  | .opReg _ _ q _ | .csr _ _ _ q _ => some q
  | _ => none

def Instr.source2 : Instr → Option (BitVec 5)
  | .branch _ _ r _ | .store _ _ r _ | .opReg _ _ _ r => some r
  | _ => none

theorem Encodes.rs1_eq {w : BitVec 32} {i : Instr} (hw : Encodes w i) {q : BitVec 5}
    (h : i.source1 = some q) : rs1 w = q := by
  cases hw.format with
  | jalr | branch | load | store | opImm | opReg | csr => exact Option.some.inj h
  | lui | auipc | jal | fence | fenceI | ecall | ebreak | mret => cases h

theorem Encodes.rs2_eq {w : BitVec 32} {i : Instr} (hw : Encodes w i) {r : BitVec 5}
    (h : i.source2 = some r) : rs2 w = r := by
  cases hw.format with
  | branch | store | opReg => exact Option.some.inj h
  | lui | auipc | jal | jalr | load | opImm | fence | fenceI | ecall | ebreak | mret | csr =>
    cases h

/-! ## Registers -/

/-- The registers of a hart.  Nothing can be written to `x0`. -/
structure Regs where
  get : BitVec 5 → BitVec 32
  zero : get 0#5 = 0#32

namespace Regs

def clear : Regs := ⟨fun _ => 0#32, rfl⟩

def set (r : Regs) (d : BitVec 5) (v : BitVec 32) : Regs where
  get q := if d ≠ 0#5 ∧ q = d then v else r.get q
  zero := by
    rw [if_neg fun h => h.1 h.2.symm]
    exact r.zero

theorem get_set (r : Regs) (d q : BitVec 5) (v : BitVec 32) :
    (r.set d v).get q = if d ≠ 0#5 ∧ q = d then v else r.get q := rfl

end Regs

end Rv32
