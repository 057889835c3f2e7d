/-
The memory of the simulator.

`t5_sim.cc` keeps the memory as an array of words and merges a store into its word
with a `switch` on `dwb_sel`.  Seen through its bytes the array is the byte memory of
the instruction set: a store changes the bytes that it names and a load returns them,
for all widths and for any mixture of them.
-/
import Tra5.Isa.Memory
import Tra5.Datapath.Ordinary

namespace Tra5

open Rv32 Memory

/-! ## The array -/

/-- `RAMSIZE`, in bytes. -/
def ramSize : Nat := 2 ^ 20

/-- `ram[k]` for every index.  The buffer is the indices below `2 ^ 18`.  What happens at the
others is not defined by the source, and `Sim/Entry` says when the loop uses none of them. -/
def Ram : Type := BitVec 32 → BitVec 32

/-- The index that the simulator makes of an address port `[31:2]`. -/
def index (adr : BitVec 30) : BitVec 32 := adr.setWidth 32 &&& 0x1FFFFFFF#32

/-- `k << 2 < buf.size()` -/
def inBuf (k : BitVec 32) : Bool := decide ((k <<< 2).toNat < ramSize)

/-- The `switch` on `dwb_sel`.  It has no default. -/
def merge (sel : BitVec 4) (dat dto : BitVec 32) : BitVec 32 :=
  match sel with
  | 0xF#4 => dto
  | 0xC#4 => (dat &&& 0x0000FFFF#32) ||| (dto &&& 0xFFFF0000#32)
  | 0x3#4 => (dat &&& 0xFFFF0000#32) ||| (dto &&& 0x0000FFFF#32)
  | 0x1#4 => (dat &&& 0xFFFFFF00#32) ||| (dto &&& 0x000000FF#32)
  | 0x2#4 => (dat &&& 0xFFFF00FF#32) ||| (dto &&& 0x0000FF00#32)
  | 0x4#4 => (dat &&& 0xFF00FFFF#32) ||| (dto &&& 0x00FF0000#32)
  | 0x8#4 => (dat &&& 0x00FFFFFF#32) ||| (dto &&& 0xFF000000#32)
  | _ => dat

namespace Ram

def word (r : Ram) (k : BitVec 32) : BitVec 32 := r k

def set (r : Ram) (k v : BitVec 32) : Ram := fun j => if j = k then v else r j

/-- The word that a store leaves in the array. -/
def merged (r : Ram) (q : Request) : BitVec 32 := merge q.sel (r.word (index q.adr)) q.dto

def store (r : Ram) (q : Request) : Ram := r.set (index q.adr) (r.merged q)

/-- The word that the simulator puts on `dwb_dti` for an index. -/
def load (r : Ram) (k : BitVec 32) : BitVec 32 := if inBuf k then r.word k else 0#32

def byte (r : Ram) (n : Nat) : BitVec 8 := byteOf (r.word (BitVec.ofNat 32 (n / 4))) (n % 4)

end Ram

theorem toNat_index {adr : BitVec 30} (h : adr.toNat < 2 ^ 29) : (index adr).toNat = adr.toNat := by
  have hmask : (0x1FFFFFFF#32 : BitVec 32).toNat = 2 ^ 29 - 1 := rfl
  rw [index, BitVec.toNat_and, hmask, Nat.and_two_pow_sub_one_eq_mod, BitVec.toNat_setWidth]
  omega

theorem inBuf_of_lt {k : BitVec 32} (h : k.toNat < 2 ^ 18) : inBuf k = true := by
  rw [inBuf, decide_eq_true_eq, BitVec.toNat_shiftLeft, Nat.shiftLeft_eq, ramSize]
  omega

theorem inBuf_index_of_lt {adr : BitVec 30} (h : adr.toNat < 2 ^ 18) :
    inBuf (index adr) = true := by
  refine inBuf_of_lt ?_
  rw [toNat_index (by omega)]
  exact h

theorem lt_of_inBuf {adr : BitVec 30} (h : inBuf (index adr) = true) :
    (index adr).toNat < 2 ^ 18 := by
  have hle : (index adr).toNat ≤ 0x1FFFFFFF := by
    rw [index, BitVec.toNat_and]
    exact Nat.and_le_right
  rw [inBuf, decide_eq_true_eq, BitVec.toNat_shiftLeft, Nat.shiftLeft_eq, ramSize] at h
  omega

/-! ## Lanes -/

/-- The bits of a word that the `switch` takes from `dwb_dto`. -/
def laneMask (sel : BitVec 4) : BitVec 32 :=
  match sel with
  | 0xF#4 => 0xFFFFFFFF#32
  | 0xC#4 => 0xFFFF0000#32
  | 0x3#4 => 0x0000FFFF#32
  | 0x1#4 => 0x000000FF#32
  | 0x2#4 => 0x0000FF00#32
  | 0x4#4 => 0x00FF0000#32
  | 0x8#4 => 0xFF000000#32
  | _ => 0x00000000#32

theorem merge_eq (sel : BitVec 4) (dat dto : BitVec 32) :
    merge sel dat dto = (dat &&& ~~~ laneMask sel) ||| (dto &&& laneMask sel) := by
  unfold merge laneMask
  split
  case h_1 =>
    show dto = (dat &&& 0#32) ||| (dto &&& BitVec.allOnes 32)
    rw [BitVec.and_zero, BitVec.and_allOnes, BitVec.zero_or]
  case h_8 =>
    show dat = (dat &&& BitVec.allOnes 32) ||| (dto &&& 0#32)
    rw [BitVec.and_zero, BitVec.and_allOnes, BitVec.or_zero]
  all_goals rfl

theorem getLsbD_laneMask (lane : BitVec 4) {j i : Nat} (hj : j < 4) (hi : i < 8) :
    (laneMask (T5Data.byteSelect lane)).getLsbD (8 * j + i) =
      (T5Data.byteSelect lane).getLsbD j := by
  have h : ∀ (lane : BitVec 4) (j : Fin 4) (i : Fin 8),
      (laneMask (T5Data.byteSelect lane)).getLsbD (8 * j + i) =
        (T5Data.byteSelect lane).getLsbD j := by decide
  exact h lane ⟨j, hj⟩ ⟨i, hi⟩

/-- The `switch` takes the selected bytes, for every lane that `t5_data` drives. -/
theorem byteOf_merge (lane : BitVec 4) (dat dto : BitVec 32) {j : Nat} (hj : j < 4) :
    byteOf (merge (T5Data.byteSelect lane) dat dto) j =
      if (T5Data.byteSelect lane).getLsbD j then byteOf dto j else byteOf dat j := by
  rw [merge_eq]
  refine BitVec.eq_of_getLsbD_eq (fun i hi => ?_)
  have hlt : 8 * j + i < 32 := by omega
  rw [byteOf, BitVec.getLsbD_extractLsb', BitVec.getLsbD_or, BitVec.getLsbD_and,
    BitVec.getLsbD_and, BitVec.getLsbD_not, getLsbD_laneMask lane hj hi]
  cases (T5Data.byteSelect lane).getLsbD j <;> simp [byteOf, hi, hlt]

/-- The bytes that a request writes. -/
def Request.write (q : Request) : Write Nat (BitVec 8) :=
  { covers := fun n => n / 4 == (index q.adr).toNat && q.sel.getLsbD (n % 4)
    value := fun n => byteOf q.dto (n % 4) }

theorem Ram.byte_store (r : Ram) {q : Request} {lane : BitVec 4}
    (hsel : q.sel = T5Data.byteSelect lane) {n : Nat} (hn : n < ramSize) :
    (r.store q).byte n = q.write.apply r.byte n := by
  have hword : BitVec.ofNat 32 (n / 4) = index q.adr ↔ n / 4 = (index q.adr).toNat := by
    rw [← BitVec.toNat_inj, BitVec.toNat_ofNat, Nat.mod_eq_of_lt]
    rw [ramSize] at hn
    omega
  by_cases h : n / 4 = (index q.adr).toNat
  · have hbyte : (r.store q).byte n = byteOf (r.merged q) (n % 4) :=
      congrArg (byteOf · (n % 4)) (if_pos (hword.mpr h))
    have hold : r.byte n = byteOf (r.word (index q.adr)) (n % 4) := by rw [byte, hword.mpr h]
    have hcovers : q.write.covers n = (T5Data.byteSelect lane).getLsbD (n % 4) := by
      rw [← hsel]
      exact (congrArg (· && _) (beq_iff_eq.mpr h)).trans (Bool.true_and _)
    rw [hbyte, merged, hsel, byteOf_merge lane _ _ (Nat.mod_lt n (by decide)), ← hcovers, ← hold]
    rfl
  · have hbyte : (r.store q).byte n = r.byte n :=
      congrArg (byteOf · (n % 4)) (if_neg (mt hword.mp h))
    have hcovers : q.write.covers n = false :=
      (congrArg (· && _) (beq_false_of_ne h)).trans (Bool.false_and _)
    rw [hbyte, Write.apply_of_not_covers hcovers]

/-! ## Requests of loads and stores -/

variable {X : DontCare} {w a b : BitVec 32} {pc : BitVec 30}

/-- The bytes of the value on the lanes of the bus. -/
def storeData (op : Store) (b : BitVec 32) : BitVec 32 :=
  match op with
  | .sb => BitVec.replicate 4 (b.extractLsb 7 0)
  | .sh => BitVec.replicate 2 (b.extractLsb 15 0)
  | .sw => b

theorem xdatNext_of_store {d : Decode} {op : Store} (hsub : d.dsub = false) (h0 : d.dop1 = 0#32)
    (hf : d.dfn3 = op.funct3) : T5Aslu.xdatNext X d = storeData op d.dop2 := by
  have hlow : (T5Aslu.xadd d).extractLsb 31 0 = d.dop2 := by
    rw [T5Aslu.xadd_low_of_add hsub, h0, BitVec.zero_add]
  have hpart (k : Nat) (hk : k < 32) :
      (T5Aslu.xadd d).extractLsb k 0 = d.dop2.extractLsb k 0 := by
    refine BitVec.eq_of_getLsbD_eq (fun i hi => ?_)
    rw [← hlow]
    simp [show i < 32 by omega]
  unfold T5Aslu.xdatNext
  rw [hf]
  cases op with
  | sb => exact congrArg (BitVec.replicate 4) (hpart 7 (by decide))
  | sh => exact congrArg (BitVec.replicate 2) (hpart 15 (by decide))
  | sw => exact hlow

theorem request_of_store (X : DontCare) {op : Store} {q r : BitVec 5} {imm : BitVec 32}
    (hw : Encodes w (.store op q r imm)) (e : Surroundings) (pc : BitVec 30) (a b : BitVec 32) :
    (datapath X e pc w a b).request =
      { adr := (a + imm).extractLsb 31 2, dto := storeData op b
        sel := T5Data.byteSelect (op.funct3.extractLsb 1 0 ++ (a + imm).extractLsb 1 0)
        wre := true, stb := true } := by
  have hstb := strobe_of_encodes hw
  cases hw.format with
  | store h hf =>
    simp only [datapath, outcome, Request.mk.injEq]
    refine ⟨?_, ?_, ?_, ?_, (getLsbD_one_pair _ _).trans hstb⟩
    · rw [T5Ctrl.decode_store h]
      rfl
    · rw [T5Ctrl.decode_store h]
      exact xdatNext_of_store rfl rfl hf
    · show T5Data.byteSelect (T5Data.lane _) = _
      rw [T5Data.lane, xoff_eq, T5Ctrl.decode_store h, hf]
      rfl
    · show (opcode w).getLsbD 3 = true
      rw [h]
      rfl

/-- The request of a load, and what it makes of the word on the bus. -/
theorem outcome_of_load (X : DontCare) {op : Load} {r q : BitVec 5} {imm : BitVec 32}
    (hw : Encodes w (.load op r q imm)) (csr csr' : Csr) (dhart : BitVec 2) (dti : BitVec 32)
    (xpc : BitVec 30) :
    let d := T5Ctrl.decode X pc w a b
    let o := outcome X csr dti (T5Aslu.execute X dhart csr' d) (T5Data.advance d) xpc (rd w)
    let sel := T5Data.byteSelect (op.funct3.extractLsb 1 0 ++ (a + imm).extractLsb 1 0)
    (o.request.adr = (a + imm).extractLsb 31 2 ∧ o.request.wre = false) ∧
      o.rd = r ∧ o.value = T5Back.extend X sel op.funct3 dti := by
  intro d o sel
  cases hw.format with
  | load h hf =>
    have hadr : T5Aslu.xadr d = a + immI w := by
      rw [show d = _ from T5Ctrl.decode_load h]
      rfl
    refine ⟨⟨?_, ?_⟩, rfl, ?_⟩
    · show T5Aslu.xbpcNext csr' d = _
      rw [show d = _ from T5Ctrl.decode_load h]
      rfl
    · show (opcode w).getLsbD 3 = false
      rw [h]
      rfl
    · show T5Back.dmux (opcode w) (T5Back.extend X (T5Data.byteSelect (T5Data.lane d)) (funct3 w)
        dti) _ = _
      rw [T5Back.dmux, if_pos h, T5Data.lane, xoff_eq, hadr]
      show T5Back.extend X (T5Data.byteSelect ((funct3 w).extractLsb 1 0 ++ _)) (funct3 w) _ = _
      rw [hf]

theorem request_of_load (X : DontCare) {op : Load} {r q : BitVec 5} {imm : BitVec 32}
    (hw : Encodes w (.load op r q imm)) (e : Surroundings) (pc : BitVec 30) (a b : BitVec 32) :
    let o := datapath X e pc w a b
    o.request.adr = (a + imm).extractLsb 31 2 ∧ o.request.wre = false :=
  (outcome_of_load X hw e.executeCsr e.decodeCsr e.dhart e.dwbDti (T5Ctrl.npc pc)).1

theorem stb_of_load (X : DontCare) {op : Load} {r q : BitVec 5} {imm : BitVec 32}
    (hw : Encodes w (.load op r q imm)) (e : Surroundings) (pc : BitVec 30) (a b : BitVec 32) :
    (datapath X e pc w a b).request.stb = true :=
  (getLsbD_one_pair _ _).trans (strobe_of_encodes hw)

theorem wre_of_load (X : DontCare) {op : Load} {r q : BitVec 5} {imm : BitVec 32}
    (hw : Encodes w (.load op r q imm)) (hal : alignedTo op.log2Size (a + imm) = true)
    (csr csr' : Csr) (dhart : BitVec 2) (dti : BitVec 32) (xpc : BitVec 30) :
    let d := T5Ctrl.decode X pc w a b
    (outcome X csr dti (T5Aslu.execute X dhart csr' d) (T5Data.advance d) xpc (rd w)).wre =
      orR r := by
  have htrap : (Instr.load op r q imm).traps (byteAdr pc) a b = false := by
    rw [Instr.traps_of_not_system rfl]
    exact congrArg (!·) hal
  refine ((calm_of_ordinary X hw rfl htrap).outcome csr csr' dhart dti xpc (rd w)).2.1.trans ?_
  cases hw.format with
  | load h hf =>
    show (orR (rd w) && !T5Back.stype (opcode w) && !T5Back.btype (opcode w)) = _
    rw [h]
    exact (Bool.and_true _).trans (Bool.and_true _)

/-! ## Addresses -/

/-- An access of `2 ^ k` bytes at an aligned address stays within its word. -/
theorem offset_of_aligned {k : Nat} (hk : k ≤ 2) {x : BitVec 32} (h : alignedTo k x = true) :
    x.toNat % 4 + 2 ^ k ≤ 4 := by
  rw [alignedTo, beq_iff_eq] at h
  interval_cases k <;> omega

theorem lt_of_aligned {k : Nat} (hk : k ≤ 2) {x : BitVec 32} (h : alignedTo k x = true)
    (hx : x.toNat < ramSize) {n : Nat} (hn : n < x.toNat + 2 ^ k) : n < ramSize := by
  have := offset_of_aligned hk h
  rw [ramSize] at hx ⊢
  omega

theorem toNat_word (x : BitVec 32) : (x.extractLsb 31 2).toNat = x.toNat / 4 := by
  have := x.isLt
  rw [BitVec.extractLsb_toNat, Nat.shiftRight_eq_div_pow]
  omega

theorem toNat_offset (x : BitVec 32) : (x.extractLsb 1 0).toNat = x.toNat % 4 :=
  BitVec.extractLsb_toNat 1 0 x

theorem lt_ramSize_of_word {x : BitVec 32} (h : (x.extractLsb 31 2).toNat < 2 ^ 18) :
    x.toNat < ramSize := by
  rw [toNat_word] at h
  rw [ramSize]
  omega

theorem toNat_index_word {x : BitVec 32} (h : x.toNat < ramSize) :
    (index (x.extractLsb 31 2)).toNat = x.toNat / 4 := by
  rw [ramSize] at h
  rw [toNat_index (by rw [toNat_word]; omega), toNat_word]

/-! ## Stores -/

theorem byteSelect_store (op : Store) {y : BitVec 2} (hy : y.toNat % 2 ^ op.log2Size = 0) {j : Nat}
    (hj : j < 4) :
    (T5Data.byteSelect (op.funct3.extractLsb 1 0 ++ y)).getLsbD j =
      (decide (y.toNat ≤ j) && decide (j < y.toNat + 2 ^ op.log2Size)) := by
  have h : ∀ (y : BitVec 2) (j : Fin 4), y.toNat % 2 ^ op.log2Size = 0 →
      (T5Data.byteSelect (op.funct3.extractLsb 1 0 ++ y)).getLsbD j =
        (decide (y.toNat ≤ j) && decide (j < y.toNat + 2 ^ op.log2Size)) := by
    cases op <;> decide
  exact h y ⟨j, hj⟩ hy

theorem byteOf_storeData (op : Store) (b : BitVec 32) {y j : Nat}
    (hy : y % 2 ^ op.log2Size = 0) (h1 : y ≤ j) (h2 : j < y + 2 ^ op.log2Size) (hj : j < 4) :
    byteOf (storeData op b) j = byteOf b (j - y) := by
  refine BitVec.eq_of_getLsbD_eq (fun i hi => ?_)
  rw [byteOf, byteOf, BitVec.getLsbD_extractLsb', BitVec.getLsbD_extractLsb']
  cases op with
  | sb =>
    have h0 : j - y = 0 := by
      rw [Store.log2Size] at h2
      omega
    have hmod : (8 * j + i) % 8 = i := by omega
    rw [storeData, BitVec.getLsbD_replicate, hmod, h0, BitVec.getLsbD_extractLsb]
    simp [hi, show 8 * j + i < 32 by omega]
  | sh =>
    rw [Store.log2Size] at hy h2
    have hmod : (8 * j + i) % 16 = 8 * (j - y) + i := by omega
    rw [storeData, BitVec.getLsbD_replicate, hmod, BitVec.getLsbD_extractLsb]
    have hlt : 8 * (j - y) + i < 16 := by omega
    simp [hi, hlt, show 8 * j + i < 32 by omega]
  | sw =>
    rw [Store.log2Size] at hy
    rw [storeData, show y = 0 by omega, Nat.sub_zero]

theorem Store.log2Size_le (op : Store) : op.log2Size ≤ 2 := by cases op <;> decide

theorem Load.log2Size_le (op : Load) : op.log2Size ≤ 2 := by cases op <;> decide

/-- The request of an aligned store covers the bytes of the store, with their values. -/
theorem write_of_store (X : DontCare) {op : Store} {q r : BitVec 5} {imm : BitVec 32}
    (hw : Encodes w (.store op q r imm)) (hal : alignedTo op.log2Size (a + imm) = true)
    (hin : (a + imm).toNat < ramSize) (e : Surroundings) (pc : BitVec 30) (b : BitVec 32)
    (n : Nat) :
    let wr := (datapath X e pc w a b).request.write
    let st := op.write (a + imm).toNat b
    wr.covers n = st.covers n ∧ (st.covers n = true → wr.value n = st.value n) := by
  have hoff := offset_of_aligned (Store.log2Size_le op) hal
  have hlow : ((a + imm).extractLsb 1 0).toNat % 2 ^ op.log2Size = 0 := by
    rw [alignedTo_eq_low (Store.log2Size_le op), beq_iff_eq] at hal
    exact hal
  have hj : n % 4 < 4 := Nat.mod_lt n (by decide)
  rw [request_of_store X hw]
  constructor
  · simp only [Request.write, Store.write]
    rw [toNat_index_word hin, byteSelect_store op hlow hj, toNat_offset, Bool.eq_iff_iff]
    simp only [Bool.and_eq_true, beq_iff_eq, decide_eq_true_eq]
    omega
  · intro hc
    simp only [Store.write, Bool.and_eq_true, decide_eq_true_eq] at hc
    rw [toNat_offset] at hlow
    show byteOf (storeData op b) (n % 4) = byteOf b (n - (a + imm).toNat)
    rw [byteOf_storeData op b hlow (by omega) (by omega) hj]
    congr 1
    omega

theorem Ram.byte_store_of_encodes (X : DontCare) (ram : Ram) {op : Store} {q r : BitVec 5}
    {imm : BitVec 32} (hw : Encodes w (.store op q r imm))
    (hal : alignedTo op.log2Size (a + imm) = true) (hin : (a + imm).toNat < ramSize)
    (e : Surroundings) {n : Nat} (hn : n < ramSize) :
    (ram.store (datapath X e pc w a b).request).byte n =
      (op.write (a + imm).toNat b).apply ram.byte n := by
  obtain ⟨hcovers, hvalue⟩ := write_of_store X hw hal hin e pc b n
  have hsel : (datapath X e pc w a b).request.sel = T5Data.byteSelect _ :=
    congrArg Request.sel (request_of_store X hw e _ _ _)
  rw [Ram.byte_store ram hsel hn]
  exact Write.apply_congr rfl hcovers hvalue

/-! ## Loads -/

theorem fill_append_eq_signExtend {n m : Nat} (x : BitVec (m + 1)) :
    (BitVec.fill n (x.getLsbD m) ++ x).setWidth (n + (m + 1)) = x.signExtend (n + (m + 1)) := by
  refine BitVec.eq_of_getLsbD_eq (fun i hi => ?_)
  rw [BitVec.getLsbD_setWidth, BitVec.getLsbD_append, BitVec.getLsbD_signExtend,
    BitVec.getLsbD_fill, BitVec.msb_eq_getLsbD_last]
  by_cases h : i < m + 1
  · simp [h]
  · simp [h, hi, show i - (m + 1) < n by omega]

theorem extendByte_eq (u : Bool) (x : BitVec 8) :
    T5Back.extendByte u x = if u then x.setWidth 32 else x.signExtend 32 := by
  cases u with
  | true => exact (BitVec.setWidth_eq_append (by decide)).symm
  | false => exact (BitVec.setWidth_eq _).symm.trans (fill_append_eq_signExtend (n := 24) x)

theorem extendHalf_eq (u : Bool) (x : BitVec 16) :
    T5Back.extendHalf u x = if u then x.setWidth 32 else x.signExtend 32 := by
  cases u with
  | true => exact (BitVec.setWidth_eq_append (by decide)).symm
  | false => exact (BitVec.setWidth_eq _).symm.trans (fill_append_eq_signExtend (n := 16) x)

/-- The write-back stage extends the bytes at the address, taken from the word on the
bus. -/
theorem extend_of_aligned (X : DontCare) (op : Load) {x : BitVec 32}
    (h : alignedTo op.log2Size x = true) (dti : BitVec 32) :
    T5Back.extend X (T5Data.byteSelect (op.funct3.extractLsb 1 0 ++ x.extractLsb 1 0)) op.funct3
      dti = op.value (fun n => byteOf dti (n % 4)) x.toNat := by
  have hy : x.extractLsb 1 0 = BitVec.ofNat 2 (x.toNat % 4) := by
    refine BitVec.eq_of_toNat_eq ?_
    rw [toNat_offset, BitVec.toNat_ofNat]
    omega
  have hhalf (hh : x.toNat % 2 = 0) : (x.toNat % 4 = 0 ∨ x.toNat % 4 = 2) ∧
      byteOf dti ((x.toNat + 1) % 4) ++ byteOf dti (x.toNat % 4) =
        dti.extractLsb' (8 * (x.toNat % 4)) 16 := by
    refine ⟨by omega, ?_⟩
    rw [show (x.toNat + 1) % 4 = x.toNat % 4 + 1 by omega, byteOf_append]
  rw [alignedTo, beq_iff_eq] at h
  rw [hy]
  cases op with
  | lb =>
    have hk : x.toNat % 4 < 4 := Nat.mod_lt _ (by decide)
    rw [Load.value]
    generalize x.toNat % 4 = k at hk
    interval_cases k <;> exact extendByte_eq false _
  | lbu =>
    have hk : x.toNat % 4 < 4 := Nat.mod_lt _ (by decide)
    rw [Load.value]
    generalize x.toNat % 4 = k at hk
    interval_cases k <;> exact extendByte_eq true _
  | lh =>
    obtain ⟨hk, hbytes⟩ := hhalf h
    rw [Load.value, hbytes]
    rcases hk with hk | hk <;> rw [hk] <;> exact extendHalf_eq false _
  | lhu =>
    obtain ⟨hk, hbytes⟩ := hhalf h
    rw [Load.value, hbytes]
    rcases hk with hk | hk <;> rw [hk] <;> exact extendHalf_eq true _
  | lw =>
    have h : x.toNat % 4 = 0 := h
    rw [Load.value, h, show (x.toNat + 1) % 4 = 1 by omega, show (x.toNat + 2) % 4 = 2 by omega,
      show (x.toNat + 3) % 4 = 3 by omega, bytes_append]
    rfl

theorem value_of_load (X : DontCare) {op : Load} {r q : BitVec 5} {imm : BitVec 32}
    (hw : Encodes w (.load op r q imm)) (hal : alignedTo op.log2Size (a + imm) = true)
    (csr csr' : Csr) (dhart : BitVec 2) (dti : BitVec 32) (xpc : BitVec 30) :
    let d := T5Ctrl.decode X pc w a b
    (outcome X csr dti (T5Aslu.execute X dhart csr' d) (T5Data.advance d) xpc (rd w)).value =
      op.value (fun n => byteOf dti (n % 4)) (a + imm).toNat :=
  (outcome_of_load X hw csr csr' dhart dti xpc).2.2.trans (extend_of_aligned X op hal dti)

theorem datapath_of_load (X : DontCare) {op : Load} {r q : BitVec 5} {imm : BitVec 32}
    (hw : Encodes w (.load op r q imm)) (hal : alignedTo op.log2Size (a + imm) = true)
    (e : Surroundings) :
    (datapath X e pc w a b).value = op.value (fun n => byteOf e.dwbDti (n % 4)) (a + imm).toNat :=
  value_of_load X hw hal e.executeCsr e.decodeCsr e.dhart e.dwbDti (T5Ctrl.npc pc)

/-- The bytes of the word that the simulator puts on the bus are those at the address. -/
theorem Ram.value_load (ram : Ram) (op : Load) {x : BitVec 32}
    (hal : alignedTo op.log2Size x = true) (hin : x.toNat < ramSize) :
    op.value (fun n => byteOf (ram.load (index (x.extractLsb 31 2))) (n % 4)) x.toNat =
      op.value ram.byte x.toNat := by
  have hoff := offset_of_aligned (Load.log2Size_le op) hal
  have hk := toNat_index_word hin
  rw [ramSize] at hin
  have hbuf : inBuf (index (x.extractLsb 31 2)) = true := inBuf_of_lt (by rw [hk]; omega)
  refine op.value_congr (fun n h1 h2 => ?_)
  have hword : BitVec.ofNat 32 (n / 4) = index (x.extractLsb 31 2) := by
    rw [← BitVec.toNat_inj, hk, BitVec.toNat_ofNat]
    omega
  rw [load, if_pos hbuf, byte, hword]

/-! ## Sequences of accesses -/

/-- A load or a store that is aligned and in the buffer, with its operands and the rest
of the core. -/
structure Access where
  instr : Instr
  word : BitVec 32
  pc : BitVec 30
  a : BitVec 32
  b : BitVec 32
  around : Surroundings
  encodes : Encodes word instr
  isMemory : instr.isMemory = true
  aligned : instr.accessMisaligned a = false
  inRam : (instr.faultAddress (byteAdr pc) a b).toNat < ramSize

namespace Access

def address (c : Access) : Nat := (c.instr.faultAddress (byteAdr c.pc) c.a c.b).toNat

/-- The access as the core and the simulator perform it. -/
def onRam (X : DontCare) (ram : Ram) (c : Access) : Ram × Option (BitVec 32) :=
  let q := (datapath X c.around c.pc c.word c.a c.b).request
  if q.wre then (ram.store q, none)
  else
    let e := { c.around with dwbDti := ram.load (index q.adr) }
    (ram, some (datapath X e c.pc c.word c.a c.b).value)

/-- The access as a byte memory performs it. -/
def onBytes (m : Nat → BitVec 8) (c : Access) : (Nat → BitVec 8) × Option (BitVec 32) :=
  match c.instr with
  | .store op .. => ((op.write c.address c.b).apply m, none)
  | .load op .. => (m, some (op.value m c.address))
  | _ => (m, none)

theorem onRam_related (X : DontCare) {ram : Ram} {m : Nat → BitVec 8}
    (h : ∀ n < ramSize, ram.byte n = m n) (c : Access) :
    (∀ n < ramSize, (c.onRam X ram).1.byte n = (c.onBytes m).1 n) ∧
      (c.onRam X ram).2 = (c.onBytes m).2 := by
  obtain ⟨instr, w, pc, a, b, e, hw, hmem, hal, hin⟩ := c
  cases instr with
  | store op q r imm =>
    have hal : alignedTo op.log2Size (a + imm) = true := by
      simpa [Instr.accessMisaligned] using hal
    have hwre : (datapath X e pc w a b).request.wre = true := by rw [request_of_store X hw]
    rw [onRam, if_pos hwre]
    refine ⟨fun n hn => ?_, rfl⟩
    rw [Ram.byte_store_of_encodes X ram hw hal hin e hn]
    exact Write.apply_congr (h n hn) rfl (fun _ => rfl)
  | load op r q imm =>
    have hal : alignedTo op.log2Size (a + imm) = true := by
      simpa [Instr.accessMisaligned] using hal
    obtain ⟨hadr, hwre⟩ := request_of_load X hw e pc a b
    rw [onRam, if_neg (by rw [hwre]; exact Bool.false_ne_true)]
    refine ⟨h, congrArg some ?_⟩
    show (datapath X _ pc w a b).value = op.value m (a + imm).toNat
    rw [datapath_of_load X hw hal, hadr, ram.value_load op hal hin]
    exact op.value_congr (fun n _ hlt => h n (lt_of_aligned (Load.log2Size_le op) hal hin hlt))
  | lui | auipc | jal | jalr | branch | opImm | opReg | fence | fenceI | ecall | ebreak | mret
  | csr => exact Bool.noConfusion hmem

end Access

/-- In any sequence of accesses the loads return what they would return from a byte array. -/
theorem runAll_onRam (X : DontCare) (ram : Ram) (cs : List Access) :
    (runAll (Access.onRam X) ram cs).2 = (runAll Access.onBytes ram.byte cs).2 ∧
      ∀ n < ramSize, (runAll (Access.onRam X) ram cs).1.byte n =
        (runAll Access.onBytes ram.byte cs).1 n := by
  obtain ⟨hbytes, houts⟩ := runAll_related (f := Access.onRam X) (g := Access.onBytes)
    (R := fun (ram : Ram) m => ∀ n < ramSize, ram.byte n = m n)
    (fun _ _ c h => c.onRam_related X h) (fun n _ => rfl : ∀ n < ramSize, ram.byte n = ram.byte n)
    cs
  exact ⟨houts, hbytes⟩

end Tra5
