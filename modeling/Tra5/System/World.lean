/-
The devices of the simulator and those of the machine.

The simulator keeps words and takes bits 30 down to 2 of an address, the machine keeps
bytes and takes an address as it is.  For addresses below `2 ^ 31` the two agree, access
by access.
-/
import Tra5.System.Machine
import Tra5.Sim.Round
import Tra5.Sim.Misaligned

namespace Tra5

open Rv32 T5Sim

structure WorldSees (w : World) (b : Bus) : Prop where
  mem : ∀ n < ramSize, w.ram.byte n = b.mem n
  mtime : w.mtime = b.mtime
  mtimecmp : w.mtimecmp = b.mtimecmp
  console : w.cerr = b.console

/-! ## Addresses -/

section Address

variable {x : BitVec 32}

theorem toNat_index_low (h : x.toNat < 2 ^ 31) :
    (index (x.extractLsb 31 2)).toNat = x.toNat / 4 := by
  rw [toNat_index (by rw [toNat_word]; omega), toNat_word]

theorem index_shiftLeft (h : x.toNat < 2 ^ 31) :
    index (x.extractLsb 31 2) <<< 2 = byteAdr (x.extractLsb 31 2) := by
  apply BitVec.eq_of_toNat_eq
  rw [BitVec.toNat_shiftLeft, toNat_index_low h, byteAdr, BitVec.toNat_append, toNat_word]
  simp only [BitVec.toNat_ofNat, Nat.shiftLeft_eq, Nat.zero_mod, Nat.or_zero]
  omega

theorem inBuf_index (h : x.toNat < 2 ^ 31) :
    inBuf (index (x.extractLsb 31 2)) = decide (x.toNat < ramSize) := by
  rw [inBuf, BitVec.toNat_shiftLeft, toNat_index_low h, Nat.shiftLeft_eq, ramSize]
  refine decide_eq_decide.mpr ?_
  omega

theorem index_eq_testEnd_iff (h : x.toNat < 2 ^ 31) :
    index (x.extractLsb 31 2) = testEnd ↔ x.toNat / 4 = testEnd.toNat := by
  rw [← BitVec.toNat_inj, toNat_index_low h]

end Address

/-! ## Words -/

theorem Ram.byte_word (r : Ram) {k j : Nat} (hj : j < 4) :
    r.byte (4 * k + j) = byteOf (r.word (BitVec.ofNat 32 k)) j := by
  rw [byte, show (4 * k + j) / 4 = k by omega, show (4 * k + j) % 4 = j by omega]

theorem Ram.word_eq_value (r : Ram) (k : Nat) :
    r.word (BitVec.ofNat 32 k) = Load.lw.value r.byte (4 * k) := by
  have hbyte (j : Nat) (hj : j < 4) := r.byte_word (k := k) hj
  have h0 : r.byte (4 * k) = byteOf (r.word (BitVec.ofNat 32 k)) 0 := hbyte 0 (by decide)
  rw [Load.value, h0, hbyte 1 (by decide), hbyte 2 (by decide), hbyte 3 (by decide), bytes_append]

namespace WorldSees

variable {w : World} {b : Bus}

theorem word_at (h : WorldSees w b) {k : Nat} (hk : k < 2 ^ 18) :
    w.ram.word (BitVec.ofNat 32 k) = Load.lw.value b.mem (4 * k) := by
  rw [w.ram.word_eq_value]
  refine Load.lw.value_congr (fun n h1 h2 => h.mem n ?_)
  have hlog : Load.lw.log2Size = 2 := rfl
  rw [hlog] at h2
  rw [ramSize]
  omega

/-- The instruction bus. -/
theorem word (h : WorldSees w b) {pc : BitVec 30} (hpc : pc.toNat < 2 ^ 18) :
    w.ram.word (index pc) = b.word pc := by
  have hk : index pc = BitVec.ofNat 32 pc.toNat := by
    apply BitVec.eq_of_toNat_eq
    rw [toNat_index (by omega), BitVec.toNat_ofNat]
    omega
  rw [hk]
  exact h.word_at hpc

theorem tick (h : WorldSees w b) : WorldSees w.tick b.tick :=
  ⟨h.mem, congrArg (· + 1#32) h.mtime, h.mtimecmp, h.console⟩

theorem readDevice (h : WorldSees w b) (adr : BitVec 32) : w.readDevice adr = b.readDevice adr := by
  rw [World.readDevice, Bus.readDevice, h.mtime, h.mtimecmp]

theorem writeDevice (h : WorldSees w b) (adr dat : BitVec 32) :
    WorldSees (w.writeDevice adr dat) (b.writeDevice adr dat) := by
  rw [World.writeDevice, Bus.writeDevice]
  by_cases hu : adr = uartBase
  · rw [if_pos hu, if_pos hu]
    exact ⟨h.mem, h.mtime, h.mtimecmp, congrArg (· ++ _) h.console⟩
  · rw [if_neg hu, if_neg hu]
    by_cases hm : adr = mtimeBase
    · rw [if_pos hm, if_pos hm]
      exact ⟨h.mem, rfl, h.mtimecmp, h.console⟩
    · rw [if_neg hm, if_neg hm]
      by_cases hc : adr = mtimecmpBase
      · rw [if_pos hc, if_pos hc]
        exact ⟨h.mem, h.mtime, rfl, h.console⟩
      · rw [if_neg hc, if_neg hc]
        exact h

/-! ## Accesses -/

section Access

variable {X : DontCare} {v a c : BitVec 32} {pc : BitVec 30}

/-- A load takes from the bus what the machine loads. -/
theorem load (h : WorldSees w b) {op : Load} {x : BitVec 32}
    (hal : alignedTo op.log2Size x = true) (hx : x.toNat < 2 ^ 31) {q : Request}
    (hq : q.adr = x.extractLsb 31 2) :
    op.value (fun n => byteOf (w.read q) (n % 4)) x.toNat = b.load op x := by
  rw [World.read, hq, inBuf_index hx, Bus.load]
  by_cases hin : x.toNat < ramSize
  · rw [if_pos (decide_eq_true hin), if_pos hin, w.ram.value_load op hal hin]
    refine op.value_congr (fun n _ hn => h.mem n ?_)
    exact lt_of_aligned (Load.log2Size_le op) hal hin hn
  · rw [if_neg (by rw [decide_eq_true_eq]; exact hin), if_neg hin, index_shiftLeft hx, h.readDevice]

theorem store (h : WorldSees w b) {op : Store} {q r : BitVec 5} {imm : BitVec 32}
    (hw : Encodes v (.store op q r imm)) (hal : alignedTo op.log2Size (a + imm) = true)
    (hx : (a + imm).toNat < 2 ^ 31) (e : Surroundings) :
    WorldSees (w.write (datapath X e pc v a c).request) (b.store op (a + imm) c) := by
  have hadr : (datapath X e pc v a c).request.adr = (a + imm).extractLsb 31 2 := by
    rw [request_of_store X hw]
  have hdto : (datapath X e pc v a c).request.dto = storeData op c := by
    rw [request_of_store X hw]
  rw [World.write, Bus.store, hadr, inBuf_index hx]
  by_cases hin : (a + imm).toNat < ramSize
  · rw [if_pos (decide_eq_true hin), if_pos hin]
    refine ⟨fun n hn => ?_, h.mtime, h.mtimecmp, h.console⟩
    refine (Ram.byte_store_of_encodes X w.ram hw hal hin e hn).trans ?_
    exact Memory.Write.apply_congr (h.mem n hn) rfl (fun _ => rfl)
  · rw [if_neg (by rw [decide_eq_true_eq]; exact hin), if_neg hin, hdto, index_shiftLeft hx]
    exact h.writeDevice _ _

/-- A misaligned store to the array has no lane selected. -/
theorem store_misaligned (h : WorldSees w b) {op : Store} {q r : BitVec 5} {imm : BitVec 32}
    (hw : Encodes v (.store op q r imm)) (hal : alignedTo op.log2Size (a + imm) = false)
    (hx : (a + imm).toNat < ramSize) (e : Surroundings) :
    WorldSees (w.write (datapath X e pc v a c).request) b := by
  have hreq := request_of_store X hw e pc a c
  have hsel : (datapath X e pc v a c).request.sel = T5Data.byteSelect _ :=
    congrArg Request.sel hreq
  have hbuf : inBuf (index (datapath X e pc v a c).request.adr) = true := by
    rw [hreq]
    show inBuf (index ((a + imm).extractLsb 31 2)) = true
    rw [inBuf_index (by rw [ramSize] at hx; omega)]
    exact decide_eq_true hx
  rw [World.write, if_pos hbuf]
  refine ⟨fun n hn => ?_, h.mtime, h.mtimecmp, h.console⟩
  have hnone : (datapath X e pc v a c).request.write.covers n = false := by
    show (_ && (datapath X e pc v a c).request.sel.getLsbD (n % 4)) = false
    rw [hsel, byteSelect_of_misaligned op hal, BitVec.getLsbD_zero, Bool.and_false]
  refine (Ram.byte_store w.ram hsel hn).trans ?_
  rw [Memory.Write.apply_of_not_covers hnone]
  exact h.mem n hn

end Access

end WorldSees

end Tra5
