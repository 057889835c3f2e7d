/-
Misaligned stores on the bus of the simulator.

The core does not suppress the strobe of a misaligned store, it only drives `dwb_sel` to
zero.  The array is protected by this, since the `switch` over the lanes has no case for
it.  The word that ends a test and the devices are written whatever the lanes are.
-/
import Tra5.Sim.Reset
import Tra5.Pipeline.Bus

namespace Tra5

open Rv32

variable {X : DontCare}

/-! ## The request -/

theorem byteSelect_of_misaligned (op : Store) {x : BitVec 32}
    (h : alignedTo op.log2Size x = false) :
    T5Data.byteSelect (op.funct3.extractLsb 1 0 ++ x.extractLsb 1 0) = 0#4 := by
  rw [alignedTo_eq_low (Store.log2Size_le op)] at h
  generalize x.extractLsb 1 0 = y at h
  revert y
  cases op <;> decide

theorem InExecute.request_of_misaligned {s x : T5Rv32i} {i : Input} {op : Store} {q r : BitVec 5}
    {imm : BitVec 32} (hs : T5Rv32i.Running s) (h : InExecute X s i x)
    (hw : Encodes i.iwbDat (.store op q r imm))
    (hmis : alignedTo op.log2Size (s.rs1d i.iwbDat + imm) = false) :
    x.request =
      { adr := (s.rs1d i.iwbDat + imm).extractLsb 31 2, dto := storeData op (s.rs2d i.iwbDat)
        sel := 0#4, wre := true, stb := true } := by
  obtain ⟨dhart, csr, hexec, hdata⟩ := h.slot hs (rv32_of_encodes hw)
  have hreq := request_of_store X hw ⟨dhart, csr, default, 0#32⟩ (s.inst.fpc.extractLsb 31 2)
    (s.rs1d i.iwbDat) (s.rs2d i.iwbDat)
  rw [byteSelect_of_misaligned op hmis] at hreq
  rw [← hreq]
  show Request.mk x.aslu.toExecute.xbpc x.aslu.toExecute.xdat x.data.xsel x.data.xwre
    (x.data.xstb.getLsbD 1) = _
  rw [hexec, hdata]
  rfl

/-! ## The effect -/

namespace T5Sim

variable {t : T5Sim}

/-- The array, the timer registers and the output of the UART are the same. -/
structure SameOutside (t u : T5Sim) : Prop where
  ram : u.ram = t.ram
  mtime : u.mtime = t.mtime
  mtimecmp : u.mtimecmp = t.mtimecmp
  cerr : u.cerr = t.cerr

/-- Serving the data bus goes on with the loop and changes nothing outside the core. -/
def NoEffect (t : T5Sim) : Prop := ∃ u, t.dataBus = .ok u ∧ SameOutside t u

theorem sameOutside_setDadr {u : T5Sim} : SameOutside t.setDadr u ↔ SameOutside t u :=
  ⟨fun h => ⟨h.ram, h.mtime, h.mtimecmp, h.cerr⟩, fun h => ⟨h.ram, h.mtime, h.mtimecmp, h.cerr⟩⟩

theorem writeRam_of_testEnd (h : t.dadr = testEnd) : t.writeRam = .error t := by
  rw [writeRam, if_pos h]

/-- No lane is selected, so the word is written back as it was. -/
theorem sameOutside_writeRam (h : t.dadr ≠ testEnd) (hsel : t.cpu.dwbSel = 0#4) :
    ∃ u, t.writeRam = .ok u ∧ SameOutside t u := by
  have hset : t.ram.set t.dadr (t.ram.word t.dadr) = t.ram := by
    funext k
    rw [Ram.set]
    split
    · next hk => rw [hk, Ram.word]
    · rfl
  rw [writeRam, if_neg h, hsel]
  exact ⟨_, rfl, hset, rfl, rfl, rfl⟩

theorem sameOutside_writeIo :
    SameOutside t t.writeIo ↔
      t.dadr <<< 2 ≠ uartBase ∧ (t.dadr <<< 2 = mtimeBase → t.cpu.dwbDto = t.mtime) ∧
        (t.dadr <<< 2 = mtimecmpBase → t.cpu.dwbDto = t.mtimecmp) := by
  rw [writeIo]
  by_cases hu : t.dadr <<< 2 = uartBase
  · rw [if_pos hu]
    refine ⟨fun h => ?_, fun h => absurd hu h.1⟩
    have hlen := congrArg List.length h.cerr
    exact absurd hlen (by simp [print])
  · rw [if_neg hu]
    by_cases hm : t.dadr <<< 2 = mtimeBase
    · have hc : t.dadr <<< 2 ≠ mtimecmpBase := by rw [hm]; decide
      rw [if_pos hm]
      exact ⟨fun h => ⟨hu, fun _ => h.mtime, fun h => absurd h hc⟩,
        fun h => ⟨rfl, h.2.1 hm, rfl, rfl⟩⟩
    · rw [if_neg hm]
      by_cases hc : t.dadr <<< 2 = mtimecmpBase
      · rw [if_pos hc]
        exact ⟨fun h => ⟨hu, fun h => absurd h hm, fun _ => h.mtimecmp⟩,
          fun h => ⟨rfl, rfl, h.2.2 hc, rfl⟩⟩
      · rw [if_neg hc]
        exact ⟨fun _ => ⟨hu, fun h => absurd h hm, fun h => absurd h hc⟩,
          fun _ => ⟨rfl, rfl, rfl, rfl⟩⟩

/-- A store of `dat` to the word `k` with no lane selected would go unnoticed. -/
def Harmless (t : T5Sim) (k dat : BitVec 32) : Prop :=
  k ≠ testEnd ∧ k <<< 2 ≠ uartBase ∧ (k <<< 2 = mtimeBase → dat = t.mtime) ∧
    (k <<< 2 = mtimecmpBase → dat = t.mtimecmp)

instance (t : T5Sim) (k dat : BitVec 32) : Decidable (t.Harmless k dat) :=
  inferInstanceAs (Decidable (_ ∧ _))

theorem ne_of_inBuf {k c : BitVec 32} (h : inBuf k = true) (hc : ramSize ≤ c.toNat) :
    k <<< 2 ≠ c := by
  rintro rfl
  rw [inBuf, decide_eq_true_eq] at h
  omega

theorem noEffect_of_store (hs : t.cpu.dwbStb = true) (hw : t.cpu.dwbWre = true)
    (hack : t.dwbAck = true) (hsel : t.cpu.dwbSel = 0#4) :
    NoEffect t ↔ t.Harmless (index t.cpu.dwbAdr) t.cpu.dwbDto := by
  rw [NoEffect, dataBus_of_store hs hack hw, Harmless]
  by_cases hbuf : inBuf (index t.cpu.dwbAdr) = true
  · rw [if_pos (show inBuf t.setDadr.dadr = true from hbuf)]
    by_cases hend : index t.cpu.dwbAdr = testEnd
    · rw [writeRam_of_testEnd (t := t.setDadr) hend]
      refine ⟨?_, fun h => absurd hend h.1⟩
      rintro ⟨u, hu, -⟩
      cases hu
    · obtain ⟨u, hu, hsame⟩ := sameOutside_writeRam (t := t.setDadr) hend hsel
      refine ⟨fun _ => ⟨hend, ne_of_inBuf hbuf (by decide), ?_, ?_⟩,
        fun _ => ⟨u, hu, sameOutside_setDadr.mp hsame⟩⟩
      · exact fun h => absurd h (ne_of_inBuf hbuf (by decide))
      · exact fun h => absurd h (ne_of_inBuf hbuf (by decide))
  · rw [if_neg (show ¬ inBuf t.setDadr.dadr = true from hbuf)]
    have hend : index t.cpu.dwbAdr ≠ testEnd := by
      intro h
      rw [h] at hbuf
      exact hbuf (by decide)
    have hio := sameOutside_writeIo (t := t.setDadr)
    constructor
    · rintro ⟨u, hu, hsame⟩
      cases hu
      exact ⟨hend, hio.mp (sameOutside_setDadr.mpr hsame)⟩
    · intro h
      exact ⟨_, rfl, sameOutside_setDadr.mp (hio.mpr h.2)⟩

end T5Sim

/-- The bus cycle of a misaligned store has no effect outside the core, unless it is
acknowledged and its word is the one that ends a test, the UART or a timer register with
another value. -/
theorem misaligned_store_iff (X : DontCare) {s : T5Rv32i} (hs : Reachable X s) {i : Input}
    {t : T5Sim} (hx : InExecute X s i t.cpu) {op : Store} {q r : BitVec 5} {imm : BitVec 32}
    (hw : Encodes i.iwbDat (.store op q r imm))
    (hmis : alignedTo op.log2Size (s.rs1d i.iwbDat + imm) = false) :
    t.NoEffect ↔ (t.dwbAck = true →
      t.Harmless (index ((s.rs1d i.iwbDat + imm).extractLsb 31 2))
        (storeData op (s.rs2d i.iwbDat))) := by
  have hreq := hx.request_of_misaligned hs.running hw hmis
  have hstb : t.cpu.dwbStb = true := congrArg Request.stb hreq
  have hwre : t.cpu.dwbWre = true := congrArg Request.wre hreq
  have hsel : t.cpu.dwbSel = 0#4 := congrArg Request.sel hreq
  have hadr : t.cpu.dwbAdr = _ := congrArg Request.adr hreq
  have hdto : t.cpu.dwbDto = _ := congrArg Request.dto hreq
  cases hack : t.dwbAck with
  | false =>
    refine ⟨fun _ h => absurd h Bool.false_ne_true, fun _ => ?_⟩
    exact ⟨_, T5Sim.dataBus_of_wait hstb hack, rfl, rfl, rfl, rfl⟩
  | true =>
    rw [T5Sim.noEffect_of_store hstb hwre hack hsel, hadr, hdto]
    exact ⟨fun h _ => h, fun h => h rfl⟩

/-- `sw x0, 2(x0)`, the last round of its bus cycle. -/
theorem misaligned_store_iff_sw :
    let image : Ram := fun _ => 0x00002123#32
    ∃ (b t : T5Sim) (e : T5Rv32i × Input), T5Sim.Boots default (T5Sim.entered image) b ∧
      Loop.steps (T5Sim.round default) 4 b = some t ∧ InExecute default e.1 e.2 t.cpu ∧
      e.2.iwbDat = 0x00002123#32 ∧ t.dwbAck = true ∧ t.NoEffect := by
  intro image
  let b := Loop.after (T5Sim.round default) 9 (T5Sim.entered image)
  let t := Loop.after (T5Sim.round default) 4 b
  let e := (b.trace default 4).getD 0 default
  have hb : T5Sim.Boots default (T5Sim.entered image) b :=
    ⟨⟨rfl, rfl⟩, Loop.steps_eq_after (by decide +kernel)⟩
  have ht : Loop.steps (T5Sim.round default) 4 b = some t :=
    Loop.steps_eq_after (by decide +kernel)
  have hword : e.2.iwbDat = 0x00002123#32 := by decide +kernel
  have hw : Encodes e.2.iwbDat (.store .sw 0#5 0#5 2#32) := by
    rw [hword]
    exact ⟨by decide, .store (by decide) (by decide)⟩
  have hslot : Reachable default e.1 ∧ InExecute default e.1 e.2 t.cpu :=
    hb.inExecute ht (show (b.trace default 4).length = 0 + 2 by decide +kernel)
  have hmis : alignedTo Store.sw.log2Size (e.1.rs1d e.2.iwbDat + 2#32) = false := by
    decide +kernel
  have hharmless : t.Harmless (index ((e.1.rs1d e.2.iwbDat + 2#32).extractLsb 31 2))
      (storeData .sw (e.1.rs2d e.2.iwbDat)) := by decide +kernel
  exact ⟨b, t, e, hb, ht, hslot.2, hword, by decide +kernel,
    (misaligned_store_iff default hslot.1 hslot.2 hw hmis).mpr (fun _ => hharmless)⟩

/-- `sw x0, 2(x1)` with 0x1000 in `x1`, after `lui x1, 1`, ends the simulation. -/
theorem misaligned_store_ends_test :
    let image : Ram := fun k =>
      if k = 0#32 then 0x000010B7#32 else if k = 1#32 then 0x0000A123#32 else 0x00000013#32
    ∃ (b t : T5Sim) (e : T5Rv32i × Input), T5Sim.Boots default (T5Sim.entered image) b ∧
      Loop.steps (T5Sim.round default) 8 b = some t ∧ InExecute default e.1 e.2 t.cpu ∧
      Encodes e.2.iwbDat (.store .sw 1#5 0#5 2#32) ∧ e.1.rs1d e.2.iwbDat + 2#32 = 0x1002#32 ∧
      (t.round default).isOk = false ∧ ¬ t.NoEffect := by
  intro image
  let b := Loop.after (T5Sim.round default) 9 (T5Sim.entered image)
  let t := Loop.after (T5Sim.round default) 8 b
  let e := (b.trace default 8).getD 4 default
  have hb : T5Sim.Boots default (T5Sim.entered image) b :=
    ⟨⟨rfl, rfl⟩, Loop.steps_eq_after (by decide +kernel)⟩
  have ht : Loop.steps (T5Sim.round default) 8 b = some t :=
    Loop.steps_eq_after (by decide +kernel)
  have hword : e.2.iwbDat = 0x0000A123#32 := by decide +kernel
  have hw : Encodes e.2.iwbDat (.store .sw 1#5 0#5 2#32) := by
    rw [hword]
    exact ⟨by decide, .store (by decide) (by decide)⟩
  have hleft : t.dataBus.isOk = false := by decide +kernel
  refine ⟨b, t, e, hb, ht, (hb.inExecute ht (show (b.trace default 8).length = 4 + 2 by
    decide +kernel)).2, hw, by decide +kernel, by decide +kernel, ?_⟩
  rintro ⟨u, hu, -⟩
  rw [hu] at hleft
  cases hleft

end Tra5
