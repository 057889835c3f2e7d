/-
Words that do not end in `11`.

Such a word does not load the operands, the opcode and the function codes of the decode slot,
which keep the values of the word before it, and that was a word of another hart.  Behind a
store it makes the core issue the store again.  The zero word, with which the simulator fills
the array behind a program, is one of them.
-/
import Tra5.Hart.Start
import Tra5.Datapath.Ordinary
import Tra5.Pipeline.Slots

namespace Tra5

open Rv32

variable {X : DontCare}

/-- The word sets neither of the two flags that change an access. -/
structure Blank (w : BitVec 32) : Prop where
  rv32 : T5Ctrl.rv32 w = false
  dexc : (T5Ctrl.decode default 0#30 w 0#32 0#32).dexc = false
  dsub : (T5Ctrl.decode default 0#30 w 0#32 0#32).dsub = false

theorem blank_zero : Blank 0#32 := ⟨rfl, rfl, rfl⟩

namespace Pipe

/-- The access that the decode slot will make in the execute slot. -/
def issued (X : DontCare) (p : Pipe) : Request :=
  { adr := T5Aslu.xbpcNext p.aslu.toCsr p.ctrl.toDecode, dto := T5Aslu.xdatNext X p.ctrl.toDecode
    sel := T5Data.byteSelect (T5Data.lane p.ctrl.toDecode), wre := p.ctrl.dopc.getLsbD 3
    stb := T5Data.strobe p.ctrl.dopc }

theorem request_advance (p : Pipe) (k : Sample) : (p.advance X k).request = p.issued X := by
  have hstb : (p.advance X k).data.xstb.getLsbD 1 = T5Data.strobe p.ctrl.dopc :=
    getLsbD_one_pair _ _
  rw [request, hstb]
  rfl

/-- The flags that a blank word can set are not looked at. -/
theorem issued_congr {p p' : Pipe} (hd : p.ctrl.dexc = false) {dcsr dbra djmp : Bool}
    (h : p'.ctrl.toDecode = { p.ctrl.toDecode with dcsr, dbra, djmp }) :
    p'.issued X = p.issued X := by
  have hadr : T5Aslu.xbpcNext p'.aslu.toCsr p'.ctrl.toDecode =
      T5Aslu.xbpcNext p.aslu.toCsr p.ctrl.toDecode := by
    rw [h, T5Aslu.xbpcNext, T5Aslu.xbpcNext, hd, Bool.false_and]
    rfl
  rw [issued, hadr, h]
  rfl

/-- The decode slot is about to make the access, and its flags leave that alone. -/
structure Repeats (X : DontCare) (q : Request) (p : Pipe) : Prop where
  issued : p.issued X = q
  dexc : p.ctrl.dexc = false
  dsub : p.ctrl.dsub = false

theorem Repeats.advance {p : Pipe} {q : Request} (h : Repeats X q p) {k : Sample}
    (hk : Blank k.iwbDat) : Repeats X q (p.advance X k) := by
  let d := T5Ctrl.decode X (p.inst.fpc.extractLsb 31 2) k.iwbDat (p.rs1d k.iwbDat) (p.rs2d k.iwbDat)
  have hctrl : (p.advance X k).ctrl =
      { p.ctrl with
        dexc := d.dexc, dcsr := d.dcsr, dsub := d.dsub, dbra := d.dbra, djmp := d.djmp } :=
    if_neg (by rw [hk.rv32]; exact Bool.false_ne_true)
  have hexc : d.dexc = p.ctrl.dexc := Eq.trans hk.dexc h.dexc.symm
  have hsub : d.dsub = p.ctrl.dsub := Eq.trans hk.dsub h.dsub.symm
  have hdec : (p.advance X k).ctrl.toDecode =
      { p.ctrl.toDecode with dcsr := d.dcsr, dbra := d.dbra, djmp := d.djmp } := by
    rw [hctrl, hexc, hsub]
  refine ⟨(issued_congr h.dexc hdec).trans h.issued, ?_, ?_⟩
  · rw [hctrl]
    exact hk.dexc
  · rw [hctrl]
    exact hk.dsub

end Pipe

/-! ## Runs of blank words -/

/-- The execute slot makes the access and the decode slot is about to make it again. -/
structure Repeating (X : DontCare) (q : Request) (c : T5Rv32i) : Prop where
  running : T5Rv32i.Running c
  request : c.request = q
  repeats : Pipe.Repeats X q c.pipe

section Step

variable {c : T5Rv32i} {q : Request} {i : Input}

theorem Repeating.edge (h : Repeating X q c) (hi : i.sysRst = false) (ha : c.advancing i = true)
    (hb : Blank i.iwbDat) : Repeating X q (c.step X i) := by
  have hpipe := T5Rv32i.pipe_step_of_advancing X h.running.readSafe ha hi
  refine ⟨h.running.step X hi, ?_, ?_⟩
  · show (c.step X i).pipe.request = q
    rw [hpipe, Pipe.request_advance]
    exact h.repeats.issued
  · rw [hpipe]
    exact h.repeats.advance hb

theorem Repeating.stall (h : Repeating X q c) (hi : i.sysRst = false)
    (ha : c.advancing i = false) : Repeating X q (c.step X i) := by
  have hpipe : (c.step X i).pipe = c.pipe := (stallFree X).abs_stall c i h.running hi ha
  refine ⟨h.running.step X hi, ?_, ?_⟩
  · show (c.step X i).pipe.request = q
    rw [hpipe]
    exact h.request
  · rw [hpipe]
    exact h.repeats

end Step

/-- By induction on the run: every edge makes the access and leaves it to be made again. -/
theorem Repeating.trace {c : T5Rv32i} {q : Request} (h : Repeating X q c) {is : List Input}
    (his : ∀ i ∈ is, i.sysRst = false)
    (hb : (machine X).AtEdges c is (fun _ i => Blank i.iwbDat)) :
    ∀ e ∈ (machine X).trace c is, e.1.request = q := by
  refine (Clocked.Machine.trace_run (M := machine X) (A := fun i => i.sysRst = false)
    (P := fun c t => Repeating X q c ∧ ∀ e ∈ t, e.1.request = q) ?_ ?_
    (t := []) ⟨h, fun e he => absurd he List.not_mem_nil⟩ his hb).2
  · rintro c i t ⟨hc, ht⟩ hi ha hblank
    refine ⟨hc.edge hi ha hblank, fun e he => ?_⟩
    rcases List.mem_append.mp he with hmem | hlast
    · exact ht e hmem
    · obtain rfl := List.mem_singleton.mp hlast
      exact hc.request
  · rintro c i t ⟨hc, ht⟩ hi ha
    exact ⟨hc.stall hi ha, ht⟩

theorem InDecode.repeats {s d : T5Rv32i} {i : Input} (hs : T5Rv32i.Running s)
    (hd : InDecode X s i d) {op : Store} {q r : BitVec 5} {imm : BitVec 32}
    (hw : Encodes i.iwbDat (.store op q r imm)) :
    Pipe.Repeats X (d.pipe.issued X) d.pipe ∧ (d.pipe.issued X).stb = true ∧
      (d.pipe.issued X).wre = true := by
  have hopc : opcode i.iwbDat = 0b01000#5 := by cases hw.format with | store h => exact h
  have hctrl : d.pipe.ctrl.toDecode = _ :=
    (congrArg (fun p : Pipe => p.ctrl.toDecode) (hd.pipe hs)).trans (congrArg T5Ctrl.toDecode
      (Pipe.advance_ctrl_of_rv32 X s.pipe (k := i.sample) (rv32_of_encodes hw)))
  rw [show (i.sample).iwbDat = i.iwbDat from rfl, T5Ctrl.decode_store hopc] at hctrl
  refine ⟨⟨rfl, ?_, ?_⟩, ?_, ?_⟩
  · exact congrArg Decode.dexc hctrl
  · exact congrArg Decode.dsub hctrl
  · show T5Data.strobe d.pipe.ctrl.dopc = true
    rw [show d.pipe.ctrl.dopc = 0b01000#5 from congrArg Decode.dopc hctrl]
    rfl
  · show d.pipe.ctrl.dopc.getLsbD 3 = true
    rw [show d.pipe.ctrl.dopc = 0b01000#5 from congrArg Decode.dopc hctrl]
    rfl

/-- A store with blank words behind it, whatever harts they belong to.  From the edge at which
the store enters the execute slot on, every edge makes the access of the store, for as long as
there are blank words. -/
theorem blank_words_repeat_store (X : DontCare) {s d : T5Rv32i} {i k : Input}
    (hs : Reachable X s) (hd : InDecode X s i d) (ha : d.advancing k = true)
    (hk : k.sysRst = false) {op : Store} {q r : BitVec 5} {imm : BitVec 32}
    (hw : Encodes i.iwbDat (.store op q r imm)) (hb : Blank k.iwbDat) {is : List Input}
    (his : ∀ j ∈ is, j.sysRst = false)
    (hblank : (machine X).AtEdges (d.step X k) is (fun _ j => Blank j.iwbDat)) :
    (d.step X k).request.stb = true ∧ (d.step X k).request.wre = true ∧
    ((machine X).trace (d.step X k) is).map (fun e => e.1.request) =
      List.replicate ((machine X).edges (d.step X k) is).length (d.step X k).request := by
  have hrun := hd.running hs.running
  obtain ⟨hrep, hstb, hwre⟩ := hd.repeats hs.running hw
  have hpipe := T5Rv32i.pipe_step_of_advancing X hrun.readSafe ha hk
  have hreq : (d.step X k).request = d.pipe.issued X := by
    show (d.step X k).pipe.request = _
    rw [hpipe, Pipe.request_advance]
  have hx : Repeating X (d.pipe.issued X) (d.step X k) := by
    refine ⟨hrun.step X hk, hreq, ?_⟩
    rw [hpipe]
    exact hrep.advance hb
  rw [hreq]
  refine ⟨hstb, hwre, List.eq_replicate_iff.mpr ⟨?_, fun p hp => ?_⟩⟩
  · rw [List.length_map, ← Clocked.Machine.map_snd_trace, List.length_map]
  · obtain ⟨e, he, rfl⟩ := List.mem_map.mp hp
    exact hx.trace his hblank e he

/-- `sb x0, 0(x0)` of hart 0 at the end of a program, with all harts in zeros behind it. -/
theorem zero_words_repeat_store :
    let go : Input := { Input.fetch 0#32 with dwbAck := true }
    let s := (machine default).run (coldStart default) [Input.fetch nop, Input.fetch nop]
    let x := (s.step default (Input.fetch 0x00000023#32)).step default (Input.fetch 0#32)
    ((machine default).trace x [go, go, go]).map (fun e => e.1.request) =
      List.replicate 3 x.request := by
  intro go s x
  have hs : Reachable default s := reachable_run_coldStart default (by decide)
  have hd : InDecode default s (Input.fetch 0x00000023#32)
      (s.step default (Input.fetch 0x00000023#32)) := .of_step (by decide +kernel) rfl
  have hw : Encodes (Input.fetch 0x00000023#32).iwbDat (.store .sb 0#5 0#5 0#32) :=
    ⟨by decide, .store (by decide) (by decide)⟩
  have hblank : (machine default).AtEdges x [go, go, go] (fun _ j => Blank j.iwbDat) :=
    Clocked.Machine.AtEdges.of_index (by
      intro m _
      have hzero : ∀ m : Fin 3, ([go, go, go].get m).iwbDat = 0#32 := by decide
      rw [hzero m]
      exact blank_zero)
  have h := blank_words_repeat_store default hs hd (k := Input.fetch 0#32) (by decide +kernel) rfl
    hw blank_zero (by decide) hblank
  rw [h.2.2, show ((machine default).edges x [go, go, go]).length = 3 by decide +kernel]

end Tra5
