/-
The effects of a run outside the core.

At every edge of the pipeline the access of the execute slot is performed, once and in
this order, whatever the words are that the harts execute.  The compare register of the
timer is among the places that can be written, but nothing else depends on it: no
interrupt is ever raised.
-/
import Tra5.Sim.Progress

namespace Tra5

open T5Sim

/-! ## Effects in order -/

/-- The character that an access sends to the UART. -/
def Request.char (q : Request) : Option (BitVec 8) :=
  if q.stb && q.wre && index q.adr <<< 2 == uartBase then some (q.dto.extractLsb 7 0) else none

namespace World

def perform (w : World) (q : Request) : World := if q.stb && q.wre then w.write q else w

/-- The two agree on everything but the clock of the timer. -/
structure SameButTime (v w : World) : Prop where
  ram : v.ram = w.ram
  mtimecmp : v.mtimecmp = w.mtimecmp
  cerr : v.cerr = w.cerr

theorem SameButTime.trans {v w x : World} (h : SameButTime v w) (h' : SameButTime w x) :
    SameButTime v x :=
  ⟨h.ram.trans h'.ram, h.mtimecmp.trans h'.mtimecmp, h.cerr.trans h'.cerr⟩

theorem SameButTime.writeDevice {v w : World} (h : SameButTime v w) (adr dat : BitVec 32) :
    SameButTime (v.writeDevice adr dat) (w.writeDevice adr dat) := by
  rw [World.writeDevice, World.writeDevice]
  split_ifs
  · exact ⟨h.ram, h.mtimecmp, by rw [h.cerr]⟩
  · exact ⟨h.ram, h.mtimecmp, h.cerr⟩
  · exact ⟨h.ram, rfl, h.cerr⟩
  · exact h

theorem SameButTime.perform {v w : World} (h : SameButTime v w) (q : Request) :
    SameButTime (v.perform q) (w.perform q) := by
  have hwrite : SameButTime (v.write q) (w.write q) := by
    rw [write, write]
    split
    · exact ⟨by rw [h.ram], h.mtimecmp, h.cerr⟩
    · exact h.writeDevice _ _
  rw [World.perform, World.perform]
  split
  · exact hwrite
  · exact h

theorem SameButTime.replay {v w : World} (h : SameButTime v w) (qs : List Request) :
    SameButTime (qs.foldl World.perform v) (qs.foldl World.perform w) := by
  induction qs generalizing v w with
  | nil => exact h
  | cons q qs ih => exact ih (h.perform q)

theorem SameButTime.tick {v w : World} (h : SameButTime v w) : SameButTime v.tick w :=
  ⟨h.ram, h.mtimecmp, h.cerr⟩

theorem cerr_perform (w : World) (q : Request) : (w.perform q).cerr = w.cerr ++ q.char.toList := by
  rw [perform, Request.char]
  cases hst : (q.stb && q.wre) with
  | false => exact (List.append_nil _).symm
  | true =>
    by_cases hu : index q.adr <<< 2 = uartBase
    · have hbuf : inBuf (index q.adr) = false := by
        rw [inBuf, hu]
        decide
      rw [if_pos rfl, write, hbuf, if_neg Bool.false_ne_true, writeDevice, if_pos hu,
        Bool.true_and, if_pos (beq_iff_eq.mpr hu)]
      rfl
    · rw [if_pos rfl, Bool.true_and, if_neg (mt beq_iff_eq.mp hu)]
      refine Eq.trans ?_ (List.append_nil _).symm
      rw [write, writeDevice, if_neg hu]
      split_ifs <;> rfl

theorem cerr_replay (w : World) (qs : List Request) :
    (qs.foldl perform w).cerr = w.cerr ++ qs.filterMap Request.char := by
  induction qs generalizing w with
  | nil => exact (List.append_nil _).symm
  | cons q qs ih =>
    rw [List.foldl_cons, ih, cerr_perform, List.append_assoc, List.filterMap_cons]
    cases q.char <;> rfl

end World

namespace T5Sim

variable {X : DontCare} {s t : T5Sim}

/-- The accesses of the execute slot at the edges of the first rounds. -/
def requests (X : DontCare) (n : Nat) (s : T5Sim) : List Request :=
  (s.trace X n).map (fun e => e.1.request)

theorem requests_succ (h : s.round X = .ok t) (n : Nat) :
    s.requests X (n + 1) =
      if s.cpu.advancing s.edgeInput then s.cpu.request :: t.requests X n else t.requests X n := by
  rw [requests, trace_succ h]
  split <;> rfl

/-- A round performs the access of the execute slot if it is an edge, and none if not. -/
theorem Steady.served (h : s.Steady) (ho : Onward X s t) :
    s.served = if s.cpu.advancing s.edgeInput then s.world.perform s.cpu.request else s.world := by
  have hst : s.cpu.request.stb = s.cpu.dwbStb := rfl
  have hwr : s.cpu.request.wre = s.cpu.dwbWre := rfl
  rw [advancing_of_steady h ho, T5Sim.served, completes, World.perform, hst, hwr]
  have hack := h.strobed
  revert hack
  cases s.cpu.dwbStb <;> cases s.cpu.dwbWre <;> cases s.dwbAck <;> simp

theorem Steady.effects {n : Nat} (h : s.Steady) (hn : Loop.steps (T5Sim.round X) n s = some t) :
    World.SameButTime t.world ((s.requests X n).foldl World.perform s.world) := by
  induction n generalizing s with
  | zero =>
    cases hn
    exact ⟨rfl, rfl, rfl⟩
  | succ n ih =>
    obtain ⟨u, hu, hrest⟩ := Loop.steps_succ.mp hn
    obtain ⟨ho, -⟩ := onward_of_round h.sysRst hu
    have hworld := ho.world
    rw [h.served ho] at hworld
    have hrec := ih (h.round hu) hrest
    rw [requests_succ hu]
    have htrans {v : World} (hv : World.SameButTime u.world v) : World.SameButTime t.world
        ((u.requests X n).foldl World.perform v) :=
      hrec.trans (hv.replay (u.requests X n))
    cases ha : s.cpu.advancing s.edgeInput with
    | false =>
      rw [ha, if_neg Bool.false_ne_true] at hworld
      rw [if_neg Bool.false_ne_true]
      exact htrans (by rw [hworld]; exact ⟨rfl, rfl, rfl⟩)
    | true =>
      rw [ha, if_pos rfl] at hworld
      rw [if_pos rfl, List.foldl_cons]
      exact htrans (by rw [hworld]; exact ⟨rfl, rfl, rfl⟩)

/-- The first round after reset is no edge and has no effect. -/
theorem Boots.first_round {s₀ b : T5Sim} (hb : Boots X s₀ b) (ht : b.round X = .ok t) (n : Nat) :
    t.world = b.world.tick ∧ b.requests X (n + 1) = t.requests X n := by
  obtain ⟨hr, hpost, hack, -⟩ := hb.fields
  obtain ⟨ho, -⟩ := onward_of_round hr ht
  have hst : b.cpu.advancing b.edgeInput = false := by
    rw [T5Rv32i.advancing, T5Rv32i.sena, T5Sysc.sena, hpost.flushed.ena, Bool.and_false,
      Bool.false_and, Bool.and_false]
  constructor
  · rw [ho.world, served_of_not_completes (completes_of_wait hack)]
  · rw [requests_succ ht, hst, if_neg Bool.false_ne_true]

/-- In every run after reset, whatever words the four harts execute, the array, the compare
register and the console are those that result when the accesses of the execute slot are
performed once each, in the order of the edges.  So the console shows one character for
each store to the UART and no other. -/
theorem effects_once_in_order (X : DontCare) {s₀ b : T5Sim} (hb : Boots X s₀ b) {n : Nat}
    (hn : Loop.steps (T5Sim.round X) n b = some t) :
    let w := (b.requests X n).foldl World.perform b.world
    t.ram = w.ram ∧ t.mtimecmp = w.mtimecmp ∧ t.cerr = w.cerr ∧
      t.cerr = b.cerr ++ (b.requests X n).filterMap Request.char := by
  have hsame : World.SameButTime t.world ((b.requests X n).foldl World.perform b.world) := by
    cases n with
    | zero =>
      cases hn
      exact ⟨rfl, rfl, rfl⟩
    | succ n =>
      obtain ⟨u, hu, hrest⟩ := Loop.steps_succ.mp hn
      obtain ⟨hworld, hreq⟩ := hb.first_round hu n
      have heff := (hb.steady hu).effects hrest
      have htick : World.SameButTime u.world b.world := by
        rw [hworld]
        exact World.SameButTime.tick ⟨rfl, rfl, rfl⟩
      rw [hreq]
      exact heff.trans (htick.replay (u.requests X n))
  refine ⟨hsame.ram, hsame.mtimecmp, hsame.cerr, ?_⟩
  exact hsame.cerr.trans (World.cerr_replay b.world _)

/-- `lui x1, 0x40002`, `addi x2, x0, 65` and `sb x2, 0(x1)` on all four harts. -/
theorem effects_of_four_characters :
    let image : Ram := fun k =>
      [0x400020B7#32, 0x04100113#32, 0x00208023#32].getD k.toNat 0x00000013#32
    ∃ b t : T5Sim, Boots default (entered image) b ∧
      Loop.steps (round default) 22 b = some t ∧
      t.cerr = (b.requests default 22).filterMap Request.char ∧
      t.cerr = [0x41#8, 0x41#8, 0x41#8, 0x41#8] := by
  intro image
  let b := Loop.after (round default) 9 (entered image)
  let t := Loop.after (round default) 22 b
  have hb : Boots default (entered image) b :=
    ⟨⟨rfl, rfl⟩, Loop.steps_eq_after (by decide +kernel)⟩
  have ht : Loop.steps (round default) 22 b = some t := Loop.steps_eq_after (by decide +kernel)
  have hnil : b.cerr = [] := by decide +kernel
  have hcerr : t.cerr = b.cerr ++ (b.requests default 22).filterMap Request.char :=
    (effects_once_in_order default hb ht).2.2.2
  rw [hnil, List.nil_append] at hcerr
  exact ⟨b, t, hb, ht, hcerr, by decide +kernel⟩

/-! ## The compare register -/

def withTimecmp (s : T5Sim) (v : BitVec 32) : T5Sim := { s with mtimecmp := v }

/-- A load from the compare register completes. -/
def readsTimecmp (s : T5Sim) : Bool :=
  s.cpu.dwbStb && !s.cpu.dwbWre && s.dwbAck && index s.cpu.dwbAdr <<< 2 == mtimecmpBase

/-- Both go on or both leave, with states that differ in the compare register at most. -/
def SameButTimecmp : Except T5Sim T5Sim → Except T5Sim T5Sim → Prop
  | .ok t, .ok u => ∃ v, u = t.withTimecmp v
  | .error t, .error u => ∃ v, u = t.withTimecmp v
  | _, _ => False

theorem writeIo_withTimecmp (s : T5Sim) (v : BitVec 32) :
    ∃ v', (s.withTimecmp v).writeIo = s.writeIo.withTimecmp v' := by
  simp only [writeIo]
  show ∃ v', (if s.dadr <<< 2 = uartBase then _ else if s.dadr <<< 2 = mtimeBase then _
    else if s.dadr <<< 2 = mtimecmpBase then _ else _) = _
  split_ifs
  · exact ⟨v, rfl⟩
  · exact ⟨v, rfl⟩
  · exact ⟨s.cpu.dwbDto, rfl⟩
  · exact ⟨v, rfl⟩

theorem readIo_withTimecmp (h : s.dadr <<< 2 ≠ mtimecmpBase) (v : BitVec 32) :
    (s.withTimecmp v).readIo = s.readIo.withTimecmp v := by
  have hdadr : (s.withTimecmp v).dadr = s.dadr := rfl
  simp only [readIo, hdadr, if_neg h]
  rfl

theorem writeRam_withTimecmp (s : T5Sim) (v : BitVec 32) :
    SameButTimecmp s.writeRam (s.withTimecmp v).writeRam := by
  have hdadr : (s.withTimecmp v).dadr = s.dadr := rfl
  rw [writeRam, writeRam, hdadr]
  by_cases he : s.dadr = testEnd
  · rw [if_pos he, if_pos he]
    exact ⟨v, rfl⟩
  · rw [if_neg he, if_neg he]
    exact ⟨v, rfl⟩

theorem dataBus_withTimecmp (hread : s.readsTimecmp = false) (v : BitVec 32) :
    SameButTimecmp s.dataBus (s.withTimecmp v).dataBus := by
  cases hs : s.cpu.dwbStb with
  | false =>
    rw [dataBus_of_idle hs, dataBus_of_idle (s := s.withTimecmp v) hs]
    exact ⟨v, rfl⟩
  | true =>
    cases ha : s.dwbAck with
    | false =>
      rw [dataBus_of_wait hs ha, dataBus_of_wait (s := s.withTimecmp v) hs ha]
      exact ⟨v, rfl⟩
    | true =>
      have hdadr : (s.withTimecmp v).setDadr = s.setDadr.withTimecmp v := rfl
      have hbuf : inBuf (s.setDadr.withTimecmp v).dadr = inBuf s.setDadr.dadr := rfl
      cases hw : s.cpu.dwbWre with
      | false =>
        have hne : index s.cpu.dwbAdr <<< 2 ≠ mtimecmpBase := by
          rw [readsTimecmp, hs, hw, ha] at hread
          simpa using hread
        rw [dataBus_of_load hs ha hw, dataBus_of_load (s := s.withTimecmp v) hs ha hw, hdadr, hbuf,
          readIo_withTimecmp (s := s.setDadr) hne]
        split <;> exact ⟨v, rfl⟩
      | true =>
        rw [dataBus_of_store hs ha hw, dataBus_of_store (s := s.withTimecmp v) hs ha hw, hdadr,
          hbuf]
        split
        · exact writeRam_withTimecmp s.setDadr v
        · exact writeIo_withTimecmp s.setDadr v

theorem look_withTimecmp (s : T5Sim) (v : BitVec 32) :
    (s.withTimecmp v).fetch.printPc = s.fetch.printPc.withTimecmp v := by
  have hfetch : (s.withTimecmp v).fetch = s.fetch.withTimecmp v := by
    show (if s.cpu.iwbStb s.input then _ else _) = T5Sim.withTimecmp (if _ then _ else _) v
    split <;> rfl
  have hprint (f : T5Sim) : (f.withTimecmp v).printPc = f.printPc.withTimecmp v := by
    show (if f.cpu.aslu.xbra.getLsbD 1 && f.cpu.aslu.xbpc != 0x100#30 then _ else _) =
      T5Sim.withTimecmp (if _ then _ else _) v
    split <;> rfl
  rw [hfetch, hprint]

theorem respond_withTimecmp (hread : s.readsTimecmp = false) (v : BitVec 32) :
    SameButTimecmp s.respond (s.withTimecmp v).respond := by
  obtain ⟨g1, g2, -⟩ := s.fetch_fields
  obtain ⟨h1, h2, -⟩ := s.fetch.printPc_fields
  rw [respond, respond, look_withTimecmp]
  rw [g1] at h1
  rw [g2] at h2
  generalize s.fetch.printPc = f at h1 h2
  have hf : f.readsTimecmp = false := by
    rw [readsTimecmp, h1, show f.dwbAck = s.dwbAck from congrArg Input.dwbAck h2]
    exact hread
  show SameButTimecmp _ (if inBuf f.iadr then _ else _)
  by_cases hbuf : inBuf f.iadr = true
  · rw [if_pos hbuf, if_pos hbuf]
    exact dataBus_withTimecmp hf v
  · rw [if_neg hbuf, if_neg hbuf]
    exact ⟨v, rfl⟩

theorem round_withTimecmp (X : DontCare) (hread : s.readsTimecmp = false) (v : BitVec 32) :
    SameButTimecmp (s.round X) ((s.withTimecmp v).round X) := by
  rw [round, round]
  show SameButTimecmp _ (if s.cnt < 8388608#32 then if s.sysRst then _ else _ else _)
  by_cases hc : s.cnt < 8388608#32
  · rw [if_pos hc, if_pos hc]
    cases s.sysRst with
    | true => exact ⟨v, rfl⟩
    | false =>
      have h := respond_withTimecmp hread v
      rw [if_neg Bool.false_ne_true, if_neg Bool.false_ne_true]
      revert h
      cases s.respond with
      | error a =>
        cases (s.withTimecmp v).respond with
        | error b => exact fun h => h
        | ok b => exact fun h => h.elim
      | ok a =>
        cases (s.withTimecmp v).respond with
        | error b => exact fun h => h.elim
        | ok b =>
          rintro ⟨v', rfl⟩
          exact ⟨v', rfl⟩
  · rw [if_neg hc, if_neg hc]
    exact ⟨v, rfl⟩

/-- The compare register has no effect.  Two runs that differ in it, of any program that
does not load it, differ in nothing else, for as long as they go on and when they end. -/
theorem timecmp_has_no_effect (X : DontCare) {n : Nat}
    (hn : Loop.steps (T5Sim.round X) n s = some t)
    (hread : ∀ k ≤ n, ∀ u, Loop.steps (T5Sim.round X) k s = some u → u.readsTimecmp = false)
    (v : BitVec 32) :
    ∃ v', Loop.steps (T5Sim.round X) n (s.withTimecmp v) = some (t.withTimecmp v') ∧
      SameButTimecmp (t.round X) ((t.withTimecmp v').round X) := by
  have hrel : ∃ t', Loop.steps (T5Sim.round X) n (s.withTimecmp v) = some t' ∧
      ∃ v', t' = t.withTimecmp v' := by
    refine Loop.steps_related (P := fun u => u.readsTimecmp = false)
      (R := fun a b => ∃ v', b = a.withTimecmp v') ?_ hn
      (fun k hk u hu => hread k (Nat.le_of_lt hk) u hu) ⟨v, rfl⟩
    rintro a _ c ⟨v', rfl⟩ hP hc
    have h := round_withTimecmp X hP v'
    rw [hc] at h
    cases hd : (a.withTimecmp v').round X with
    | error d =>
      rw [hd] at h
      exact h.elim
    | ok d =>
      rw [hd] at h
      exact ⟨d, rfl, h⟩
  obtain ⟨_, ht, v', rfl⟩ := hrel
  exact ⟨v', ht, round_withTimecmp X (hread n (Nat.le_refl n) t hn) v'⟩

/-- `lui x1, 0x40000`, `lw x2, 0(x1)` on all harts: the program loads the other register of
the timer, and whether `mtimecmp` has passed makes no difference. -/
theorem timecmp_has_no_effect_on_mtime :
    let image : Ram := fun k => [0x400000B7#32, 0x0000A103#32].getD k.toNat 0x00000013#32
    ∃ t v, Loop.steps (round default) 30 (entered image) = some t ∧
      Loop.steps (round default) 30 ((entered image).withTimecmp 5#32) =
        some (t.withTimecmp v) := by
  intro image
  let s := entered image
  let t := Loop.after (round default) 30 s
  have ht : Loop.steps (round default) 30 s = some t := Loop.steps_eq_after (by decide +kernel)
  have hafter : ∀ k ≤ 30, (Loop.after (round default) k s).readsTimecmp = false := by
    decide +kernel
  have hread (k : Nat) (hk : k ≤ 30) (u : T5Sim) (hu : Loop.steps (round default) k s = some u) :
      u.readsTimecmp = false := by
    have hk := hafter k hk
    rwa [Loop.after, hu] at hk
  obtain ⟨v, hv, -⟩ := timecmp_has_no_effect default ht hread 5#32
  exact ⟨t, v, ht, hv⟩

end T5Sim

end Tra5
