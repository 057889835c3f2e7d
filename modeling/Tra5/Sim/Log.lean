/-
The log of a simulation.

While it runs, the simulator prints a line for every access that completes.  The lines are
a complete record: replayed over the image they give the array, the compare register and
the console of the simulator, and every load that they list shows what the lines before it
have stored.
-/
import Tra5.Sim.Devices

namespace Tra5

open T5Sim

/-! ## Replaying lines -/

namespace World

/-- What a line says of the world. -/
def replayLine (w : World) (l : Line) : World :=
  match l with
  | .st adr dat => { w with ram := w.ram.set (adr >>> 2) dat }
  | .ioWrite adr dat => w.writeDevice adr dat
  | .pc .. | .errIadr .. | .ld .. | .ioRead .. => w

def replayLog (w : World) (log : List Line) : World := log.foldl replayLine w

/-- The line shows the world as it is.  The clock of the timer is not known from the lines. -/
def Shows (w : World) (l : Line) : Prop :=
  match l with
  | .ld adr dat => dat = w.ram.word (adr >>> 2)
  | .ioRead adr dat => adr ≠ mtimeBase → dat = w.readDevice adr
  | .pc .. | .errIadr .. | .st .. | .ioWrite .. => True

variable {v w : World}

theorem SameButTime.replayLine (h : SameButTime v w) (l : Line) :
    SameButTime (v.replayLine l) (w.replayLine l) := by
  cases l with
  | st adr dat => exact ⟨congrArg (·.set (adr >>> 2) dat) h.ram, h.mtimecmp, h.cerr⟩
  | ioWrite adr dat => exact h.writeDevice adr dat
  | pc | errIadr | ld | ioRead => exact h

theorem SameButTime.shows (h : SameButTime v w) {l : Line} (hl : v.Shows l) : w.Shows l := by
  cases l with
  | ld adr dat =>
    rw [Shows, ← h.ram]
    exact hl
  | ioRead adr dat =>
    intro hne
    rw [hl hne, readDevice, readDevice, if_neg hne, if_neg hne, h.mtimecmp]
  | pc | errIadr | st | ioWrite => trivial

/-- The log is a history of the world: it leads from `v` to `w`, and what it shows is what
it has led to. -/
structure History (v : World) (log : List Line) (w : World) : Prop where
  world : SameButTime w (v.replayLog log)
  shows : ∀ l k m, log = k ++ l :: m → (v.replayLog k).Shows l

theorem History.append {log : List Line} (h : History v log w) {l : Line} {x : World}
    (hx : SameButTime x (w.replayLine l)) (hl : w.Shows l) : History v (log ++ [l]) x := by
  constructor
  · rw [replayLog, List.foldl_append]
    exact hx.trans (h.world.replayLine l)
  · intro l' k m he
    -- the line is the last one or stands in the log before
    rcases List.eq_nil_or_concat m with rfl | ⟨m, a, rfl⟩
    · obtain ⟨rfl, hlast⟩ := List.append_inj' he rfl
      cases hlast
      exact h.world.shows hl
    · rw [List.concat_eq_append, ← List.cons_append, ← List.append_assoc] at he
      exact h.shows l' k m (List.append_inj' he rfl).1

theorem History.append_option {log : List Line} (h : History v log w) {o : Option Line} {x : World}
    (hx : SameButTime x (o.elim w w.replayLine)) (ho : ∀ l ∈ o, w.Shows l) :
    History v (log ++ o.toList) x := by
  cases o with
  | none =>
    rw [Option.toList_none, List.append_nil]
    exact ⟨hx.trans h.world, h.shows⟩
  | some l => exact h.append hx (ho l rfl)

/-- A line that says nothing of the world. -/
def Silent (l : Line) : Prop := ∀ w : World, w.replayLine l = w ∧ w.Shows l

theorem History.append_silent {log ls : List Line} (h : History v log w)
    (hls : ∀ l ∈ ls, Silent l) : History v (log ++ ls) w := by
  induction ls generalizing log with
  | nil =>
    rw [List.append_nil]
    exact h
  | cons l ls ih =>
    obtain ⟨hworld, hshows⟩ := hls l List.mem_cons_self w
    have hlog : History v (log ++ [l]) w := h.append (by rw [hworld]; exact ⟨rfl, rfl, rfl⟩) hshows
    rw [← List.singleton_append, ← List.append_assoc]
    exact ih hlog fun a ha => hls a (List.mem_cons_of_mem l ha)

end World

namespace T5Sim

variable {X : DontCare} {s t : T5Sim}

/-! ## The lines of a round -/

theorem cout_of_dataBus_error (h : s.dataBus = .error t) : t.cout = s.cout := by
  rw [dataBus] at h
  dsimp only at h
  split_ifs at h
  rw [writeRam] at h
  split at h
  · cases h
    rfl
  · cases h

theorem silent_of_mem_pcLine {l : Line} (h : l ∈ s.pcLine.toList) : World.Silent l := by
  rw [pcLine] at h
  split at h
  · obtain rfl := List.mem_singleton.mp h
    exact fun w => ⟨rfl, trivial⟩
  · cases h

/-- The round in which the loop is left prints no access. -/
theorem cout_of_round_error (hr : s.sysRst = false) (h : s.round X = .error t) :
    ∃ ls, t.cout = s.cout ++ ls ∧ ∀ l ∈ ls, World.Silent l := by
  rw [round, hr, if_neg Bool.false_ne_true, respond] at h
  split_ifs at h with hc hbuf
  · cases hu : s.fetch.printPc.dataBus with
    | ok u =>
      rw [hu] at h
      cases h
    | error u =>
      rw [hu] at h
      cases h
      refine ⟨s.pcLine.toList, ?_, fun l hl => silent_of_mem_pcLine hl⟩
      rw [cout_of_dataBus_error hu, cout_look]
  · cases h
    refine ⟨s.pcLine.toList ++ [.errIadr s.fetch.printPc.iadr], ?_, fun l hl => ?_⟩
    · show s.fetch.printPc.cout ++ _ = _
      rw [cout_look, List.append_assoc]
    · rcases List.mem_append.mp hl with hpc | herr
      · exact silent_of_mem_pcLine hpc
      · obtain rfl := List.mem_singleton.mp herr
        exact fun w => ⟨rfl, trivial⟩
  · cases h
    exact ⟨[], (List.append_nil _).symm, fun l hl => absurd hl List.not_mem_nil⟩

/-! ## What the lines say -/

/-- An acknowledged load finds the word of the array on `dwb_dti`. -/
def Answered (s : T5Sim) : Prop :=
  s.dwbAck = true → s.dwbDti = s.ram.load (index s.cpu.dwbAdr)

/-- The address stands still between the read of the array and the acknowledge. -/
theorem answered_of_onward (hr : s.sysRst = false) (hrun : T5Rv32i.Running s.cpu)
    (ho : Onward X s t) (hst : t.dwbAck = true → s.cpu.advancing s.edgeInput = false) :
    t.Answered := by
  intro hack
  have hlow : s.edgeInput.sysRst = false := by rw [ho.edgeInput]; exact hr
  have hadr : t.cpu.dwbAdr = s.cpu.dwbAdr := by
    rw [ho.cpu]
    exact congrArg Request.adr
      (T5Rv32i.request_step_of_stall X (T5Rv32i.srst_of_rst hrun.rst) hlow (hst hack))
  rw [ho.dwbAck, Bool.and_eq_true] at hack
  rw [ho.dwbDti, ho.dadr, if_pos hack.1, hadr]

theorem Steady.answered (h : s.Steady) (ht : s.round X = .ok t) : t.Answered := by
  obtain ⟨ho, -⟩ := onward_of_round h.sysRst ht
  refine answered_of_onward h.sysRst h.running ho fun hack => ?_
  rw [ho.dwbAck, Bool.and_eq_true, Bool.not_eq_true'] at hack
  rw [advancing_of_steady h ho, hack.1, hack.2]
  rfl

theorem Boots.answered {s₀ b : T5Sim} (hb : Boots X s₀ b) (ht : b.round X = .ok t) :
    t.Answered := by
  obtain ⟨hr, hpost, -⟩ := hb.fields
  obtain ⟨ho, -⟩ := onward_of_round hr ht
  refine answered_of_onward hr hpost.running ho fun _ => ?_
  rw [T5Rv32i.advancing, T5Rv32i.sena, T5Sysc.sena, hpost.flushed.ena, Bool.and_false,
    Bool.false_and, Bool.and_false]

theorem index_of_line (adr : BitVec 30) : index adr <<< 2 >>> 2 = index adr := by
  have hlt : (index adr).toNat < 2 ^ 29 := by
    rw [index, BitVec.toNat_and]
    exact Nat.and_lt_two_pow _ (by decide)
  apply BitVec.eq_of_toNat_eq
  rw [BitVec.toNat_ushiftRight, BitVec.toNat_shiftLeft, Nat.shiftLeft_eq, Nat.shiftRight_eq_div_pow]
  omega

theorem replayLine_st (w : World) (q : Request) :
    w.replayLine (.st (index q.adr <<< 2) (w.ram.merged q)) = { w with ram := w.ram.store q } := by
  rw [World.replayLine, index_of_line]
  rfl

/-- Replaying the line of an access performs it. -/
theorem served_eq_replayLine (s : T5Sim) :
    s.served = s.accessLine.elim s.world s.world.replayLine := by
  rw [served, completes, accessLine]
  cases hs : s.cpu.dwbStb with
  | false => rfl
  | true =>
    cases ha : s.dwbAck with
    | false =>
      rw [Bool.and_false]
      rfl
    | true =>
      cases hw : s.cpu.dwbWre <;> cases hb : inBuf (index s.cpu.dwbAdr)
      · rfl
      · rfl
      · have hq : ¬ inBuf (index s.cpu.request.adr) = true := Bool.eq_false_iff.mp hb
        show s.world.write s.cpu.request = _
        rw [World.write, if_neg hq]
        rfl
      · have hq : inBuf (index s.cpu.request.adr) = true := hb
        show s.world.write s.cpu.request = _
        rw [World.write, if_pos hq]
        exact (replayLine_st s.world s.cpu.request).symm

theorem Answered.shows (h : s.Answered) {l : Line} (hl : l ∈ s.accessLine) : s.world.Shows l := by
  rw [accessLine] at hl
  split at hl
  next hc =>
    rw [Bool.and_eq_true] at hc
    cases hl
    cases s.cpu.dwbWre <;> cases hb : inBuf (index s.cpu.dwbAdr)
    · exact fun _ => rfl
    · show s.dwbDti = s.ram.word (index s.cpu.dwbAdr <<< 2 >>> 2)
      rw [index_of_line, h hc.2, Ram.load, if_pos hb]
    · trivial
    · trivial
  next => cases hl

/-! ## The log of a run -/

theorem history_of_round {v : World} {log : List Line} (hr : s.sysRst = false) (ha : s.Answered)
    (h : World.History v log s.world) (ht : s.round X = .ok t) :
    World.History v (log ++ s.pcLine.toList ++ s.accessLine.toList) t.world := by
  obtain ⟨ho, -⟩ := onward_of_round hr ht
  have hpc : World.History v (log ++ s.pcLine.toList) s.world :=
    h.append_silent fun l hl => silent_of_mem_pcLine hl
  refine hpc.append_option ?_ fun l hl => ha.shows hl
  rw [ho.world, ← served_eq_replayLine]
  exact ⟨rfl, rfl, rfl⟩

theorem Steady.history {n : Nat} (h : s.Steady) (ha : s.Answered)
    (hn : Loop.steps (T5Sim.round X) n s = some t) {v : World} {log : List Line}
    (hs : World.History v log s.world) :
    ∃ ls, t.cout = s.cout ++ ls ∧ World.History v (log ++ ls) t.world := by
  induction n generalizing s log with
  | zero =>
    cases hn
    exact ⟨[], (List.append_nil _).symm, by rw [List.append_nil]; exact hs⟩
  | succ n ih =>
    obtain ⟨u, hu, hrest⟩ := Loop.steps_succ.mp hn
    have hround := history_of_round h.sysRst ha hs hu
    obtain ⟨ls, hcout, hls⟩ := ih (h.round hu) (h.answered hu) hrest hround
    refine ⟨s.pcLine.toList ++ s.accessLine.toList ++ ls, ?_, ?_⟩
    · rw [hcout, (onward_of_round h.sysRst hu).1.cout, List.append_assoc, List.append_assoc,
        List.append_assoc]
    · rw [← List.append_assoc, ← List.append_assoc]
      exact hls

theorem Boots.history {s₀ b : T5Sim} (hb : Boots X s₀ b) {n : Nat}
    (hn : Loop.steps (T5Sim.round X) n b = some t) :
    t.sysRst = false ∧ ∃ ls, t.cout = b.cout ++ ls ∧ World.History b.world ls t.world := by
  have hnil : World.History b.world [] b.world :=
    ⟨⟨rfl, rfl, rfl⟩, fun l k m he => absurd he (by simp)⟩
  obtain ⟨hr, -, hack, -⟩ := hb.fields
  cases n with
  | zero =>
    cases hn
    exact ⟨hr, [], (List.append_nil _).symm, hnil⟩
  | succ n =>
    obtain ⟨u, hu, hrest⟩ := Loop.steps_succ.mp hn
    have hround := history_of_round hr (fun h => absurd (hack.symm.trans h) Bool.false_ne_true)
      hnil hu
    obtain ⟨ls, hcout, hls⟩ := (hb.steady hu).history (hb.answered hu) hrest hround
    refine ⟨((hb.steady hu).steps hrest).sysRst, _, ?_, hls⟩
    rw [hcout, (onward_of_round hr hu).1.cout, List.nil_append, List.append_assoc,
      List.append_assoc, List.append_assoc]

/-- The lines that a simulation has printed are a history of what it has done, at every time
and when the loop is left, whatever words the harts execute. -/
theorem Boots.log {s₀ b : T5Sim} (hb : Boots X s₀ b) {n : Nat}
    (hn : Loop.steps (T5Sim.round X) n b = some s) (ht : t = s ∨ s.round X = .error t) :
    ∃ log, t.cout = b.cout ++ log ∧ World.History b.world log t.world := by
  obtain ⟨hr, log, hcout, hlog⟩ := hb.history hn
  rcases ht with rfl | ht
  · exact ⟨log, hcout, hlog⟩
  · obtain ⟨ls, hls, hsilent⟩ := cout_of_round_error hr ht
    refine ⟨log ++ ls, by rw [hls, hcout, List.append_assoc], ?_⟩
    rw [(stops_of_round hr ht).2]
    exact hlog.append_silent hsilent

end T5Sim

end Tra5
