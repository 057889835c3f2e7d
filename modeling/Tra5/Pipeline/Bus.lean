/-
Data-bus transactions.

The strobe of the data bus is a register of the execute slot.  It is high in
every cycle that a load or a store spends there, also in the cycles in which
`sys_ena` is low.  A transaction is a cycle with the strobe and the acknowledge
both high.
-/
import Tra5.Pipeline.Slots
import Tra5.Datapath.Ordinary

namespace Tra5

open Rv32

variable {X : DontCare}

/-- The core as its data bus sees it: the cycles that count are the
transactions. -/
def dataBus (X : DontCare) : Clocked.Machine T5Rv32i Input where
  step := T5Rv32i.step X
  enabled := fun c i => c.dwbStb && i.dwbAck

/-- The word decoded at the edge `i` of `s` enters the execute slot in the state
`x`, stalls there for the cycles `ks` and leaves it at the edge `l`. -/
structure Stay (X : DontCare) (s : T5Rv32i) (i : Input) (x : T5Rv32i) (ks : List Input)
    (l : Input) : Prop where
  enters : ∃ d e, InDecode X s i d ∧ d.advancing e = true ∧ e.sysRst = false ∧ x = d.step X e
  sysRst : (∀ k ∈ ks, k.sysRst = false) ∧ l.sysRst = false
  stalls : (machine X).edges x ks = []
  leaves : ((machine X).run x ks).advancing l = true

/-! ## One cycle -/

namespace T5Rv32i

variable {c : T5Rv32i} {i : Input}

/-- While the strobe is high, a cycle with an acknowledge stalls only because
`sys_ena` is low. -/
theorem sysEna_of_stall (hr : c.srst = false) (he : c.sysc.ena = true) (hstb : c.dwbStb = true)
    (h : c.advancing i = false) (hack : i.dwbAck = true) : i.sysEna = false := by
  have hx : c.data.xstb.getLsbD 1 = true := hstb
  rw [advancing, hr, sena, T5Sysc.sena, he, hx, hack] at h
  simpa using h

theorem dwbAck_of_advancing (h : c.advancing i = true) : i.dwbAck = c.dwbStb := by
  have hs := (advancing_iff.mp h).2
  rw [sena, T5Sysc.sena, Bool.and_eq_true, Bool.not_eq_true', bne_eq_false_iff_eq] at hs
  exact hs.2.symm

theorem dwbStb_step_of_stall (X : DontCare) (hr : c.srst = false) (hi : i.sysRst = false)
    (h : c.advancing i = false) : (c.step X i).dwbStb = c.dwbStb := by
  rw [advancing, hr, Bool.not_false, Bool.true_and] at h
  rw [step_of_stall X hr hi h]
  rfl

theorem request_step_of_stall (X : DontCare) (hr : c.srst = false) (hi : i.sysRst = false)
    (h : c.advancing i = false) : (c.step X i).request = c.request := by
  rw [advancing, hr, Bool.not_false, Bool.true_and] at h
  rw [step_of_stall X hr hi h]
  rfl

end T5Rv32i

/-! ## The stalls in the execute slot -/

theorem transactions_of_stalls {c : T5Rv32i} (hc : T5Rv32i.Running c) {ks : List Input}
    (hks : ∀ k ∈ ks, k.sysRst = false) (hst : (machine X).edges c ks = [])
    (hstb : c.dwbStb = true) : (dataBus X).edges c ks = ks.filter (fun k => k.dwbAck) := by
  induction ks generalizing c with
  | nil => rfl
  | cons k ks ih =>
    obtain ⟨hk, hrest⟩ := Clocked.Machine.edges_cons_eq_nil.mp hst
    have hrst := hks k List.mem_cons_self
    have hnext := T5Rv32i.dwbStb_step_of_stall X (T5Rv32i.srst_of_rst hc.rst) hrst hk
    have htail := ih (hc.step X hrst) (fun j hj => hks j (List.mem_cons_of_mem k hj)) hrest
      (hnext.trans hstb)
    cases hack : k.dwbAck with
    | false =>
      have he : (dataBus X).enabled c k = false := by
        show (c.dwbStb && k.dwbAck) = false
        rw [hack, Bool.and_false]
      rw [Clocked.Machine.edges_cons_of_stall he, List.filter_cons, hack]
      exact htail
    | true =>
      have he : (dataBus X).enabled c k = true := by
        show (c.dwbStb && k.dwbAck) = true
        rw [hstb, hack, Bool.and_true]
      rw [Clocked.Machine.edges_cons_of_enabled he, List.filter_cons, hack, if_pos rfl]
      exact congrArg (k :: ·) htail

theorem sysEna_of_stalls {c : T5Rv32i} (hc : T5Rv32i.Running c) (hena : c.sysc.ena = true)
    {ks : List Input} (hks : ∀ k ∈ ks, k.sysRst = false) (hst : (machine X).edges c ks = [])
    (hstb : c.dwbStb = true) : ∀ k ∈ ks, k.dwbAck = true → k.sysEna = false := by
  induction ks generalizing c with
  | nil => exact fun _ h => absurd h List.not_mem_nil
  | cons k ks ih =>
    obtain ⟨hk, hrest⟩ := Clocked.Machine.edges_cons_eq_nil.mp hst
    have hr := T5Rv32i.srst_of_rst hc.rst
    have hrst := hks k List.mem_cons_self
    intro j hj hack
    rcases List.mem_cons.mp hj with rfl | hj
    · exact T5Rv32i.sysEna_of_stall hr hena hstb hk hack
    · refine ih (hc.step X hrst) ?_ (fun j hj => hks j (List.mem_cons_of_mem k hj)) hrest ?_ j hj
        hack
      · rw [T5Rv32i.sysc_step_of_rst X hc.rst hrst]
      · rw [T5Rv32i.dwbStb_step_of_stall X hr hrst hk, hstb]

theorem run_dataBus (c : T5Rv32i) (is : List Input) :
    (dataBus X).run c is = (machine X).run c is :=
  Clocked.Machine.run_congr (M := dataBus X) (N := machine X) rfl c is

/-! ## The whole stay -/

namespace Stay

variable {s x : T5Rv32i} {i l : Input} {ks : List Input}

theorem inExecute (h : Stay X s i x ks l) : InExecute X s i x := by
  obtain ⟨d, e, hd, he, hrst, rfl⟩ := h.enters
  exact hd.inExecute he hrst

theorem ena (h : Stay X s i x ks l) (hs : T5Rv32i.Running s) : x.sysc.ena = true := by
  obtain ⟨d, e, hd, -, hrst, rfl⟩ := h.enters
  rw [T5Rv32i.sysc_step_of_rst X (hd.running hs).rst hrst]

theorem pipe_run (h : Stay X s i x ks l) (hs : T5Rv32i.Running s) :
    ((machine X).run x ks).pipe = x.pipe :=
  pipe_run_of_stalls (h.inExecute.running hs) h.sysRst.1 h.stalls

theorem dwbStb_during (h : Stay X s i x ks l) (hs : T5Rv32i.Running s) {js : List Input}
    (hjs : js <+: ks) : ((machine X).run x js).dwbStb = x.dwbStb := by
  obtain ⟨bs, rfl⟩ := hjs
  have hst := h.stalls
  rw [Clocked.Machine.edges_append, List.append_eq_nil_iff] at hst
  have hlow := (List.forall_mem_append.mp h.sysRst.1).1
  exact congrArg (fun p : Pipe => p.request.stb)
    (pipe_run_of_stalls (h.inExecute.running hs) hlow hst.1)

/-- The last transaction is at the edge that ends the stay. -/
theorem transactions (h : Stay X s i x ks l) (hs : T5Rv32i.Running s) (hstb : x.dwbStb = true) :
    (dataBus X).edges x (ks ++ [l]) = ks.filter (fun k => k.dwbAck) ++ [l] := by
  have hlast : (dataBus X).enabled ((machine X).run x ks) l = true := by
    show (((machine X).run x ks).dwbStb && l.dwbAck) = true
    rw [T5Rv32i.dwbAck_of_advancing h.leaves, h.dwbStb_during hs ⟨[], List.append_nil ks⟩, hstb,
      Bool.and_true]
  rw [Clocked.Machine.edges_append, run_dataBus, Clocked.Machine.edges_cons_of_enabled hlast,
    transactions_of_stalls (h.inExecute.running hs) h.sysRst.1 h.stalls hstb]
  rfl

end Stay

/-! ## Loads and stores -/

theorem InExecute.dwbStb {s x : T5Rv32i} {i : Input} {instr : Instr} (hs : T5Rv32i.Running s)
    (hw : Encodes i.iwbDat instr) (h : InExecute X s i x) : x.dwbStb = instr.isMemory := by
  obtain ⟨-, -, -, hdata⟩ := h.slot hs (rv32_of_encodes hw)
  rw [T5Rv32i.dwbStb, hdata, T5Data.advance, getLsbD_one_pair]
  exact strobe_of_encodes hw

namespace Stay

variable {s x : T5Rv32i} {i l : Input} {ks : List Input}

theorem length_transactions_iff (h : Stay X s i x ks l) (hs : T5Rv32i.Running s)
    (hstb : x.dwbStb = true) :
    ((dataBus X).edges x (ks ++ [l])).length = 1 ↔
      ∀ k ∈ ks, ¬ (k.sysEna = false ∧ k.dwbAck = true) := by
  have hena := sysEna_of_stalls (h.inExecute.running hs) (h.ena hs) h.sysRst.1 h.stalls hstb
  rw [h.transactions hs hstb, List.length_append, List.length_singleton, Nat.add_eq_right,
    List.length_eq_zero_iff, List.filter_eq_nil_iff]
  constructor
  · rintro hno k hk ⟨-, hack⟩
    exact hno k hk hack
  · intro hno k hk hack
    exact hno k hk ⟨hena k hk hack, hack⟩

theorem rd0d_of_load (h : Stay X s i x ks l) (hs : T5Rv32i.Running s) (hopc : x.aslu.xopc = 0#5) :
    (((machine X).run x ks).step X l).rd0d =
      T5Back.extend X x.data.xsel x.aslu.xfn3 l.dwbDti := by
  have hrun : T5Rv32i.Running ((machine X).run x ks) :=
    (stallFree X).inv_run (h.inExecute.running hs) h.sysRst.1
  have hm := T5Rv32i.pipe_step_of_advancing X hrun.readSafe h.leaves h.sysRst.2
  rw [h.pipe_run hs] at hm
  rw [(port_of_pipe hm).2.2]
  show T5Back.dmux x.aslu.xopc _ _ = _
  rw [hopc]
  rfl

end Stay

theorem InExecute.xopc {s x : T5Rv32i} {i : Input} {instr : Instr} (hs : T5Rv32i.Running s)
    (hw : Encodes i.iwbDat instr) (h : InExecute X s i x) : x.aslu.xopc = opcode i.iwbDat := by
  obtain ⟨dhart, csr, hexec, -⟩ := h.slot hs (rv32_of_encodes hw)
  exact congrArg Execute.xopc hexec

/-- A load or a store has exactly one transaction while it is in the execute slot,
unless a cycle with `sys_ena` low has an acknowledge.  The other instructions have
no strobe, and a load writes the word of the last transaction. -/
theorem one_transaction_iff (X : DontCare) {s x : T5Rv32i} (hs : Reachable X s) {i l : Input}
    {ks : List Input} {instr : Instr} (hw : Encodes i.iwbDat instr) (h : Stay X s i x ks l) :
    (instr.isMemory = true → (((dataBus X).edges x (ks ++ [l])).length = 1 ↔
      ∀ k ∈ ks, ¬ (k.sysEna = false ∧ k.dwbAck = true))) ∧
    (instr.isMemory = false → ∀ js, js <+: ks → ((machine X).run x js).dwbStb = false) ∧
    (instr.isLoad = true → (∃ es, (dataBus X).edges x (ks ++ [l]) = es ++ [l]) ∧
      (((machine X).run x ks).step X l).rd0d =
        T5Back.extend X x.data.xsel x.aslu.xfn3 l.dwbDti) := by
  have hrun := hs.running
  have hstb := h.inExecute.dwbStb hrun hw
  refine ⟨?_, ?_, ?_⟩
  · intro hmem
    exact h.length_transactions_iff hrun (hstb.trans hmem)
  · intro hmem js hjs
    rw [h.dwbStb_during hrun hjs, hstb, hmem]
  · intro hload
    have hmem : instr.isMemory = true ∧ opcode i.iwbDat = 0#5 := by
      cases hw.format with
      | load ho => exact ⟨rfl, ho⟩
      | lui | auipc | jal | jalr | branch | store | opImm | opReg | fence | fenceI | ecall
      | ebreak | mret | csr => exact Bool.noConfusion hload
    have hopc := (h.inExecute.xopc hrun hw).trans hmem.2
    exact ⟨⟨_, h.transactions hrun (hstb.trans hmem.1)⟩, h.rd0d_of_load hrun hopc⟩

/-- `lw x1, 0(x0)` with a wait state and a cycle with `sys_ena` low. -/
theorem one_transaction_lw :
    let s := (machine default).run (coldStart default) [Input.fetch nop, Input.fetch nop]
    let x := (s.step default (Input.fetch 0x00002083#32)).step default (Input.fetch nop)
    let ks := [Input.fetch nop, { Input.fetch nop with sysEna := false }]
    let l := { Input.fetch nop with dwbAck := true, dwbDti := 0x12345678#32 }
    ((dataBus default).edges x (ks ++ [l])).length = 1 ∧
      (((machine default).run x ks).step default l).rd0d = 0x12345678#32 := by
  intro s x ks l
  have hw : Encodes (Input.fetch 0x00002083#32).iwbDat (.load .lw 1#5 0#5 0#32) :=
    ⟨by decide, .load (by decide) (by decide)⟩
  have hs : Reachable default s := reachable_run_coldStart default (by decide)
  have hstay : Stay default s (Input.fetch 0x00002083#32) x ks l :=
    ⟨⟨_, Input.fetch nop, InDecode.of_step (by decide +kernel) rfl, by decide +kernel, rfl, rfl⟩,
      by decide, by decide +kernel, by decide +kernel⟩
  have h := one_transaction_iff default hs hw hstay
  exact ⟨(h.1 rfl).mpr (by decide), (h.2.2 rfl).2.trans (by decide +kernel)⟩

/-- `sw x0, 0(x0)` is acknowledged in a cycle with `sys_ena` low and, since it has
not left the execute slot, once more in the next. -/
theorem two_transactions_sw :
    let s := (machine default).run (coldStart default) [Input.fetch nop, Input.fetch nop]
    let i := Input.fetch 0x00002023#32
    let x := (s.step default i).step default (Input.fetch nop)
    let k := { Input.fetch nop with sysEna := false, dwbAck := true }
    let l := { Input.fetch nop with dwbAck := true }
    Reachable default s ∧ Encodes i.iwbDat (.store .sw 0#5 0#5 0#32) ∧
      Stay default s i x [k] l ∧ x.dwbWre = true ∧
      ((dataBus default).edges x [k, l]).length = 2 := by
  refine ⟨reachable_run_coldStart default (by decide), ⟨by decide, .store (by decide) (by decide)⟩,
    ⟨⟨_, Input.fetch nop, InDecode.of_step (by decide +kernel) rfl, by decide +kernel, rfl, rfl⟩,
      by decide, by decide +kernel, by decide +kernel⟩, by decide +kernel, by decide +kernel⟩

end Tra5
