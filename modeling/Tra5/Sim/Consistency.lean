/-
Memory as the harts see it.

A load or a store stays in the execute slot for two rounds of the simulation loop, one
in which it waits and one in which it is acknowledged, and nothing else moves in the
first.  So the accesses of the four harts take effect one after another, in the order in
which their words are decoded, and the array holds at every time the result of those
that have left the execute slot.  The word that is fetched is read from this array.

The order is that of the edges of the run, and the program order of a hart is the order
of its own edges.

A word that does not end in `11` leaves the opcode of its predecessor in the decode slot.
If that is a load or a store it is executed a second time.
-/
import Tra5.Sim.Reset
import Tra5.Pipeline.Bus
import Tra5.Hart.Start

namespace Tra5

open Rv32 Memory

variable {X : DontCare}

/-! ## Accesses -/

/-- The access of the word that is decoded at an edge, if it makes one. -/
def access (X : DontCare) (e : T5Rv32i × Input) : Option Request :=
  let w := e.2.iwbDat
  if T5Ctrl.rv32 w && T5Data.strobe (T5Ctrl.opc w) then
    some (datapath X default (e.1.inst.fpc.extractLsb 31 2) w (e.1.rs1d w) (e.1.rs2d w)).request
  else none

/-- The accesses of the words that are decoded at the edges, in their order. -/
def accesses (X : DontCare) (t : List (T5Rv32i × Input)) : List Request := t.filterMap (access X)

theorem accesses_concat (X : DontCare) (t : List (T5Rv32i × Input)) (e : T5Rv32i × Input) :
    accesses X (t ++ [e]) = accesses X t ++ (access X e).toList := by
  rw [accesses, List.filterMap_append]
  cases h : access X e <;> simp [h, accesses]

theorem mem_accesses_append {t : List (T5Rv32i × Input)} {q : Request} (h : q ∈ accesses X t)
    (u : List (T5Rv32i × Input)) : q ∈ accesses X (t ++ u) := by
  rw [accesses, List.filterMap_append]
  exact List.mem_append_left _ h

namespace Ram

def perform (r : Ram) (q : Request) : Ram := if q.wre then r.store q else r

/-- The array after a sequence of accesses. -/
def replay (r : Ram) (qs : List Request) : Ram := qs.foldl perform r

theorem replay_concat (r : Ram) (qs : List Request) (q : Request) :
    r.replay (qs ++ [q]) = (r.replay qs).perform q := by
  rw [replay, List.foldl_append]
  rfl

end Ram

/-- The line that the simulator prints for an access, if it is a store. -/
def storeLine (r : Ram) (q : Request) : List Line :=
  if q.wre then [.st (index q.adr <<< 2) (r.merged q)] else []

def storeLines : Ram → List Request → List Line
  | _, [] => []
  | r, q :: qs => storeLine r q ++ storeLines (r.perform q) qs

theorem storeLines_concat (r : Ram) (qs : List Request) (q : Request) :
    storeLines r (qs ++ [q]) = storeLines r qs ++ storeLine (r.replay qs) q := by
  induction qs generalizing r with
  | nil => exact List.append_nil _
  | cons p qs ih =>
    rw [List.cons_append, storeLines, storeLines, ih, List.append_assoc]
    rfl

/-- The bytes that the stores among the accesses write. -/
def storeWrites (qs : List Request) : List (Write Nat (BitVec 8)) :=
  (qs.filter (fun q => q.wre)).map Request.write

theorem storeWrites_concat (qs : List Request) (q : Request) :
    storeWrites (qs ++ [q]) = storeWrites qs ++ if q.wre then [q.write] else [] := by
  rw [storeWrites, List.filter_append, List.map_append]
  cases h : q.wre <;> simp [h, storeWrites]

/-- A byte of the array is that of the latest store to it. -/
theorem Ram.byte_replay (r : Ram) {qs : List Request}
    (hsel : ∀ q ∈ qs, ∃ lane, q.sel = T5Data.byteSelect lane) {n : Nat} (hn : n < ramSize) :
    (r.replay qs).byte n = latest r.byte (storeWrites qs) n := by
  rw [← replay_eq_latest]
  induction qs using List.reverseRecOn with
  | nil => rfl
  | append_singleton qs q ih =>
    have htail := ih (fun p hp => hsel p (List.mem_append_left _ hp))
    rw [Ram.replay_concat, storeWrites_concat, Ram.perform]
    cases hw : q.wre with
    | false =>
      rw [if_neg Bool.false_ne_true, if_neg Bool.false_ne_true, List.append_nil]
      exact htail
    | true =>
      obtain ⟨lane, hlane⟩ := hsel q (List.mem_append_right _ List.mem_cons_self)
      rw [if_pos rfl, if_pos rfl, Memory.replay_concat, Ram.byte_store _ hlane hn]
      exact Write.apply_congr htail rfl (fun _ => rfl)

theorem access_of_encodes {instr : Instr} (c : T5Rv32i) {i : Input} (hw : Encodes i.iwbDat instr)
    (hm : instr.isMemory = true) :
    access X (c, i) = some (datapath X default (c.inst.fpc.extractLsb 31 2) i.iwbDat
      (c.rs1d i.iwbDat) (c.rs2d i.iwbDat)).request := by
  refine if_pos ?_
  rw [rv32_of_encodes hw, Bool.true_and]
  exact (strobe_of_encodes hw).trans hm

theorem sel_of_access {e : T5Rv32i × Input} {q : Request} (h : access X e = some q) :
    ∃ lane, q.sel = T5Data.byteSelect lane := by
  rw [access] at h
  split at h
  · cases h
    exact ⟨_, rfl⟩
  · exact absurd h.symm (Option.some_ne_none q)

theorem sel_of_mem_accesses {t : List (T5Rv32i × Input)} {q : Request} (h : q ∈ accesses X t) :
    ∃ lane, q.sel = T5Data.byteSelect lane := by
  obtain ⟨e, -, he⟩ := List.mem_filterMap.mp h
  exact sel_of_access he

/-! ## The requests in the slots -/

/-- A word that strobes is no exception, so that its address is the sum. -/
theorem xbpcNext_of_strobe (X : DontCare) {w : BitVec 32} (h : T5Data.strobe (T5Ctrl.opc w) = true)
    (p : BitVec 30) (a b : BitVec 32) (csr : Csr) :
    T5Aslu.xbpcNext csr (T5Ctrl.decode X p w a b) =
      (T5Aslu.xadr (T5Ctrl.decode X p w a b)).extractLsb 31 2 := by
  have hexc : (T5Ctrl.decode X p w a b).dexc = false := by
    rw [T5Data.strobe, Bool.and_assoc, Bool.and_eq_true, Bool.not_eq_true'] at h
    show T5Ctrl.etype (T5Ctrl.opc w) w = false
    rw [T5Ctrl.etype, h.1, Bool.false_and, Bool.false_and]
  rw [T5Aslu.xbpcNext, hexc, Bool.false_and, if_neg Bool.false_ne_true]

namespace T5Rv32i

/-- The request that the word in the decode slot is going to make. -/
def decodeRequest (X : DontCare) (c : T5Rv32i) : Option Request :=
  let d := c.ctrl.toDecode
  if T5Data.strobe d.dopc then
    some { adr := T5Aslu.xbpcNext c.aslu.toCsr d, dto := T5Aslu.xdatNext X d
           sel := T5Data.byteSelect (T5Data.lane d), wre := d.dopc.getLsbD 3, stb := true }
  else none

def executeRequest (c : T5Rv32i) : Option Request := if c.dwbStb then some c.request else none

variable {c : T5Rv32i} {i : Input}

theorem executeRequest_step (ha : c.advancing i = true) (hi : i.sysRst = false) :
    (c.step X i).executeRequest = c.decodeRequest X := by
  have hstb : (c.step X i).dwbStb = T5Data.strobe c.ctrl.dopc := by
    rw [dwbStb, step_of_advancing X ha hi]
    exact getLsbD_one_pair _ _
  rw [executeRequest, decodeRequest, hstb]
  cases hs : T5Data.strobe c.ctrl.dopc with
  | false => rfl
  | true =>
    rw [if_pos rfl, if_pos rfl, request, hstb, hs, step_of_advancing X ha hi]
    rfl

theorem slots_of_pipe {d : T5Rv32i} (h : d.pipe = c.pipe) :
    d.decodeRequest X = c.decodeRequest X ∧ d.executeRequest = c.executeRequest := by
  have hctrl : d.ctrl = c.ctrl := congrArg Pipe.ctrl h
  have haslu : d.aslu = c.aslu := congrArg Pipe.aslu h
  have hreq : d.request = c.request := congrArg Pipe.request h
  have hstb : d.dwbStb = c.dwbStb := congrArg Request.stb hreq
  rw [decodeRequest, decodeRequest, hctrl, haslu, executeRequest, executeRequest, hreq, hstb]
  exact ⟨rfl, rfl⟩

/-- The word behind a load or a store ends in `11`. -/
def Clean (c : T5Rv32i) (i : Input) : Prop :=
  T5Ctrl.rv32 i.iwbDat = true ∨ T5Data.strobe c.ctrl.dopc = false

instance (c : T5Rv32i) (i : Input) : Decidable (Clean c i) :=
  inferInstanceAs (Decidable (_ ∨ _))

theorem decodeRequest_step (hc : Running c) (ha : c.advancing i = true) (hi : i.sysRst = false)
    (hclean : Clean c i) : (c.step X i).decodeRequest X = access X (c, i) := by
  cases hrv : T5Ctrl.rv32 i.iwbDat with
  | false =>
    have hidle := hclean.resolve_left (by rw [hrv]; exact Bool.false_ne_true)
    have hctrl : (c.step X i).ctrl = T5Ctrl.advance X (c.inst.fpc.extractLsb 31 2) i.iwbDat
        (c.rs1d i.iwbDat) (c.rs2d i.iwbDat) c.ctrl := by rw [step_of_advancing X ha hi]
    have hopc : (c.step X i).ctrl.dopc = c.ctrl.dopc := by
      rw [hctrl, T5Ctrl.advance, if_neg (by rw [hrv]; exact Bool.false_ne_true)]
    simp only [decodeRequest, access, hopc, hidle, hrv, Bool.false_and, Bool.false_eq_true,
      if_false]
  | true =>
    have hdec := (InDecode.of_step (X := X) ha hi).toDecode hc hrv
    simp only [decodeRequest, access, hdec, hrv, Bool.true_and]
    cases hs : T5Data.strobe (T5Ctrl.opc i.iwbDat) with
    | false => exact if_neg (Bool.eq_false_iff.mp hs)
    | true =>
      refine (if_pos hs).trans (congrArg some ?_)
      simp only [datapath, outcome, Request.mk.injEq]
      refine ⟨?_, rfl, rfl, rfl, ((getLsbD_one_pair _ _).trans hs).symm⟩
      exact (xbpcNext_of_strobe X hs _ _ _ _).trans (xbpcNext_of_strobe X hs _ _ _ _).symm

end T5Rv32i

/-! ## One round -/

/-- The store of the round is the one in the execute slot, which is there until it is
acknowledged. -/
theorem T5Sim.completes_of_advancing {s : T5Sim} (ha : s.cpu.advancing s.input = true) :
    s.completes = (s.cpu.dwbStb && s.cpu.dwbWre) := by
  have hack : s.dwbAck = s.cpu.dwbStb := T5Rv32i.dwbAck_of_advancing ha
  rw [completes, hack]
  cases s.cpu.dwbStb <;> simp

/-- What holds after the edges `t` of a run that started with the array `image` and the
lines `printed`. -/
structure Consistent (X : DontCare) (image : Ram) (printed : List Line) (s : T5Sim)
    (t : List (T5Rv32i × Input)) : Prop where
  sysRst : s.sysRst = false
  reachable : Reachable X s.cpu
  ena : s.cpu.dwbStb = true → s.cpu.sysc.ena = true
  ack : s.dwbAck = true → s.cpu.dwbStb = true ∧ s.dwbDti = s.ram.load (index s.cpu.dwbAdr)
  fetched : t ≠ [] → s.iadr = index (s.cpu.inst.fpc.extractLsb 31 2) ∧ inBuf s.iadr = true ∧
    s.iwbDat = s.ram.word s.iadr
  decode : accesses X t = accesses X t.dropLast ++ (s.cpu.decodeRequest X).toList
  execute : accesses X t.dropLast = accesses X t.dropLast.dropLast ++ s.cpu.executeRequest.toList
  ram : s.ram = image.replay (accesses X t.dropLast.dropLast)
  cout : s.cout.filter T5Sim.isStore =
    printed ++ storeLines image (accesses X t.dropLast.dropLast)

namespace Consistent

variable {image : Ram} {printed : List Line} {s s' : T5Sim} {t : List (T5Rv32i × Input)}

theorem mem_accesses (h : Consistent X image printed s t) (hstb : s.cpu.dwbStb = true) :
    s.cpu.request ∈ accesses X t := by
  have hreq : s.cpu.executeRequest = some s.cpu.request := if_pos hstb
  rw [h.decode, h.execute, hreq]
  simp

/-- An access in the buffer is served by the round. -/
theorem next (h : Consistent X image printed s t)
    (hin : ∀ q ∈ accesses X t, q.adr.toNat < 2 ^ 18) (hround : s.round X = .ok s') :
    T5Sim.Next X s s' := by
  refine T5Sim.next_of_round (fun hstb => inBuf_of_lt ?_) h.sysRst hround
  have hlt : s.cpu.dwbAdr.toNat < 2 ^ 18 := hin _ (h.mem_accesses hstb)
  rw [toNat_index (by omega)]
  exact hlt

theorem iwbStb_eq (h : Consistent X image printed s t) :
    s.cpu.iwbStb s.input = s.cpu.advancing s.input := by
  rw [T5Rv32i.iwbStb, T5Rv32i.advancing, T5Rv32i.srst_of_rst h.reachable.running.rst]
  rfl

theorem not_completes_of_stall (h : Consistent X image printed s t)
    (ha : s.cpu.advancing s.input = false) : s.completes = false := by
  rw [T5Sim.completes]
  cases hstb : s.cpu.dwbStb with
  | false => rfl
  | true =>
    cases hack : s.dwbAck with
    | false => exact Bool.and_false _
    | true =>
      have hr := T5Rv32i.srst_of_rst h.reachable.running.rst
      have hena := T5Rv32i.sysEna_of_stall hr (h.ena hstb) hstb ha hack
      exact absurd hena (by decide : ¬ true = false)

theorem reachable_next (h : Consistent X image printed s t) (hn : T5Sim.Next X s s') :
    Reachable X s'.cpu := by
  rw [hn.cpu]
  exact h.reachable.step h.sysRst

theorem ena_next (h : Consistent X image printed s t) (hn : T5Sim.Next X s s') :
    s'.cpu.sysc.ena = true := by
  rw [hn.cpu, T5Rv32i.sysc_step_of_rst X h.reachable.running.rst h.sysRst]

theorem stall (h : Consistent X image printed s t) (hn : T5Sim.Next X s s')
    (ha : s.cpu.advancing s.input = false) : Consistent X image printed s' t := by
  have hpipe : s'.cpu.pipe = s.cpu.pipe := by
    rw [hn.cpu]
    exact (stallFree X).abs_stall s.cpu s.input h.reachable.running h.sysRst ha
  have hreq : s'.cpu.request = s.cpu.request := congrArg Pipe.request hpipe
  have hinst : s'.cpu.inst = s.cpu.inst := congrArg Pipe.inst hpipe
  have hcomp := h.not_completes_of_stall ha
  have hram : s'.ram = s.ram := by rw [hn.ram, hcomp, if_neg Bool.false_ne_true]
  have hiadr : s'.iadr = s.iadr := by
    rw [hn.iadr, h.iwbStb_eq, ha, if_neg Bool.false_ne_true]
  obtain ⟨hdec, hexec⟩ := T5Rv32i.slots_of_pipe (X := X) hpipe
  refine ⟨hn.sysRst, h.reachable_next hn, fun _ => h.ena_next hn, ?_, ?_,
    by rw [hdec]; exact h.decode, by rw [hexec]; exact h.execute, hram.trans h.ram, ?_⟩
  · intro hack
    rw [hn.dwbAck, Bool.and_eq_true] at hack
    refine ⟨(congrArg Request.stb hreq).trans hack.1, ?_⟩
    rw [hn.dwbDti hack.1, show s'.cpu.dwbAdr = s.cpu.dwbAdr from congrArg Request.adr hreq]
  · intro ht
    rw [hiadr, hinst]
    exact ⟨(h.fetched ht).1, (h.fetched ht).2.1, by rw [hn.iwbDat, hiadr]⟩
  · rw [hn.cout, hcomp, if_neg Bool.false_ne_true, List.append_nil, h.cout]

/-- The effect of the round on the array and on the output is that of the access in the
execute slot. -/
theorem effect (h : Consistent X image printed s t) (hn : T5Sim.Next X s s')
    (ha : s.cpu.advancing s.input = true) :
    s'.ram = image.replay (accesses X t.dropLast) ∧
      s'.cout.filter T5Sim.isStore = printed ++ storeLines image (accesses X t.dropLast) := by
  have hcomp := T5Sim.completes_of_advancing ha
  rw [h.execute, T5Rv32i.executeRequest]
  cases hstb : s.cpu.dwbStb with
  | false =>
    rw [hstb, Bool.false_and] at hcomp
    rw [hn.ram, hn.cout, hcomp, h.cout, if_neg Bool.false_ne_true, if_neg Bool.false_ne_true,
      if_neg Bool.false_ne_true, h.ram]
    simp
  | true =>
    have hwre : s.completes = s.cpu.request.wre := by rw [hcomp, hstb, Bool.true_and]; rfl
    rw [if_pos rfl, Option.toList_some, Ram.replay_concat, storeLines_concat, ← h.ram, hn.ram,
      hn.cout, h.cout, hwre, List.append_assoc]
    exact ⟨rfl, rfl⟩

theorem edge (h : Consistent X image printed s t) (hn : T5Sim.Next X s s')
    (ha : s.cpu.advancing s.input = true) (hclean : s.cpu.Clean s.input) :
    Consistent X image printed s' (t ++ [(s.cpu, s.input)]) := by
  have hack : s.dwbAck = s.cpu.dwbStb := T5Rv32i.dwbAck_of_advancing ha
  obtain ⟨hram, hcout⟩ := h.effect hn ha
  refine ⟨hn.sysRst, h.reachable_next hn, fun _ => h.ena_next hn, ?_, ?_, ?_, ?_, ?_, ?_⟩
  · intro hno
    rw [hn.dwbAck, hack] at hno
    cases hstb : s.cpu.dwbStb <;> rw [hstb] at hno <;> exact Bool.noConfusion hno
  · intro _
    have hfpc : s'.cpu.inst.fpc.extractLsb 31 2 = s.cpu.iwbAdr := by
      rw [hn.cpu, T5Rv32i.step_of_advancing X ha h.sysRst]
      exact T5Inst.extractLsb_adr _ _
    refine ⟨?_, hn.inBuf, hn.iwbDat⟩
    rw [hn.iadr, h.iwbStb_eq, ha, if_pos rfl, hfpc]
  · rw [accesses_concat, List.dropLast_concat, hn.cpu,
      T5Rv32i.decodeRequest_step h.reachable.running ha h.sysRst hclean]
  · rw [List.dropLast_concat, hn.cpu, T5Rv32i.executeRequest_step ha h.sysRst]
    exact h.decode
  · rw [List.dropLast_concat]
    exact hram
  · rw [List.dropLast_concat]
    exact hcout

/-! ## Whole runs -/

theorem of_boots {s₀ b : T5Sim} (h : T5Sim.Boots X s₀ b) :
    Consistent X s₀.ram (s₀.cout.filter T5Sim.isStore) b [] := by
  obtain ⟨hrst, hpost, hack, hram, hcout⟩ := h.fields
  have hstb : b.cpu.dwbStb = false := by
    rw [T5Rv32i.dwbStb, hpost.flushed.data]
    rfl
  have hdec : b.cpu.decodeRequest X = none := by
    rw [T5Rv32i.decodeRequest, hpost.flushed.ctrl]
    rfl
  have hexec : b.cpu.executeRequest = none := by
    rw [T5Rv32i.executeRequest, hstb, if_neg Bool.false_ne_true]
  refine ⟨hrst, hpost.reachable, fun h => absurd (hstb.symm.trans h) Bool.false_ne_true,
    fun h => absurd (hack.symm.trans h) Bool.false_ne_true, fun h => absurd rfl h, ?_, ?_, hram, ?_⟩
  · rw [hdec]
    rfl
  · rw [hexec]
    rfl
  · rw [hcout]
    exact (List.append_nil _).symm

theorem run {n : Nat} (h : Consistent X image printed s t)
    (hn : Loop.steps (T5Sim.round X) n s = some s')
    (hin : ∀ q ∈ accesses X (t ++ s.trace X n), q.adr.toNat < 2 ^ 18)
    (hclean : ∀ e ∈ s.trace X n, e.1.Clean e.2) :
    Consistent X image printed s' (t ++ s.trace X n) := by
  induction n generalizing s t with
  | zero =>
    cases hn
    rw [show s'.trace X 0 = [] from rfl, List.append_nil]
    exact h
  | succ n ih =>
    obtain ⟨u, hu, hrest⟩ := Loop.steps_succ.mp hn
    have hnext := h.next (fun q hq => hin q (mem_accesses_append hq _)) hu
    have htrace := T5Sim.trace_succ hu n
    rw [hnext.edgeInput] at htrace
    cases ha : s.cpu.advancing s.input with
    | false =>
      rw [ha, if_neg Bool.false_ne_true] at htrace
      rw [htrace] at hin hclean ⊢
      exact ih (h.stall hnext ha) hrest hin hclean
    | true =>
      rw [ha, if_pos rfl] at htrace
      rw [htrace] at hclean
      rw [htrace, List.append_cons] at hin ⊢
      obtain ⟨hhead, htail⟩ := List.forall_mem_cons.mp hclean
      exact ih (h.edge hnext ha hhead) hrest hin htail

/-! ## Loads and fetches -/

/-- A byte of the array is that of the latest store that has left the execute slot. -/
theorem byte (h : Consistent X image printed s t) {n : Nat} (hn : n < ramSize) :
    s.ram.byte n = latest image.byte (storeWrites (accesses X t.dropLast.dropLast)) n := by
  rw [h.ram]
  exact image.byte_replay (fun _ hq => sel_of_mem_accesses hq) hn

/-- A load takes its value from the stores before it. -/
theorem load {p : List (T5Rv32i × Input)} {c d : T5Rv32i} {i j : Input}
    (h : Consistent X image printed s (p ++ [(c, i), (d, j)])) (hc : T5Rv32i.Running c)
    (hdec : InDecode X c i d) (hexec : InDecode X d j s.cpu)
    (hin : ∀ q ∈ accesses X (p ++ [(c, i), (d, j)]), q.adr.toNat < 2 ^ 18)
    (ha : s.cpu.advancing s.input = true) (hround : s.round X = .ok s') {op : Load}
    {r q : BitVec 5} {imm : BitVec 32} (hw : Encodes i.iwbDat (.load op r q imm))
    (hal : alignedTo op.log2Size (c.rs1d i.iwbDat + imm) = true) :
    (s'.cpu.inst.hart = c.owner ∧ s'.cpu.back.mwre = orR r ∧ s'.cpu.rd0a = r) ∧
      s'.cpu.rd0d = op.value (latest image.byte (storeWrites (accesses X p)))
        (c.rs1d i.iwbDat + imm).toNat := by
  have hrv := rv32_of_encodes hw
  have hnext := h.next hin hround
  have hram : (c.rs1d i.iwbDat + imm).toNat < ramSize := by
    refine lt_ramSize_of_word ?_
    rw [← (request_of_load X hw default _ _ _).1]
    refine hin _ (List.mem_filterMap.mpr ⟨(c, i), ?_, access_of_encodes c hw rfl⟩)
    exact List.mem_append_right _ List.mem_cons_self
  have htr : Transit X c i d j s.cpu s.input s'.cpu :=
    ⟨hdec, hexec, by rw [hnext.cpu]; exact .of_step ha h.sysRst⟩
  have hout := htr.outcome hc hrv
  obtain ⟨hwre, hrd, hval⟩ := port_of_pipe (htr.pipes hc).2.2
  -- The word on the data bus is that of the round before, in which nothing was stored.
  have hstb : s.cpu.dwbStb = true := htr.passage.toInExecute.dwbStb hc hw
  have hdti := (h.ack ((T5Rv32i.dwbAck_of_advancing ha).trans hstb)).2
  have hsum : s.cpu.dwbAdr = (c.rs1d i.iwbDat + imm).extractLsb 31 2 := by
    have hreq := congrArg (fun o : Outcome => o.request.adr) hout
    exact hreq.trans (outcome_of_load X hw _ _ _ _ _).1.1
  refine ⟨⟨(htr.passage.owner hc).1, ?_, ?_⟩, ?_⟩
  · rw [hwre, hout]
    exact wre_of_load X hw hal _ _ _ _ _
  · rw [hrd, hout]
    exact (outcome_of_load X hw _ _ _ _ _).2.1
  · have hdrop : (p ++ [(c, i), (d, j)]).dropLast.dropLast = p := by
      rw [List.append_cons, List.dropLast_concat, List.dropLast_concat]
    have hbytes (n : Nat) (hn : n < ramSize) := h.byte hn
    rw [hdrop] at hbytes
    rw [hval, hout, value_of_load X hw hal]
    show op.value (fun n => byteOf s.dwbDti (n % 4)) _ = _
    rw [hdti, hsum, s.ram.value_load op hal hram]
    exact op.value_congr (fun n _ hn =>
      hbytes n (lt_of_aligned (Load.log2Size_le op) hal hram hn))

/-- The word on the instruction bus holds the stores that have left the execute slot. -/
theorem fetch (h : Consistent X image printed s t) (ht : t ≠ []) {k : Nat} (hk : k < 4) :
    byteOf s.iwbDat k = latest image.byte (storeWrites (accesses X t.dropLast.dropLast))
      (4 * (index (s.cpu.inst.fpc.extractLsb 31 2)).toNat + k) := by
  obtain ⟨hadr, hbuf, hdat⟩ := h.fetched ht
  have hlt : s.iadr.toNat < 2 ^ 18 := by
    rw [hadr] at hbuf ⊢
    exact lt_of_inBuf hbuf
  have hdiv : (4 * s.iadr.toNat + k) / 4 = s.iadr.toNat := by omega
  have hmod : (4 * s.iadr.toNat + k) % 4 = k := by omega
  rw [← hadr, ← h.byte (by rw [ramSize]; omega), hdat, Ram.byte, hdiv, hmod, BitVec.ofNat_toNat,
    BitVec.setWidth_eq]

end Consistent

/-! ## Program order -/

theorem owner_of_trace {b c : T5Rv32i} {is : List Input} {i : Input}
    {p : List (T5Rv32i × Input)} (hb : T5Rv32i.Running b) (his : ∀ k ∈ is, k.sysRst = false)
    (h : (machine X).trace b is = p ++ [(c, i)]) :
    ((machine X).run b is).owner = T5Inst.whart c.owner := by
  obtain ⟨hdec, js, hjs, -, rfl⟩ := inDecode_of_trace his h
  have hrun : T5Rv32i.Running ((machine X).run b js) := (stallFree X).inv_run hb hjs
  have hhart : ((machine X).run b is).inst.hart = T5Inst.whart ((machine X).run b js).inst.hart :=
    congrArg (fun p : Pipe => p.inst.hart) (hdec.pipe hrun)
  rw [T5Rv32i.owner, hhart]
  rfl

/-- The words in the decode and execute slots are those of other harts than the one whose
word is on the bus. -/
theorem filter_owner {b : T5Rv32i} {is : List Input} (hb : T5Rv32i.Running b)
    (his : ∀ k ∈ is, k.sysRst = false) :
    let t := (machine X).trace b is
    let mine := fun e : T5Rv32i × Input => e.1.owner == ((machine X).run b is).owner
    t.filter mine = t.dropLast.dropLast.filter mine := by
  intro t mine
  rcases List.eq_nil_or_concat' t with ht | ⟨p, ⟨c, i⟩, ht⟩
  · rw [ht]
    rfl
  · have hc := owner_of_trace hb his ht
    obtain ⟨-, js, hjs, hp, rfl⟩ := inDecode_of_trace his ht
    have hlast : mine ((machine X).run b js, i) = false := by
      rw [beq_eq_false_iff_ne, hc]
      exact T5Inst.whart_ne _
    rw [ht, List.dropLast_concat, List.filter_append,
      List.filter_cons_of_neg (by rw [hlast]; decide), List.filter_nil, List.append_nil]
    rcases List.eq_nil_or_concat' p with hp' | ⟨p', ⟨a, j⟩, hp'⟩
    · rw [hp']
      rfl
    · have ha := owner_of_trace hb hjs (hp.trans hp')
      have hsecond : mine (a, j) = false := by
        rw [beq_eq_false_iff_ne, hc, ha]
        exact T5Inst.whart_two_ne _
      rw [hp', List.dropLast_concat, List.filter_append,
        List.filter_cons_of_neg (by rw [hsecond]; decide), List.filter_nil, List.append_nil]

/-- The accesses of the words `t`, in their order, explain the memory `s.ram`, the lines
that were printed, the loads and the fetched words.  The last two words of `t` are still
in the decode and execute slots. -/
structure SeqConsistent (X : DontCare) (image : Ram) (printed : List Line)
    (t : List (T5Rv32i × Input)) (s : T5Sim) : Prop where
  /-- Every store has been applied once. -/
  stores : s.ram = image.replay (accesses X t.dropLast.dropLast) ∧
    s.cout.filter T5Sim.isStore = printed ++ storeLines image (accesses X t.dropLast.dropLast)
  /-- A store writes its bytes. -/
  stored : ∀ (c : T5Rv32i) (i : Input) (op : Store) (q r : BitVec 5) (imm : BitVec 32),
    (c, i) ∈ t → Encodes i.iwbDat (.store op q r imm) →
    alignedTo op.log2Size (c.rs1d i.iwbDat + imm) = true →
    ∃ req, access X (c, i) = some req ∧ req.wre = true ∧ ∀ n,
      let st := op.write (c.rs1d i.iwbDat + imm).toNat (c.rs2d i.iwbDat)
      req.write.covers n = st.covers n ∧ (st.covers n = true → req.write.value n = st.value n)
  /-- A load returns the bytes of the latest stores before it. -/
  loaded : ∀ (p : List (T5Rv32i × Input)) (c d : T5Rv32i) (i j : Input) (op : Load)
    (r q : BitVec 5) (imm : BitVec 32) (s' : T5Sim), t = p ++ [(c, i), (d, j)] →
    Encodes i.iwbDat (.load op r q imm) →
    alignedTo op.log2Size (c.rs1d i.iwbDat + imm) = true →
    s.cpu.advancing s.input = true → s.round X = .ok s' →
    (s'.cpu.inst.hart = c.owner ∧ s'.cpu.back.mwre = orR r ∧ s'.cpu.rd0a = r) ∧
      s'.cpu.rd0d = op.value (latest image.byte (storeWrites (accesses X p)))
        (c.rs1d i.iwbDat + imm).toNat
  /-- The word that is executed next has all stores of its own hart. -/
  fetched : t ≠ [] →
    (∀ k < 4, byteOf s.iwbDat k = latest image.byte (storeWrites (accesses X t.dropLast.dropLast))
      (4 * (index (s.cpu.inst.fpc.extractLsb 31 2)).toNat + k)) ∧
    t.filter (fun e => e.1.owner == s.cpu.owner) =
      t.dropLast.dropLast.filter (fun e => e.1.owner == s.cpu.owner)

/-- The four harts see one memory, in the order of the edges of the run, if no word
without the ending `11` is decoded behind a load or a store. -/
theorem sequentially_consistent (X : DontCare) {s₀ b s : T5Sim} {n : Nat}
    (hb : T5Sim.Boots X s₀ b) (hn : Loop.steps (T5Sim.round X) n b = some s)
    (hin : ∀ q ∈ accesses X (b.trace X n), q.adr.toNat < 2 ^ 18)
    (hclean : ∀ e ∈ b.trace X n, e.1.Clean e.2) :
    SeqConsistent X s₀.ram (s₀.cout.filter T5Sim.isStore) (b.trace X n) s := by
  have hstart := Consistent.of_boots hb
  have h := hstart.run hn hin hclean
  rw [List.nil_append] at h
  have hrun := hstart.reachable.running
  refine ⟨⟨h.ram, h.cout⟩, ?_, ?_, ?_⟩
  · intro c i op q r imm hmem hw hal
    have hacc := access_of_encodes (X := X) c hw rfl
    have hadr := hin _ (List.mem_filterMap.mpr ⟨(c, i), hmem, hacc⟩)
    have hreq := request_of_store X hw default (c.inst.fpc.extractLsb 31 2) (c.rs1d i.iwbDat)
      (c.rs2d i.iwbDat)
    have hlt : (c.rs1d i.iwbDat + imm).toNat < ramSize := by
      rw [hreq] at hadr
      exact lt_ramSize_of_word hadr
    refine ⟨_, hacc, by rw [hreq], fun m => ?_⟩
    exact write_of_store X hw hal hlt default _ _ m
  · intro p c d i j op r q imm s' ht hw hal ha hround
    obtain ⟨hdec, hexec, js, hjs, rfl⟩ := T5Sim.slots_of_trace hstart.sysRst hn ht
    rw [ht] at h hin
    exact h.load ((stallFree X).inv_run hrun hjs) hdec hexec hin ha hround hw hal
  · intro ht
    refine ⟨fun k hk => h.fetch ht hk, ?_⟩
    rw [T5Sim.cpu_of_steps hn]
    exact filter_owner hrun (fun k hk => T5Sim.sysRst_of_mem_inputs hstart.sysRst hk)

/-- Every hart stores zero to address 0x100, loads it back and goes on with NOPs. -/
theorem sequentially_consistent_sw_lw :
    let image : Ram := fun k =>
      if k = 0#32 then 0x10002023#32 else if k = 1#32 then 0x10002083#32 else 0x00000013#32
    ∃ b s, T5Sim.Boots default (T5Sim.entered image) b ∧
      Loop.steps (T5Sim.round default) 18 b = some s ∧ s.cout.length = 7 ∧
      SeqConsistent default image [] (b.trace default 18) s := by
  intro image
  let b := Loop.after (T5Sim.round default) 9 (T5Sim.entered image)
  let s := Loop.after (T5Sim.round default) 18 b
  have hboots : T5Sim.Boots default (T5Sim.entered image) b :=
    ⟨⟨rfl, rfl⟩, Loop.steps_eq_after (by decide +kernel)⟩
  have hs : Loop.steps (T5Sim.round default) 18 b = some s :=
    Loop.steps_eq_after (by decide +kernel)
  exact ⟨b, s, hboots, hs, by decide +kernel,
    sequentially_consistent default hboots hs (by decide +kernel) (by decide +kernel)⟩

/-- A store whose successor is a zero word is carried out again.  The first four words
decoded here are stores, and a fifth store is printed. -/
theorem store_applied_twice :
    let image : Ram := fun k => if k = 0#32 then 0x10002023#32 else 0#32
    ∃ b s, T5Sim.Boots default (T5Sim.entered image) b ∧
      Loop.steps (T5Sim.round default) 13 b = some s ∧
      (∀ q ∈ accesses default (b.trace default 13), q.adr = 0x40#30 ∧ q.sel = 0xF#4) ∧
      (accesses default (b.trace default 13)).length = 4 ∧
      s.cout.filter T5Sim.isStore = List.replicate 5 (.st 0x100#32 0#32) ∧
      ¬ SeqConsistent default image [] (b.trace default 13) s := by
  intro image
  let b := Loop.after (T5Sim.round default) 9 (T5Sim.entered image)
  let s := Loop.after (T5Sim.round default) 13 b
  exact ⟨b, s, ⟨⟨rfl, rfl⟩, Loop.steps_eq_after (by decide +kernel)⟩,
    Loop.steps_eq_after (by decide +kernel), by decide +kernel, by decide +kernel,
    by decide +kernel, fun h => absurd h.stores.2 (by decide +kernel)⟩

end Tra5
