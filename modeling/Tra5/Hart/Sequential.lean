/-
The pipeline as four sequential harts.

`Hart.step` executes one instruction on a PC and a register bank, with no
pipeline: decode, execute and write-back in one function.  `pipeline_refines_harts`
says that the core runs each hart as a sequence of such steps, one for every four
advancing edges, whatever the other harts execute and however the core stalls.
-/
import Tra5.Pipeline.Slots
import Tra5.Datapath.Ordinary

namespace Tra5

open Rv32

/-! ## The sequential machine -/

structure Hart where
  pc : BitVec 30
  bank : Bank

/-- The word is an instruction that is not SYSTEM and does not trap on the
operands. -/
def Ordinary (pc : BitVec 30) (w a b : BitVec 32) : Prop :=
  ∃ i, Encodes w i ∧ i.isSystem = false ∧ i.traps (byteAdr pc) a b = false

namespace Hart

variable (X : DontCare) (csr : Csr)

/-- One instruction: the word `k.iwbDat`, and `k.dwbDti` in case it is a load.
The CSRs are a parameter. -/
def outcome (s : Hart) (k : Sample) : Outcome :=
  datapath X { dhart := 0#2, decodeCsr := csr, executeCsr := csr, dwbDti := k.dwbDti } s.pc
    k.iwbDat (s.bank.rs1 (T5Ctrl.rs1a k.iwbDat)) (s.bank.rs2 (T5Ctrl.rs2a k.iwbDat))

def step (s : Hart) (k : Sample) : Hart :=
  let o := s.outcome X csr k
  { pc := o.next, bank := s.bank.write o.wre o.rd o.value }

def run (s : Hart) (ks : List Sample) : Hart := ks.foldl (step X csr) s

end Hart

/-- What the hart that fetches in the first cycle reads from the two buses: of
every four samples the word of the second and the load data of the fourth. -/
def hartProgram : List Sample → List Sample
  | _ :: k₁ :: _ :: k₃ :: ks =>
    { iwbDat := k₁.iwbDat, dwbDti := k₃.dwbDti } :: hartProgram ks
  | _ => []

theorem hartProgram_append {ks ls : List Sample} (hk : ks.length % 4 = 0) (hl : ls.length < 4) :
    hartProgram (ks ++ ls) = hartProgram ks := by
  fun_induction hartProgram ks with
  | case1 k₀ k₁ k₂ k₃ ks ih =>
    simp only [List.cons_append, hartProgram]
    rw [ih (by simp only [List.length_cons] at hk; omega)]
  | case2 ks hne =>
    match ks, hk with
    | [], _ =>
      match ls, hl with
      | [], _ | [_], _ | [_, _], _ | [_, _, _], _ => rfl
    | _ :: _ :: _ :: _ :: _, _ => exact absurd rfl (hne _ _ _ _ _)

theorem hartProgram_append_round {ks : List Sample} (hk : ks.length % 4 = 0)
    (k₀ k₁ k₂ k₃ : Sample) :
    hartProgram (ks ++ [k₀, k₁, k₂, k₃]) =
      hartProgram ks ++ [{ iwbDat := k₁.iwbDat, dwbDti := k₃.dwbDti }] := by
  fun_induction hartProgram ks with
  | case1 l₀ l₁ l₂ l₃ ks ih =>
    simp only [List.cons_append, hartProgram]
    rw [ih (by simp only [List.length_cons] at hk; omega)]
  | case2 ks hne =>
    match ks, hk with
    | [], _ => rfl
    | _ :: _ :: _ :: _ :: _, _ => exact absurd rfl (hne _ _ _ _ _)

/-! ## One round -/

namespace Pipe

variable (X : DontCare) (csr : Csr)

/-- The hart whose turn it is to fetch, between two of its instructions. -/
def hart (p : Pipe) : Hart := { pc := p.inst.iwbAdr, bank := p.gprf.bank p.inst.hart }

def FetchOrdinary (p : Pipe) (w : BitVec 32) : Prop :=
  Ordinary p.fetchPc w (p.rs1d w) (p.rs2d w)

theorem advance_operands (p : Pipe) (k : Sample) (w : BitVec 32) :
    (p.advance X k).rs1d w = p.hart.bank.rs1 (T5Ctrl.rs1a w) ∧
      (p.advance X k).rs2d w = p.hart.bank.rs2 (T5Ctrl.rs2a w) := by
  have hb : (p.advance X k).gprf.bank p.inst.hart = p.hart.bank :=
    p.advance_bank_of_ne X k (T5Inst.whart_ne p.inst.hart)
  rw [← hb, rs1d, rs2d, advance_fhart]
  exact ⟨rfl, rfl⟩

theorem fetchOrdinary_advance (p : Pipe) (k : Sample) (w : BitVec 32) :
    (p.advance X k).FetchOrdinary w ↔
      Ordinary p.hart.pc w (p.hart.bank.rs1 (T5Ctrl.rs1a w)) (p.hart.bank.rs2 (T5Ctrl.rs2a w)) := by
  rw [FetchOrdinary, advance_fetchPc, (p.advance_operands X k w).1, (p.advance_operands X k w).2]
  rfl

/-- The instruction that the current hart fetches is in the execute slot after
three edges, and does there what the sequential step does. -/
theorem outcome_round (p : Pipe) (k₀ : Sample) {k₁ k₂ : Sample} (k₃ : Sample)
    (h₁ : T5Ctrl.rv32 k₁.iwbDat = true) (h₂ : T5Ctrl.rv32 k₂.iwbDat = true)
    (ho : (p.advance X k₀).FetchOrdinary k₁.iwbDat) :
    (p.run X [k₀, k₁, k₂]).outcome X k₃ =
      p.hart.outcome X csr { iwbDat := k₁.iwbDat, dwbDti := k₃.dwbDti } := by
  obtain ⟨i, hw, hi, ht⟩ := (p.fetchOrdinary_advance X k₀ k₁.iwbDat).mp ho
  have h := outcome_eq_datapath X (p.advance X k₀) k₃ h₁ h₂
  rw [advance_fetchPc, (p.advance_operands X k₀ _).1, (p.advance_operands X k₀ _).2] at h
  exact h.trans (datapath_congr X hw hi ht rfl)

theorem bank_round (p : Pipe) (k₀ k₁ k₂ : Sample) :
    (p.run X [k₀]).gprf.bank p.inst.hart = p.hart.bank ∧
      (p.run X [k₀, k₁]).gprf.bank p.inst.hart = p.hart.bank ∧
      (p.run X [k₀, k₁, k₂]).gprf.bank p.inst.hart = p.hart.bank := by
  have h₁ := p.advance_bank_of_ne X k₀ (T5Inst.whart_ne p.inst.hart)
  have h₂ := (p.advance X k₀).advance_bank_of_ne X k₁ (T5Inst.whart_two_ne p.inst.hart)
  have h₃ := ((p.advance X k₀).advance X k₁).advance_bank_of_ne X k₂
    (T5Inst.whart_three_ne p.inst.hart)
  exact ⟨h₁, h₂.trans h₁, h₃.trans (h₂.trans h₁)⟩

/-- Four edges execute one instruction of the current hart. -/
theorem hart_round (p : Pipe) (k₀ : Sample) {k₁ k₂ : Sample} (k₃ : Sample)
    (h₁ : T5Ctrl.rv32 k₁.iwbDat = true) (h₂ : T5Ctrl.rv32 k₂.iwbDat = true)
    (ho : (p.advance X k₀).FetchOrdinary k₁.iwbDat) :
    (p.run X [k₀, k₁, k₂, k₃]).inst.hart = p.inst.hart ∧
      (p.run X [k₀, k₁, k₂, k₃]).hart =
        p.hart.step X csr { iwbDat := k₁.iwbDat, dwbDti := k₃.dwbDti } := by
  let q := p.run X [k₀, k₁, k₂]
  have hh : T5Inst.whart q.inst.hart = p.inst.hart := T5Inst.whart_four p.inst.hart
  have hout : q.outcome X k₃ = p.hart.outcome X csr _ := p.outcome_round X csr k₀ k₃ h₁ h₂ ho
  have hbank : (q.advance X k₃).gprf.bank p.inst.hart = (p.hart.step X csr
      { iwbDat := k₁.iwbDat, dwbDti := k₃.dwbDti }).bank := by
    rw [advance_gprf, hh, T5Gprf.bank_step_self, (p.bank_round X k₀ k₁ k₂).2.2, hout]
    rfl
  refine ⟨hh, ?_⟩
  show Hart.mk (q.outcome X k₃).next ((q.advance X k₃).gprf.bank (T5Inst.whart q.inst.hart)) = _
  rw [hh, hbank, hout]
  rfl

/-! ## Whole runs -/

/-- Every word of the run ends in `11` and those of the hart that fetches first
are ordinary. -/
structure OrdinaryRun (p : Pipe) (ks : List Sample) : Prop where
  rv32 : ∀ k ∈ ks, T5Ctrl.rv32 k.iwbDat = true
  ordinary : ∀ ls k ms, ks = ls ++ k :: ms → ls.length % 4 = 1 →
    (p.run X ls).FetchOrdinary k.iwbDat

theorem OrdinaryRun.take {X : DontCare} {p : Pipe} {ks ls : List Sample}
    (h : p.OrdinaryRun X (ks ++ ls)) : p.OrdinaryRun X ks :=
  ⟨fun k hk => h.rv32 k (List.mem_append_left ls hk), fun as k ms he hl =>
    h.ordinary as k (ms ++ ls) (by rw [he, List.append_assoc, List.cons_append]) hl⟩

theorem exists_round {ks : List Sample} {m : Nat} (h : ks.length = 4 * (m + 1)) :
    ∃ ls k₀ k₁ k₂ k₃, ks = ls ++ [k₀, k₁, k₂, k₃] ∧ ls.length = 4 * m := by
  have hd : (ks.drop (4 * m)).length = 4 := by rw [List.length_drop]; omega
  match hks : ks.drop (4 * m), hd with
  | [k₀, k₁, k₂, k₃], _ =>
    exact ⟨ks.take (4 * m), k₀, k₁, k₂, k₃, by rw [← hks, List.take_append_drop],
      by rw [List.length_take]; omega⟩

theorem exists_rounds (ks : List Sample) :
    ∃ ls ms, ks = ls ++ ms ∧ ls.length % 4 = 0 ∧ ms.length = ks.length % 4 := by
  refine ⟨ks.take (ks.length / 4 * 4), ks.drop (ks.length / 4 * 4),
    (List.take_append_drop _ ks).symm, ?_, ?_⟩
  · rw [List.length_take]
    omega
  · rw [List.length_drop]
    omega

/-- The hart that fetches first executes one instruction in every round. -/
theorem hart_run {X : DontCare} {p : Pipe} {ks : List Sample} (h : p.OrdinaryRun X ks)
    (hlen : ks.length % 4 = 0) :
    (p.run X ks).inst.hart = p.inst.hart ∧
      (p.run X ks).hart = p.hart.run X csr (hartProgram ks) := by
  obtain ⟨m, hm⟩ : ∃ m, ks.length = 4 * m := ⟨ks.length / 4, by omega⟩
  clear hlen
  induction m generalizing ks with
  | zero =>
    rw [List.length_eq_zero_iff.mp hm]
    exact ⟨rfl, rfl⟩
  | succ m ih =>
    obtain ⟨ls, k₀, k₁, k₂, k₃, rfl, hls⟩ := exists_round hm
    obtain ⟨hhart, hstate⟩ := ih h.take hls
    have hround := hart_round X csr (p.run X ls) k₀ k₃ (h.rv32 k₁ (by simp)) (h.rv32 k₂ (by simp))
      (by
        have := h.ordinary (ls ++ [k₀]) k₁ [k₂, k₃] (by simp) (by simp; omega)
        rwa [run_append] at this)
    rw [run_append, hartProgram_append_round (by omega), Hart.run, List.foldl_append]
    refine ⟨hround.1.trans hhart, hround.2.trans ?_⟩
    rw [hstate]
    rfl

theorem fetch_run {X : DontCare} {p : Pipe} {ks : List Sample} (h : p.OrdinaryRun X ks)
    (hlen : ks.length % 4 = 1) :
    (p.run X ks).inst.fpc = (p.hart.run X csr (hartProgram ks)).pc ++ p.inst.hart ∧
      (p.run X ks).gprf.bank p.inst.hart = (p.hart.run X csr (hartProgram ks)).bank := by
  obtain ⟨ls, ms, rfl, hls, hms⟩ := exists_rounds ks
  match ms, hms.trans hlen with
  | [k₀], _ =>
    obtain ⟨hhart, hstate⟩ := hart_run csr h.take hls
    rw [hartProgram_append hls (by simp), run_append, ← hstate, ← hhart]
    exact ⟨rfl, ((p.run X ls).bank_round X k₀ k₀ k₀).1⟩

theorem request_run {X : DontCare} {p : Pipe} {ls : List Sample} {k₀ k₁ k₂ : Sample}
    (h : p.OrdinaryRun X (ls ++ [k₀, k₁, k₂])) (hls : ls.length % 4 = 0) :
    (p.run X (ls ++ [k₀, k₁, k₂])).request =
      ((p.hart.run X csr (hartProgram (ls ++ [k₀, k₁, k₂]))).outcome X csr k₁).request := by
  have ho : ((p.run X ls).advance X k₀).FetchOrdinary k₁.iwbDat := by
    have := h.ordinary (ls ++ [k₀]) k₁ [k₂] (by simp) (by simp; omega)
    rwa [run_append] at this
  have hout := outcome_round X csr (p.run X ls) k₀ k₁ (h.rv32 k₁ (by simp)) (h.rv32 k₂ (by simp)) ho
  rw [hartProgram_append hls (by simp), ← (hart_run csr h.take hls).2, run_append,
    ← outcome_request X _ k₁, hout]

theorem hart_ne_run {X : DontCare} {p : Pipe} {ks : List Sample} (h : p.OrdinaryRun X ks)
    (hlen : ks.length % 4 ≠ 0) : p.inst.hart ≠ (p.run X ks).inst.hart := by
  obtain ⟨ls, ms, rfl, hls, hms⟩ := exists_rounds ks
  have hh := (hart_run (X := X) default h.take hls).1
  have hlt : ms.length < 4 := by omega
  rw [run_append, ← hh]
  match ms, hlt with
  | [], _ => exact absurd hms.symm hlen
  | [_], _ => exact T5Inst.whart_ne _
  | [_, _], _ => exact T5Inst.whart_two_ne _
  | [_, _, _], _ => exact T5Inst.whart_three_ne _

end Pipe

/-! ## The core -/

namespace T5Rv32i

/-- The hart whose turn it is to fetch, with the pending write applied. -/
def hart (c : T5Rv32i) : Hart := c.pipe.hart

def FetchOrdinary (c : T5Rv32i) (w : BitVec 32) : Prop :=
  Ordinary (c.inst.fpc.extractLsb 31 2) w (c.rs1d w) (c.rs2d w)

theorem fetchOrdinary_pipe {c : T5Rv32i} {i : Input} (hc : Running c)
    (ha : c.advancing i = true) {w : BitVec 32} (ho : c.FetchOrdinary w) :
    c.pipe.FetchOrdinary w := by
  rw [FetchOrdinary, (operands_of_advancing hc ha w).1, (operands_of_advancing hc ha w).2] at ho
  exact ho

theorem gprf_step_of_ne (X : DontCare) (c : T5Rv32i) (i : Input) {x : BitVec 7}
    (hx : x ≠ c.inst.hart ++ c.back.mrd) :
    (c.step X i).gprf.rs1.read x = c.gprf.rs1.read x ∧
      (c.step X i).gprf.rs2.read x = c.gprf.rs2.read x :=
  ⟨Dpram.step_read_of_ne hx _ _ _, Dpram.step_read_of_ne hx _ _ _⟩

end T5Rv32i

variable {X : DontCare} {c : T5Rv32i} {js : List Input}

theorem samples_append_cons {is ks : List Input} {i : Input}
    (h : ((machine X).run c is).advancing i = true) :
    samples X c (is ++ i :: ks) =
      samples X c is ++ i.sample :: samples X (((machine X).run c is).step X i) ks := by
  refine ((stallFree X).samples_append c is (i :: ks)).trans ?_
  exact congrArg (samples X c is ++ ·)
    (congrArg (List.map Input.sample) (Clocked.Machine.edges_cons_of_enabled h ks))

theorem ordinaryRun_samples (hc : T5Rv32i.Running c) (hjs : ∀ j ∈ js, j.sysRst = false)
    (hrv : ∀ i ∈ (machine X).edges c js, T5Ctrl.rv32 i.iwbDat = true)
    (hord : ∀ is i ks, js = is ++ i :: ks → ((machine X).edges c is).length % 4 = 1 →
      ((machine X).run c is).advancing i = true →
      ((machine X).run c is).FetchOrdinary i.iwbDat) :
    c.pipe.OrdinaryRun X (samples X c js) := by
  constructor
  · intro k hk
    obtain ⟨i, hi, rfl⟩ := List.mem_map.mp hk
    exact hrv i hi
  · intro ls k ms he hls
    obtain ⟨es, fs', hes, rfl, hfs⟩ := List.map_eq_append_iff.mp he
    obtain ⟨e, fs, rfl, rfl, rfl⟩ := List.map_eq_cons_iff.mp hfs
    obtain ⟨is, ks, hjs', his, ha, -⟩ := Clocked.Machine.exists_of_edges_eq hes
    have hlow : ∀ i ∈ is, i.sysRst = false := fun i hi =>
      hjs i (by rw [hjs']; exact List.mem_append_left _ hi)
    have hrun : T5Rv32i.Running ((machine X).run c is) := (stallFree X).inv_run hc hlow
    have ho := hord is e ks hjs' (by rw [his]; rwa [List.length_map] at hls) ha
    have hp : ((machine X).run c is).pipe = c.pipe.run X (es.map Input.sample) := by
      rw [pipe_run hc hlow, samples, Clocked.Refinement.samples, his]
      rfl
    show (c.pipe.run X (es.map Input.sample)).FetchOrdinary e.iwbDat
    rw [← hp]
    exact T5Rv32i.fetchOrdinary_pipe hrun ha ho

theorem samples_of_fetch {is : List Input} {i : Input} (ks : List Input)
    (hlen : ((machine X).edges c is).length % 4 = 1)
    (ha : ((machine X).run c is).advancing i = true) :
    ∃ ls k₀, ls.length % 4 = 0 ∧ samples X c (is ++ i :: ks) =
      ls ++ k₀ :: i.sample :: samples X (((machine X).run c is).step X i) ks := by
  have hs : (samples X c is).length % 4 = 1 := by
    rw [samples, Clocked.Refinement.samples, List.length_map]
    exact hlen
  obtain ⟨ls, ms, he, hls, hms⟩ := Pipe.exists_rounds (samples X c is)
  obtain ⟨k₀, rfl⟩ := List.length_eq_one_iff.mp (hms.trans hs)
  exact ⟨ls, k₀, hls, by rw [samples_append_cons ha, he]; simp⟩

section Rounds

variable (csr : Csr) (hc : T5Rv32i.Running c) (hjs : ∀ j ∈ js, j.sysRst = false)
  (hrun : c.pipe.OrdinaryRun X (samples X c js))

include hc hjs hrun

theorem hart_of_round (hn : ((machine X).edges c js).length % 4 = 0) :
    ((machine X).run c js).inst.hart = c.inst.hart ∧
      ((machine X).run c js).hart = c.hart.run X csr (hartProgram (samples X c js)) := by
  have hlen : (samples X c js).length = ((machine X).edges c js).length := List.length_map ..
  obtain ⟨hh, hq⟩ := Pipe.hart_run csr hrun (by rw [hlen]; exact hn)
  rw [← pipe_run hc hjs] at hh hq
  exact ⟨hh, hq⟩

theorem operands_of_round (hn : ((machine X).edges c js).length % 4 = 1) :
    let s := (machine X).run c js
    let q := c.hart.run X csr (hartProgram (samples X c js))
    s.inst.fpc = q.pc ++ c.inst.hart ∧ ∀ i, s.advancing i = true →
      s.rs1d i.iwbDat = q.bank.rs1 (T5Ctrl.rs1a i.iwbDat) ∧
      s.rs2d i.iwbDat = q.bank.rs2 (T5Ctrl.rs2a i.iwbDat) := by
  intro s q
  have hlen : (samples X c js).length = ((machine X).edges c js).length := List.length_map ..
  have hs : T5Rv32i.Running s := (stallFree X).inv_run hc hjs
  obtain ⟨hf, hb⟩ := Pipe.fetch_run csr hrun (by rw [hlen]; exact hn)
  rw [← pipe_run hc hjs] at hf hb
  refine ⟨hf, fun i ha => ?_⟩
  have hfh : s.pipe.inst.fhart = c.inst.hart := by
    rw [T5Inst.fhart, hf]
    exact T5Inst.extractLsb_hart _ _
  rw [(operands_of_advancing hs ha _).1, (operands_of_advancing hs ha _).2, Pipe.rs1d, Pipe.rs2d,
    hfh]
  exact ⟨congrFun (congrArg Bank.rs1 hb) _, congrFun (congrArg Bank.rs2 hb) _⟩

theorem bank_of_round (hn : ((machine X).edges c js).length % 4 ≠ 0) (i : Input) :
    (((machine X).run c js).step X i).gprf.bank c.inst.hart =
      ((machine X).run c js).gprf.bank c.inst.hart := by
  have hlen : (samples X c js).length = ((machine X).edges c js).length := List.length_map ..
  have hne := Pipe.hart_ne_run hrun (by rw [hlen]; exact hn)
  rw [← pipe_run hc hjs] at hne
  exact T5Gprf.bank_step_of_ne hne _ _ _ _

end Rounds

section Passages

variable (csr : Csr) {is ks : List Input} {i : Input} (hc : T5Rv32i.Running c)
  (hjs : ∀ j ∈ is ++ i :: ks, j.sysRst = false)
  (hrun : c.pipe.OrdinaryRun X (samples X c (is ++ i :: ks)))
  (hfetch : ((machine X).edges c is).length % 4 = 1)
  (ha : ((machine X).run c is).advancing i = true)

include hc hjs hrun hfetch ha

/-- The request of the word decoded at the edge `i`, one edge later. -/
theorem request_of_passage
    (h1 : ((machine X).edges (((machine X).run c is).step X i) ks).length = 1) :
    ((machine X).run c (is ++ i :: ks)).request =
      ((c.hart.run X csr (hartProgram (samples X c (is ++ i :: ks)))).outcome X csr
        i.sample).request := by
  obtain ⟨ls, k₀, hls, he⟩ := samples_of_fetch ks hfetch ha
  have hl : (samples X (((machine X).run c is).step X i) ks).length = _ := List.length_map ..
  match hks : samples X (((machine X).run c is).step X i) ks, hl.trans h1 with
  | [k₂], _ =>
    rw [hks] at he
    have := Pipe.request_run csr (by rw [← he]; exact hrun) hls
    rw [← he, ← pipe_run hc hjs] at this
    exact this

/-- In the memory slot of the word only its destination can be written. -/
theorem write_of_passage
    (h2 : ((machine X).edges (((machine X).run c is).step X i) ks).length = 2) (j : Input)
    {x : BitVec 7} (hx : x ≠ c.inst.hart ++ rd i.iwbDat) :
    (((machine X).run c (is ++ i :: ks)).step X j).gprf.rs1.read x =
        ((machine X).run c (is ++ i :: ks)).gprf.rs1.read x ∧
      (((machine X).run c (is ++ i :: ks)).step X j).gprf.rs2.read x =
        ((machine X).run c (is ++ i :: ks)).gprf.rs2.read x := by
  obtain ⟨ls, k₀, hls, he⟩ := samples_of_fetch ks hfetch ha
  have hpipe := pipe_run (X := X) hc hjs
  have hl : (samples X (((machine X).run c is).step X i) ks).length = _ := List.length_map ..
  match hks : samples X (((machine X).run c is).step X i) ks, hl.trans h2 with
  | [k₂, k₃], _ =>
    rw [hks] at he
    have hh := (Pipe.hart_run default hrun (by rw [he]; simp; omega)).1
    rw [← hpipe] at hh
    rw [he, Pipe.run_append] at hpipe
    have hhart : ((machine X).run c (is ++ i :: ks)).inst.hart = c.inst.hart := hh
    have hrd : ((machine X).run c (is ++ i :: ks)).back.mrd = rd i.iwbDat :=
      congrArg (fun p => p.back.mrd) hpipe
    refine T5Rv32i.gprf_step_of_ne X _ j ?_
    rw [hhart, hrd]
    exact hx

end Passages

/-- In a run of the core in which every word ends in `11`, take a hart whose
words are RV32I instructions other than SYSTEM that do not trap.  `c` is a state
in which it fetches, and `q` is the hart after as many sequential steps as there
are whole rounds of four advancing edges since.

At the end of a round the hart fetches again, and its PC and its bank are those
of `q`.  One edge later its word is decoded with the operands of `q`.  Three
edges into the round the request of its instruction is on the data bus.  Until
the round ends no clock edge changes its bank, and in the memory slot that
follows only the destination of the instruction is written. -/
theorem pipeline_refines_harts (X : DontCare) (csr : Csr) {c : T5Rv32i} (hc : Reachable X c)
    {js : List Input} (hjs : ∀ j ∈ js, j.sysRst = false)
    (hrv : ∀ i ∈ (machine X).edges c js, T5Ctrl.rv32 i.iwbDat = true)
    (hord : ∀ is i ks, js = is ++ i :: ks → ((machine X).edges c is).length % 4 = 1 →
      ((machine X).run c is).advancing i = true →
      ((machine X).run c is).FetchOrdinary i.iwbDat) :
    let s := (machine X).run c js
    let n := ((machine X).edges c js).length
    let q := c.hart.run X csr (hartProgram (samples X c js))
    (n % 4 = 0 → s.inst.hart = c.inst.hart ∧ s.hart = q) ∧
    (n % 4 = 1 → s.inst.fpc = q.pc ++ c.inst.hart ∧ ∀ i, s.advancing i = true →
      s.rs1d i.iwbDat = q.bank.rs1 (T5Ctrl.rs1a i.iwbDat) ∧
      s.rs2d i.iwbDat = q.bank.rs2 (T5Ctrl.rs2a i.iwbDat)) ∧
    (n % 4 ≠ 0 → ∀ i, (s.step X i).gprf.bank c.inst.hart = s.gprf.bank c.inst.hart) ∧
    ∀ is i ks, js = is ++ i :: ks → ((machine X).edges c is).length % 4 = 1 →
      ((machine X).run c is).advancing i = true →
      let later := ((machine X).edges (((machine X).run c is).step X i) ks).length
      (later = 1 → s.request = (q.outcome X csr i.sample).request) ∧
      (later = 2 → ∀ j x, x ≠ c.inst.hart ++ rd i.iwbDat →
        (s.step X j).gprf.rs1.read x = s.gprf.rs1.read x ∧
        (s.step X j).gprf.rs2.read x = s.gprf.rs2.read x) := by
  intro s n q
  have hrun := ordinaryRun_samples hc.running hjs hrv hord
  refine ⟨?_, ?_, ?_, ?_⟩
  · intro hn
    exact hart_of_round csr hc.running hjs hrun hn
  · intro hn
    exact operands_of_round csr hc.running hjs hrun hn
  · intro hn i
    exact bank_of_round hc.running hjs hrun hn i
  · rintro is i ks rfl hfetch ha later
    refine ⟨fun h1 => ?_, fun h2 j x hx => ?_⟩
    · exact request_of_passage csr hc.running hjs hrun hfetch ha h1
    · exact write_of_passage hc.running hjs hrun hfetch ha h2 j hx

/-- Two rounds of `addi x1, x1, 5` after a reset. -/
theorem pipeline_refines_harts_two_rounds :
    let js := List.replicate 9 (Input.fetch 0x00508093#32)
    let s := (machine default).run (coldStart default) js
    s.inst.hart = 0#2 ∧ s.hart.pc = 2#30 ∧ s.hart.bank.rs1 1#5 = 10#32 := by
  intro js s
  have hw : Encodes 0x00508093#32 (.opImm .add 1#5 1#5 5#32) :=
    ⟨by decide, .opImm (by decide) (by decide) (by decide) (by decide)⟩
  have hi : ∀ i ∈ js, i = Input.fetch 0x00508093#32 := fun i hi => List.eq_of_mem_replicate hi
  have h := pipeline_refines_harts default default (postReset_coldStart default).reachable
    (fun j (hj : j ∈ js) => by rw [hi j hj]; rfl)
    (fun j hj => by rw [hi j (Clocked.Machine.mem_of_mem_edges hj)]; decide)
    (fun is i ks he _ _ => by
      rw [hi i (by rw [he]; simp)]
      exact ⟨_, hw, rfl, rfl⟩)
  obtain ⟨hh, hq⟩ := h.1 (by decide +kernel)
  refine ⟨hh.trans (by decide +kernel), ?_⟩
  show s.hart.pc = 2#30 ∧ s.hart.bank.rs1 1#5 = 10#32
  rw [hq]
  decide +kernel

end Tra5
