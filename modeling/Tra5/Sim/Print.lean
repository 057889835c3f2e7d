/-
The text of the log.

The simulator prints addresses in hexadecimal without leading zeros and data with eight
digits.  The text can be read back, and so what a run has done to the array and the console
is known from the text alone.
-/
import Tra5.Sim.Log
import Tra5.Sim.Dump

namespace Tra5

namespace Line

/-- A number as the stream prints it with `hex`. -/
def hex (v : BitVec 32) : List Char := Nat.toDigits 16 v.toNat

/-- What the simulator prints for the line, up to `std::endl`. -/
def text : Line → List Char
  | .pc adr => ['P', 'C', ' ', '=', '>'] ++ hex adr
  | .errIadr iadr => ['E', 'R', 'R', ' ', 'I', 'A', 'D', 'R', ' '] ++ hex iadr
  | .st adr dat => ['S', 'T', ' '] ++ (hex adr ++ (['<', '='] ++ Dump.put dat))
  | .ld adr dat => ['L', 'D', ' '] ++ (hex adr ++ (['=', '>'] ++ Dump.put dat))
  | .ioWrite adr dat => ['I', 'O', ' '] ++ (hex adr ++ (['<', '='] ++ Dump.put dat))
  | .ioRead adr dat => ['I', 'O', ' '] ++ (hex adr ++ (['=', '>'] ++ Dump.put dat))

/-! ## Reading a line -/

def readWord (cs : List Char) : Option (BitVec 32) := (Text.number 16 cs).map (BitVec.ofNat 32)

/-- An address and a word with the arrow of a write or of a read between them. -/
def readAccess (write read : BitVec 32 → BitVec 32 → Option Line) (cs : List Char) : Option Line :=
  match Text.takeNumber 16 cs with
  | some (n, '<' :: '=' :: rest) => (readWord rest).bind (write (BitVec.ofNat 32 n))
  | some (n, '=' :: '>' :: rest) => (readWord rest).bind (read (BitVec.ofNat 32 n))
  | _ => none

def readText (cs : List Char) : Option Line :=
  match cs with
  | 'P' :: 'C' :: ' ' :: '=' :: '>' :: rest => (readWord rest).map .pc
  | 'E' :: 'R' :: 'R' :: ' ' :: 'I' :: 'A' :: 'D' :: 'R' :: ' ' :: rest =>
    (readWord rest).map .errIadr
  | 'S' :: 'T' :: ' ' :: rest =>
    readAccess (fun adr dat => some (.st adr dat)) (fun _ _ => none) rest
  | 'L' :: 'D' :: ' ' :: rest =>
    readAccess (fun _ _ => none) (fun adr dat => some (.ld adr dat)) rest
  | 'I' :: 'O' :: ' ' :: rest =>
    readAccess (fun adr dat => some (.ioWrite adr dat)) (fun adr dat => some (.ioRead adr dat)) rest
  | _ => none

theorem number_hex (v : BitVec 32) : Text.number 16 (hex v) = some v.toNat :=
  Text.number_toDigits (by decide) (by decide) v.toNat

theorem number_put (v : BitVec 32) : Text.number 16 (Dump.put v) = some v.toNat := by
  rw [Dump.put_eq]
  exact Text.number_digits (by decide) (by decide) v.isLt

theorem readWord_of_number {cs : List Char} {v : BitVec 32}
    (h : Text.number 16 cs = some v.toNat) : readWord cs = some v := by
  rw [readWord, h, Option.map_some, BitVec.ofNat_toNat, BitVec.setWidth_eq]

section Access

variable (write read : BitVec 32 → BitVec 32 → Option Line) (adr dat : BitVec 32)

theorem readAccess_write :
    readAccess write read (hex adr ++ (['<', '='] ++ Dump.put dat)) = write adr dat := by
  have htake : Text.takeNumber 16 (hex adr ++ (['<', '='] ++ Dump.put dat)) =
      some (adr.toNat, '<' :: '=' :: Dump.put dat) :=
    Text.takeNumber_append (number_hex adr) (by decide) _
  rw [readAccess, htake]
  show (readWord (Dump.put dat)).bind (write (BitVec.ofNat 32 adr.toNat)) = _
  rw [readWord_of_number (number_put dat), Option.bind_some, BitVec.ofNat_toNat, BitVec.setWidth_eq]

theorem readAccess_read :
    readAccess write read (hex adr ++ (['=', '>'] ++ Dump.put dat)) = read adr dat := by
  have htake : Text.takeNumber 16 (hex adr ++ (['=', '>'] ++ Dump.put dat)) =
      some (adr.toNat, '=' :: '>' :: Dump.put dat) :=
    Text.takeNumber_append (number_hex adr) (by decide) _
  rw [readAccess, htake]
  show (readWord (Dump.put dat)).bind (read (BitVec.ofNat 32 adr.toNat)) = _
  rw [readWord_of_number (number_put dat), Option.bind_some, BitVec.ofNat_toNat, BitVec.setWidth_eq]

end Access

theorem readText_text (l : Line) : readText l.text = some l := by
  cases l with
  | pc adr =>
    show (readWord (hex adr)).map Line.pc = _
    rw [readWord_of_number (number_hex adr)]
    rfl
  | errIadr iadr =>
    show (readWord (hex iadr)).map Line.errIadr = _
    rw [readWord_of_number (number_hex iadr)]
    rfl
  | st adr dat =>
    exact readAccess_write (fun adr dat => some (.st adr dat)) (fun _ _ => none) adr dat
  | ld adr dat =>
    exact readAccess_read (fun _ _ => none) (fun adr dat => some (.ld adr dat)) adr dat
  | ioWrite adr dat =>
    exact readAccess_write (fun adr dat => some (.ioWrite adr dat))
      (fun adr dat => some (.ioRead adr dat)) adr dat
  | ioRead adr dat =>
    exact readAccess_read (fun adr dat => some (.ioWrite adr dat))
      (fun adr dat => some (.ioRead adr dat)) adr dat

theorem not_mem_of_number {cs : List Char} {n : Nat} (h : Text.number 16 cs = some n) :
    '\n' ∉ cs :=
  fun hc => absurd (Text.isDigit_of_number h '\n' hc) (by decide)

theorem newline_not_mem_text (l : Line) : '\n' ∉ l.text := by
  have hhex (v : BitVec 32) := not_mem_of_number (number_hex v)
  have hput (v : BitVec 32) := not_mem_of_number (number_put v)
  cases l <;> simp [text, hhex, hput]

end Line

/-! ## The whole text -/

def printed (ls : List Line) : List Char := Text.endLines (ls.map Line.text)

def readLog (cs : List Char) : Option (List Line) := (Text.lines cs).mapM Line.readText

theorem readLog_printed (ls : List Line) : readLog (printed ls) = some ls := by
  have hlines : Text.lines (printed ls) = ls.map Line.text := by
    refine Text.lines_endLines fun cs hcs => ?_
    obtain ⟨l, -, rfl⟩ := List.mem_map.mp hcs
    exact l.newline_not_mem_text
  have hread : (ls.map Line.text).mapM Line.readText = some ls := by
    clear hlines
    induction ls with
    | nil => rfl
    | cons l ls ih =>
      rw [List.map_cons, List.mapM_cons, l.readText_text, ih]
      rfl
  rw [readLog, hlines, hread]

namespace T5Sim

variable {s t : T5Sim}

/-- The text that a simulation has printed since reset can be read back, and what it says is
a history of what the simulation has done: at every time and when the loop is left, whatever
words the harts execute. -/
theorem log_is_history (X : DontCare) {s₀ b : T5Sim} (hb : Boots X s₀ b) {n : Nat}
    (hn : Loop.steps (T5Sim.round X) n b = some s) (ht : t = s ∨ s.round X = .error t) :
    ∃ cs log, printed t.cout = printed b.cout ++ cs ∧ readLog cs = some log ∧
      World.History b.world log t.world := by
  obtain ⟨log, hcout, hlog⟩ := hb.log hn ht
  refine ⟨printed log, log, ?_, readLog_printed log, hlog⟩
  rw [hcout, printed, List.map_append, Text.endLines_append]
  rfl

/-- `addi x2, x0, 65`, `sw x2, 256(x0)` and `lw x3, 256(x0)` on all four harts. -/
theorem log_of_store_and_load :
    let image : Ram := fun k =>
      [0x04100113#32, 0x10202023#32, 0x10002183#32].getD k.toNat 0x00000013#32
    let said := ["ST 100<=00000041", "ST 100<=00000041", "ST 100<=00000041", "ST 100<=00000041",
      "LD 100=>00000041", "LD 100=>00000041", "LD 100=>00000041", "LD 100=>00000041"]
    ∃ b t : T5Sim, Boots default (entered image) b ∧ Loop.steps (round default) 32 b = some t ∧
      ∃ log, readLog (Text.endLines (said.map String.toList)) = some log ∧
        World.History b.world log t.world := by
  intro image said
  let b := Loop.after (round default) 9 (entered image)
  let t := Loop.after (round default) 32 b
  have hb : Boots default (entered image) b :=
    ⟨⟨rfl, rfl⟩, Loop.steps_eq_after (by decide +kernel)⟩
  have ht : Loop.steps (round default) 32 b = some t := Loop.steps_eq_after (by decide +kernel)
  have hnil : printed b.cout = [] := by decide +kernel
  have hsaid : printed t.cout = Text.endLines (said.map String.toList) := by decide +kernel
  obtain ⟨cs, log, hcs, hread, hlog⟩ := log_is_history default hb ht (Or.inl rfl)
  rw [hnil, List.nil_append] at hcs
  refine ⟨b, t, hb, ht, log, ?_, hlog⟩
  rw [← hsaid, hcs]
  exact hread

end T5Sim

end Tra5
