/-
# `ChipEight.Proofs.CommandLine.Lines` — what is printed of a run, line by line

The text of a run is a sequence of lines: one for each entry of the trace, the 32 lines of
the picture, and the summary.  Numbers are printed as digits, and signs only in front of
negative ones, so neither a blank nor a line end can be part of a number; nor of a line of
the picture, which has two characters only.

**Proved here.**

    a printed number has digits and no other characters       (`mem_hexInt`, `mem_decimalInt`)
    texts without a separator are the parts of their join     (`splitOn_intercalate`, `splitOn_flatMap_append`)
    the text of a run is its lines, each with a line end      (`toList_runText`)
    no line holds a line end itself                           (`not_mem_runLines`)
-/
import ChipEight.CommandLine.Response
import ChipEight.Proofs.CommandLine.Values

namespace ChipEight

namespace Text

/-! ## Printed numbers -/

theorem mem_digits {base : Nat} (hbase : 2 ≤ base) {n : Nat} {c : Char} :
    c ∈ digits base n → ∃ d, d < base ∧ c = digitChar d := by
  induction n using digits.induct base with
  | case1 n hsmall =>
      intro h
      rw [digits, if_pos hsmall] at h
      exact ⟨n, by omega, List.mem_singleton.1 h⟩
  | case2 n hlarge ih =>
      intro h
      rw [digits, if_neg hlarge] at h
      rcases List.mem_append.1 h with h | h
      · exact ih h
      · exact ⟨n % base, Nat.mod_lt n (by omega), List.mem_singleton.1 h⟩

theorem mem_padded {width : Nat} {cs : List Char} {c : Char} (h : c ∈ padded width cs) :
    c = '0' ∨ c ∈ cs := by
  rcases List.mem_append.1 h with h | h
  · exact .inl (List.eq_of_mem_replicate h)
  · exact .inr h

/-- The digits that numbers are printed with. -/
def hexDigits : List Char := (List.range 16).map digitChar

theorem digitChar_mem {d : Nat} (h : d < 16) : digitChar d ∈ hexDigits :=
  List.mem_map.2 ⟨d, List.mem_range.2 h, rfl⟩

theorem mem_decimal {n : Nat} {c : Char} (h : c ∈ (decimal n).toList) : c ∈ hexDigits := by
  rw [decimal, String.toList_ofList] at h
  obtain ⟨d, hd, rfl⟩ := mem_digits (by decide) h
  exact digitChar_mem (by omega)

theorem mem_hex {width n : Nat} {c : Char} (h : c ∈ (hex width n).toList) : c ∈ hexDigits := by
  rw [hex, String.toList_ofList] at h
  rcases mem_padded h with rfl | h
  · decide
  · obtain ⟨d, hd, rfl⟩ := mem_digits (by decide) h
    exact digitChar_mem hd

/-- What numbers are printed with. -/
def numberChars : List Char := '-' :: hexDigits

theorem mem_hexInt {width : Nat} {i : Int} {c : Char} (h : c ∈ (hexInt width i).toList) :
    c ∈ numberChars := by
  cases i with
  | ofNat n => exact List.mem_cons_of_mem _ (mem_hex h)
  | negSucc n =>
      rw [hexInt, String.toList_append] at h
      rcases List.mem_append.1 h with h | h
      · rw [List.mem_singleton.1 h]
        exact List.mem_cons_self
      · exact List.mem_cons_of_mem _ (mem_hex h)

theorem mem_decimalInt {i : Int} {c : Char} (h : c ∈ (decimalInt i).toList) : c ∈ numberChars := by
  cases i with
  | ofNat n => exact List.mem_cons_of_mem _ (mem_decimal h)
  | negSucc n =>
      rw [decimalInt, String.toList_append] at h
      rcases List.mem_append.1 h with h | h
      · rw [List.mem_singleton.1 h]
        exact List.mem_cons_self
      · exact List.mem_cons_of_mem _ (mem_decimal h)

/-! ## Parts and lines -/

variable {sep : Char}

theorem splitOn_intercalate : ∀ {parts : List (List Char)}, parts ≠ [] →
    (∀ part ∈ parts, sep ∉ part) → splitOn sep ([sep].intercalate parts) = parts
  | [part], _, h => by
      rw [List.intercalate_singleton]
      exact splitOn_of_not_mem (h part List.mem_cons_self)
  | first :: second :: parts, _, h => by
      obtain ⟨hfirst, hrest⟩ := List.forall_mem_cons.1 h
      rw [List.intercalate_cons_cons, List.append_assoc, List.singleton_append, splitOn_append_cons,
        splitOn_of_not_mem hfirst, splitOn_intercalate (List.cons_ne_nil _ _) hrest]
      rfl

/-- Each separator ends one of the parts in front of the rest. -/
theorem splitOn_flatMap_append {parts : List (List Char)} (h : ∀ part ∈ parts, sep ∉ part)
    (rest : List Char) :
    splitOn sep (parts.flatMap (· ++ [sep]) ++ rest) = parts ++ splitOn sep rest := by
  induction parts with
  | nil => rfl
  | cons part parts ih =>
      obtain ⟨hfirst, hrest⟩ := List.forall_mem_cons.1 h
      rw [List.flatMap_cons, List.append_assoc, List.append_assoc, List.singleton_append,
        splitOn_append_cons, splitOn_of_not_mem hfirst, ih hrest]
      rfl

theorem mem_intercalate {c : Char} : ∀ {parts : List (List Char)}, c ∈ [sep].intercalate parts →
    c = sep ∨ ∃ part ∈ parts, c ∈ part
  | [], h => absurd h List.not_mem_nil
  | [part], h => by
      rw [List.intercalate_singleton] at h
      exact .inr ⟨part, List.mem_cons_self, h⟩
  | first :: second :: parts, h => by
      rw [List.intercalate_cons_cons, List.append_assoc] at h
      rcases List.mem_append.1 h with h | h
      · exact .inr ⟨first, List.mem_cons_self, h⟩
      · rcases List.mem_append.1 h with h | h
        · exact .inl (List.mem_singleton.1 h)
        · rcases mem_intercalate h with h | ⟨part, hpart, h⟩
          · exact .inl h
          · exact .inr ⟨part, List.mem_cons_of_mem _ hpart, h⟩

/-- Lines with line ends between them and one more at the end have a line end each. -/
theorem intercalate_append_sep : ∀ {parts : List (List Char)}, parts ≠ [] →
    [sep].intercalate parts ++ [sep] = parts.flatMap (· ++ [sep])
  | [part], _ => by
      rw [List.intercalate_singleton, List.flatMap_cons, List.flatMap_nil, List.append_nil]
  | first :: second :: parts, _ => by
      rw [List.intercalate_cons_cons, List.append_assoc,
        intercalate_append_sep (List.cons_ne_nil second parts)]
      rfl

end Text

namespace CommandLine

/-! ## The lines of a run -/

/-- The picture is its lines from top to bottom, each with a line end. -/
theorem render_line_end (s : Screen) :
    s.render "#" "." ++ "\n" =
      String.join ((List.range 32).map fun y => s.line "#" "." y ++ "\n") := by
  have hsome : ((List.range 32).map (s.line "#" ".")).map String.toList ≠ [] :=
    List.cons_ne_nil _ _
  rw [← String.toList_inj, String.toList_append, Screen.render, String.toList_intercalate,
    String.toList_join]
  refine (Text.intercalate_append_sep hsome).trans ?_
  simp only [List.flatMap_map, String.toList_append]
  rfl

/-- The line of an entry without its end. -/
def entryChars (e : Entry) : List Char :=
  (Text.hexInt 3 e.address).toList ++ ':' :: ' ' :: (Text.hex 4 e.word.toNat).toList

/-- A line of the picture without its end. -/
def pictureChars (s : Screen) (y : Nat) : List Char :=
  (List.range 64).map fun x : Nat => if s.pixel x y then '#' else '.'

/-- A number under its name. -/
def named (name value : String) : List Char := name.toList ++ '=' :: value.toList

/-- The registers, separated by blanks. -/
def registersChars (m : Machine) : List Char :=
  [' '].intercalate (m.registers.toList.map fun b => (Text.hex 2 b.toNat).toList)

/-- The words of the summary in front of the registers. -/
def summaryWords (m : Machine) : List (List Char) :=
  [ named "PC" (Text.hexInt 3 m.pc), named "I" (Text.hexInt 3 m.index),
    named "SP" (Text.hexInt 1 m.sp), named "DT" (Text.decimalInt m.delay),
    named "ST" (Text.decimalInt m.sound) ]

/-- The summary without its line end. -/
def summaryChars (m : Machine) : List Char :=
  (summaryWords m).flatMap (· ++ [' ']) ++ ('V' :: '=' :: '[' :: (registersChars m ++ [']']))

theorem toList_entryLine (e : Entry) : (entryLine e).toList = entryChars e ++ ['\n'] := by
  simp only [entryLine, entryChars, String.toList_append, List.append_assoc, List.cons_append]
  rfl

theorem toList_line (s : Screen) (y : Nat) : (s.line "#" "." y).toList = pictureChars s y :=
  s.toList_line_singleton '#' '.' y

/-- The picture is 32 lines of 64 marks, one for each pixel. -/
theorem render_eq_pixels (s : Screen) :
    s.render "#" "." ++ "\n" = String.join ((List.range 32).map fun y : Nat =>
      .ofList ((List.range 64).map fun x : Nat => if s.pixel x y then '#' else '.') ++ "\n") := by
  have hline (y : Nat) : s.line "#" "." y = .ofList (pictureChars s y) := by
    rw [← String.toList_inj, toList_line, String.toList_ofList]
  rw [render_line_end]
  simp only [hline]
  rfl

/-- The blank picture has 32 lines of 64 dots. -/
theorem render_blank :
    Screen.blank.render "#" "." ++ "\n" =
      String.join (List.replicate 32 (.ofList (List.replicate 64 '.') ++ "\n")) := by
  have hpixel (x y : Int) : Screen.blank.pixel x y = false := by
    rw [Screen.pixel, Screen.row, Screen.blank]
    simp [Vector.get]
  rw [render_eq_pixels]
  simp only [hpixel, Bool.false_eq_true, if_false, List.map_const', List.length_range]

theorem toList_summaryLine (m : Machine) : (summaryLine m).toList = summaryChars m ++ ['\n'] := by
  delta summaryLine
  simp only [summaryChars, summaryWords, named, registersChars, List.flatMap_cons, List.flatMap_nil,
    String.toList_append, String.toList_intercalate, List.append_assoc, List.cons_append,
    List.map_map]
  rfl

/-- All lines that are printed of a run, without their ends. -/
def runLines (r : Run) : List (List Char) :=
  r.trace.toList.map entryChars ++
    ((List.range 32).map (pictureChars r.machine.screen) ++ [summaryChars r.machine])

theorem runText_eq_lines (r : Run) :
    runText r = String.join (r.trace.toList.map entryLine) ++
      (String.join ((List.range 32).map fun y => r.machine.screen.line "#" "." y ++ "\n") ++
        summaryLine r.machine) := by
  rw [runText, machineText, render_line_end]

theorem toList_runText (r : Run) :
    (runText r).toList = (runLines r).flatMap (· ++ ['\n']) := by
  simp only [runText_eq_lines, runLines, String.toList_append, String.toList_join,
    toList_summaryLine, List.flatMap_append, List.flatMap_map, toList_entryLine, toList_line,
    List.flatMap_singleton]
  rfl

/-! ## Between the numbers -/

/-- The characters by which words and lines are told apart. -/
def IsMark (c : Char) : Prop := c = ' ' ∨ c = '\n' ∨ c = '[' ∨ c = ']'

section

variable {c : Char} (hc : IsMark c)
include hc

theorem IsMark.not_mem_numberChars : c ∉ Text.numberChars := by
  rcases hc with rfl | rfl | rfl | rfl <;> decide

theorem not_mem_named {name value : String} (hname : c ∉ name.toList)
    (hvalue : c ∈ value.toList → c ∈ Text.numberChars) : c ∉ named name value := by
  intro h
  rcases List.mem_append.1 h with h | h
  · exact hname h
  · rcases List.mem_cons.1 h with rfl | h
    · rcases hc with hc | hc | hc | hc <;> cases hc
    · exact hc.not_mem_numberChars (hvalue h)

theorem not_mem_summaryWords (m : Machine) : ∀ word ∈ summaryWords m, c ∉ word := by
  have hname : ∀ name ∈ ["PC", "I", "SP", "DT", "ST"], c ∉ name.toList := by
    rcases hc with rfl | rfl | rfl | rfl <;> decide
  simp only [List.forall_mem_cons] at hname
  obtain ⟨hpc, hindex, hsp, hdelay, hsound, -⟩ := hname
  simp only [summaryWords, List.forall_mem_cons]
  exact ⟨not_mem_named hc hpc Text.mem_hexInt, not_mem_named hc hindex Text.mem_hexInt,
    not_mem_named hc hsp Text.mem_hexInt, not_mem_named hc hdelay Text.mem_decimalInt,
    not_mem_named hc hsound Text.mem_decimalInt, fun _ h => absurd h List.not_mem_nil⟩

theorem not_mem_hex (width n : Nat) : c ∉ (Text.hex width n).toList := fun h =>
  hc.not_mem_numberChars (List.mem_cons_of_mem _ (Text.mem_hex h))

theorem not_mem_decimal (n : Nat) : c ∉ (Text.decimal n).toList := fun h =>
  hc.not_mem_numberChars (List.mem_cons_of_mem _ (Text.mem_decimal h))

end

theorem isMark_lineEnd : IsMark '\n' := .inr (.inl rfl)

theorem not_mem_entryChars (e : Entry) : '\n' ∉ entryChars e := by
  intro h
  rcases List.mem_append.1 h with h | h
  · exact isMark_lineEnd.not_mem_numberChars (Text.mem_hexInt h)
  · rcases List.mem_cons.1 h with h | h
    · cases h
    · rcases List.mem_cons.1 h with h | h
      · cases h
      · exact not_mem_hex isMark_lineEnd _ _ h

theorem not_mem_pictureChars (s : Screen) (y : Nat) : '\n' ∉ pictureChars s y := by
  intro h
  obtain ⟨x, -, hx⟩ := List.mem_map.1 h
  split at hx <;> cases hx

theorem not_mem_summaryChars (m : Machine) : '\n' ∉ summaryChars m := by
  have hregisters : '\n' ∉ registersChars m := by
    intro h
    rcases Text.mem_intercalate h with h | ⟨part, hpart, h⟩
    · cases h
    · obtain ⟨b, -, rfl⟩ := List.mem_map.1 hpart
      exact not_mem_hex isMark_lineEnd _ _ h
  intro h
  rcases List.mem_append.1 h with h | h
  · obtain ⟨word, hword, h⟩ := List.mem_flatMap.1 h
    rcases List.mem_append.1 h with h | h
    · exact not_mem_summaryWords isMark_lineEnd m word hword h
    · cases List.mem_singleton.1 h
  · simp only [List.mem_cons, List.mem_append, hregisters, List.not_mem_nil, or_false] at h
    revert h
    decide

theorem not_mem_runLines (r : Run) : ∀ line ∈ runLines r, '\n' ∉ line := by
  intro line h
  rcases List.mem_append.1 h with h | h
  · obtain ⟨e, -, rfl⟩ := List.mem_map.1 h
    exact not_mem_entryChars e
  · rcases List.mem_append.1 h with h | h
    · obtain ⟨y, -, rfl⟩ := List.mem_map.1 h
      exact not_mem_pictureChars _ y
    · rw [List.mem_singleton.1 h]
      exact not_mem_summaryChars _

end CommandLine

end ChipEight
