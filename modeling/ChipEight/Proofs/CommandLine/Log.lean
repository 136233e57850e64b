/-
# `ChipEight.Proofs.CommandLine.Log` — the log, record by record

The log of a run says what is about to be run; then that the ROM was loaded, if it was; and
then, if the run faulted, at which word and in which tick.  Each part of the program writes
its records under its own name.

A record takes one line, for fixed words and numbers have no line end in them.  The path is
the only thing that the log takes over from the command line, and a path may have one.

**Proved here.**

    the log is its records, a line each              (`log_eq_records`)
    the parts of a text are made of its characters   (`mem_of_mem_splitOn`)
    a path in plain form has slashes, dots, and the
    characters that it was given                     (`mem_of_mem_pathText`)
    a record has a line end only from the path       (`proper_records`)
-/
import ChipEight.Proofs.CommandLine.Lines

namespace ChipEight.CommandLine

/-! ## Records -/

/-- What is logged, and the part of the program that logs it. -/
structure LogRecord where
  part : String
  text : String

namespace LogRecord

def line (record : LogRecord) : String := logLine record.part record.text

def running (path : String) (ticks : Int) : LogRecord where
  part := "chip8.cli"
  text := "Running " ++ path ++ " for " ++ Text.decimalInt ticks ++ " ticks"

def loaded (size : Nat) : LogRecord where
  part := "chip8.loader"
  text := "Loaded " ++ Text.decimal size ++ " byte ROM at 0x" ++ Text.hex 3 romStart

def unassigned (f : Fault) : LogRecord where
  part := "chip8.instructions"
  text := "Invalid opcode 0x" ++ Text.hex 4 f.word.toNat ++ " at 0x" ++ Text.hex 3 f.address.val

def stopped (f : Fault) (ticks : Nat) : LogRecord where
  part := "chip8.runner"
  text := "Run stopped at tick " ++ Text.decimal ticks ++ ": " ++ (f.report ticks).message

end LogRecord

/-- The records of a planned run. -/
def Plan.records (p : Plan) (rom : List Byte) (outcome : Except RomTooLarge Run) :
    List LogRecord :=
  .running p.path.text p.ticks ::
    match outcome with
    | .error _ => []
    | .ok r => .loaded rom.length ::
        match r.fault with
        | none => []
        | some f => [.unassigned f, .stopped f r.ticks]

theorem log_eq_records (p : Plan) (rom : List Byte) (outcome : Except RomTooLarge Run) :
    p.log rom outcome = String.join ((p.records rom outcome).map LogRecord.line) := by
  have hstart : startLog p.path.text p.ticks = (LogRecord.running p.path.text p.ticks).line := rfl
  have hload : loadLog rom.length = (LogRecord.loaded rom.length).line := rfl
  have hfaults (f : Fault) (ticks : Nat) : faultLog f ticks =
      (LogRecord.unassigned f).line ++ (LogRecord.stopped f ticks).line := rfl
  rw [← String.toList_inj]
  cases outcome with
  | error e => simp [Plan.log, Plan.records, hstart]
  | ok r => cases hfault : r.fault <;> simp [Plan.log, Plan.records, hstart, hload, hfaults, hfault]

/-! ## Line ends -/

/-- A record of the program, which takes one line unless a path takes several. -/
structure LogRecord.Proper (paths : List String) (record : LogRecord) : Prop where
  part : record.part ∈ ["chip8.cli", "chip8.loader", "chip8.instructions", "chip8.runner"]
  text : '\n' ∈ record.text.toList → ∃ path ∈ paths, '\n' ∈ path.toList

theorem mem_of_mem_splitOn {sep c : Char} {cs part : List Char}
    (hpart : part ∈ Text.splitOn sep cs) (hc : c ∈ part) : c ∈ cs := by
  induction cs generalizing part with
  | nil =>
      rw [Text.splitOn, List.mem_singleton] at hpart
      rw [hpart] at hc
      exact hc
  | cons first cs ih =>
      rw [Text.splitOn] at hpart
      split at hpart
      · rcases List.mem_cons.1 hpart with rfl | hpart
        · cases hc
        · exact List.mem_cons_of_mem _ (ih hpart hc)
      · split at hpart
        · next hnil => exact absurd hnil (Text.splitOn_ne_nil sep cs)
        · next head parts hsplit =>
            rcases List.mem_cons.1 hpart with rfl | hpart
            · rcases List.mem_cons.1 hc with rfl | hc
              · exact List.mem_cons_self
              · exact List.mem_cons_of_mem _ (ih (hsplit ▸ List.mem_cons_self) hc)
            · exact List.mem_cons_of_mem _ (ih (hsplit ▸ List.mem_cons_of_mem _ hpart) hc)

/-- Plain form adds only slashes and a dot. -/
theorem mem_of_mem_pathText {text : String} {c : Char} (hslash : c ≠ '/') (hdot : c ≠ '.')
    (h : c ∈ (Path.ofText text).text.toList) : c ∈ text.toList := by
  rw [Path.text] at h
  split at h
  · exact absurd (List.mem_singleton.1 h) hdot
  · rw [String.toList_ofList] at h
    rcases List.mem_append.1 h with h | h
    · have hroot : ∀ c ∈ Path.rootOf text.toList, c = '/' := by
        rw [Path.rootOf]
        split <;> simp
      exact absurd (hroot c h) hslash
    · rcases Text.mem_intercalate h with h | ⟨part, hpart, h⟩
      · exact absurd h hslash
      · exact mem_of_mem_splitOn (List.mem_filter.1 hpart).1 h

theorem not_mem_append {c : Char} {a b : String} (ha : c ∉ a.toList) (hb : c ∉ b.toList) :
    c ∉ (a ++ b).toList := by
  rw [String.toList_append, List.mem_append]
  exact not_or_intro ha hb

theorem not_mem_running {path : String} (hpath : '\n' ∉ path.toList) (ticks : Int) :
    '\n' ∉ (LogRecord.running path ticks).text.toList := by
  refine not_mem_append (not_mem_append (not_mem_append ?_ ?_) ?_) ?_
  · exact not_mem_append (by decide) hpath
  · decide
  · exact fun h => isMark_lineEnd.not_mem_numberChars (Text.mem_decimalInt h)
  · decide

theorem not_mem_loaded (size : Nat) : '\n' ∉ (LogRecord.loaded size).text.toList := by
  refine not_mem_append (not_mem_append (not_mem_append ?_ ?_) ?_) ?_
  · decide
  · exact not_mem_decimal isMark_lineEnd size
  · decide
  · exact not_mem_hex isMark_lineEnd 3 romStart

theorem not_mem_unassigned (f : Fault) : '\n' ∉ (LogRecord.unassigned f).text.toList := by
  refine not_mem_append (not_mem_append (not_mem_append ?_ ?_) ?_) ?_
  · decide
  · exact not_mem_hex isMark_lineEnd 4 _
  · decide
  · exact not_mem_hex isMark_lineEnd 3 _

theorem not_mem_stopped (f : Fault) (ticks : Nat) :
    '\n' ∉ (LogRecord.stopped f ticks).text.toList := by
  refine not_mem_append (not_mem_append (not_mem_append ?_ ?_) ?_) (not_mem_append ?_ ?_)
  · decide
  · exact not_mem_decimal isMark_lineEnd ticks
  · decide
  · decide
  · exact not_mem_hex isMark_lineEnd 4 f.word.toNat

/-- The path is the only part of the log that may have a line end. -/
theorem proper_running {paths : List String} {p : Plan} {path : String} (hpath : path ∈ paths)
    (hp : p.path = .ofText path) : (LogRecord.running p.path.text p.ticks).Proper paths := by
  refine ⟨List.mem_cons_self, fun h => ⟨path, hpath, ?_⟩⟩
  have hinPath : '\n' ∈ p.path.text.toList :=
    Decidable.byContradiction fun hnone => not_mem_running hnone p.ticks h
  rw [hp] at hinPath
  exact mem_of_mem_pathText (by decide) (by decide) hinPath

theorem proper_records {paths : List String} {p : Plan} {path : String} (hpath : path ∈ paths)
    (hp : p.path = .ofText path) (rom : List Byte) (outcome : Except RomTooLarge Run) :
    ∀ record ∈ p.records rom outcome, record.Proper paths := by
  refine List.forall_mem_cons.2 ⟨proper_running hpath hp, ?_⟩
  cases outcome with
  | error e => exact fun _ h => absurd h List.not_mem_nil
  | ok r =>
      have hloaded : (LogRecord.loaded rom.length).Proper paths :=
        ⟨List.mem_of_elem_eq_true rfl, fun h => absurd h (not_mem_loaded _)⟩
      refine List.forall_mem_cons.2 ⟨hloaded, ?_⟩
      cases r.fault with
      | none => exact fun _ h => absurd h List.not_mem_nil
      | some f =>
          have hunassigned : (LogRecord.unassigned f).Proper paths :=
            ⟨List.mem_of_elem_eq_true rfl, fun h => absurd h (not_mem_unassigned f)⟩
          have hstopped : (LogRecord.stopped f r.ticks).Proper paths :=
            ⟨List.mem_of_elem_eq_true rfl, fun h => absurd h (not_mem_stopped f r.ticks)⟩
          exact List.forall_mem_cons.2 ⟨hunassigned, List.forall_mem_singleton.2 hstopped⟩

end ChipEight.CommandLine
