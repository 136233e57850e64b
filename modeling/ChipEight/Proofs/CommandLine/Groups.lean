/-
# `ChipEight.Proofs.CommandLine.Groups` — command lines of a path and groups of options

A group is a setting with its value, which stands behind it or is attached to it, or the
flag for the trace.  A command line of one path and any groups before and behind it is
read without looking back: each group changes the settings, and a later group for a
setting takes the place of an earlier one, so that of all its values only the last one
is left.  None but the last has to be one that a run accepts.

**Proved here.**

    each group becomes a switch, with a word behind it or none    (`classify_groups`)
    the switches of the groups change the settings in turn        (`consume_groups`)
    the path is found wherever it stands                          (`read_interleaved`)
    the last value of each setting is what is left in the end     (`foldl_apply`)
-/
import ChipEight.CommandLine.Arguments
import ChipEight.Proofs.CommandLine.Values

namespace ChipEight.CommandLine

/-! ## Settings with their values -/

/-- The values of a setting, as they are written. -/
abbrev Setting.Value : Setting → Type
  | .keys => KeyNames
  | .ticks | .perTick | .seed => Numeral

namespace Setting

def text : (s : Setting) → s.Value → String
  | .keys, names => KeyNames.text names
  | .ticks, n | .perTick, n | .seed, n => Numeral.text n

theorem classifyOne_text : ∀ (s : Setting) (value : s.Value),
    classifyOne (s.text value) = .ok (.word (s.text value))
  | .keys, names => KeyNames.classifyOne_text names
  | .ticks, n | .perTick, n | .seed, n => Numeral.classifyOne_text n

theorem text_ne_dashes : ∀ (s : Setting) (value : s.Value), s.text value ≠ "--"
  | .keys, names => KeyNames.ne_dashes names
  | .ticks, n | .perTick, n | .seed, n => Numeral.ne_dashes n

theorem label_ne_dashes (s : Setting) : s.label ≠ "--" := by
  cases s <;> decide

theorem attached_ne_dashes (s : Setting) (value : String) : s.label ++ "=" ++ value ≠ "--" := by
  intro h
  have hequals : '=' ∈ (s.label ++ "=" ++ value).toList := by
    rw [String.toList_append, String.toList_append]
    exact List.mem_append_left _ (List.mem_append_right _ List.mem_cons_self)
  rw [h] at hequals
  revert hequals
  decide

end Setting

/-! ## Groups -/

/-- A setting with its value, or the flag for the trace. -/
inductive OptionGroup where
  | setting (s : Setting) (attached : Bool) (value : s.Value)
  | trace

namespace OptionGroup

/-- The arguments of a group. -/
def argv : OptionGroup → List String
  | .setting s true value => [s.label ++ "=" ++ s.text value]
  | .setting s false value => [s.label, s.text value]
  | .trace => ["--trace"]

def tokens : OptionGroup → List Token
  | .setting s true value => [.switch (.setting s) true (some (s.text value))]
  | .setting s false value => [.switch (.setting s) true none, .word (s.text value)]
  | .trace => [.switch (.flag .trace) true none]

/-- What a group makes of the settings. -/
def apply (settings : Settings) : OptionGroup → Settings
  | .setting .ticks _ n => { settings with ticks := some (Numeral.value n) }
  | .setting .perTick _ n => { settings with perTick := .int (Numeral.value n) }
  | .setting .seed _ n => { settings with seed := .int (Numeral.value n) }
  | .setting .keys _ names => { settings with keys := KeyNames.keys names }
  | .trace => { settings with trace := true }

/-! ## Reading groups -/

theorem integerFor_text (s : Setting) (n : Numeral) : integerFor s n.text = .ok n.value := by
  rw [integerFor, n.readInt?_text]

theorem set_text (settings : Settings) (attached : Bool) : ∀ (s : Setting) (value : s.Value),
    settings.set s (s.text value) = .ok (apply settings (.setting s attached value))
  | .keys, names => by
      rw [Settings.set, Setting.text, KeyNames.parse_text]
      rfl
  | .ticks, n | .perTick, n | .seed, n => by
      rw [Settings.set, Setting.text, integerFor_text]
      rfl

theorem classify_argv (g : OptionGroup) {rest : List String} {tokens : List Token}
    (hrest : classify rest = .ok tokens) :
    classify (g.argv ++ rest) = .ok (g.tokens ++ tokens) := by
  match g with
  | .setting s true value =>
      exact classify_cons (s.attached_ne_dashes _) (classifyOne_attached s _) hrest
  | .setting s false value =>
      exact classify_cons s.label_ne_dashes (classifyOne_label s)
        (classify_cons (s.text_ne_dashes value) (s.classifyOne_text value) hrest)
  | .trace => exact classify_cons (by decide) classifyOne_trace hrest

theorem consume_tokens (g : OptionGroup) (r : Reading) (rest : List Token) :
    r.consume (g.tokens ++ rest) = { r with settings := g.apply r.settings }.consume rest := by
  match g with
  | .setting s true value =>
      have hset := set_text r.settings true s value
      simp only [tokens, List.cons_append, List.nil_append, Reading.consume, Settings.setAttached,
        if_neg (s.text_ne_dashes value), hset]
  | .setting s false value =>
      have hset := set_text r.settings false s value
      simp only [tokens, List.cons_append, List.nil_append, Reading.consume, hset]
  | .trace => rfl

end OptionGroup

open OptionGroup (argv tokens apply)

theorem classify_groups (groups : List OptionGroup) {rest : List String} {others : List Token}
    (hrest : classify rest = .ok others) :
    classify (groups.flatMap argv ++ rest) = .ok (groups.flatMap tokens ++ others) := by
  induction groups with
  | nil => exact hrest
  | cons g groups ih =>
      rw [List.flatMap_cons, List.flatMap_cons, List.append_assoc, List.append_assoc]
      exact g.classify_argv ih

/-- By induction on the groups; the settings are those that the groups so far have left. -/
theorem consume_groups (groups : List OptionGroup) (rest : List Token) : ∀ r : Reading,
    r.consume (groups.flatMap tokens ++ rest) =
      { r with settings := groups.foldl apply r.settings }.consume rest := by
  induction groups with
  | nil => exact fun _ => rfl
  | cons g groups ih =>
      intro r
      rw [List.flatMap_cons, List.append_assoc, g.consume_tokens, ih]
      rfl

/-! ## The path -/

/-- The tokens of groups start with a switch, so no double dash is taken together with the path. -/
theorem consume_path {r : Reading} (hrom : r.rom = none) (path : String)
    (groups : List OptionGroup) :
    r.consume (.word path :: groups.flatMap tokens) =
      { r with rom := some path }.consume (groups.flatMap tokens) := by
  match groups with
  | [] => simp only [List.flatMap_nil, Reading.consume, hrom]
  | .setting s true value :: groups =>
      simp only [List.flatMap_cons, tokens, List.cons_append, Reading.consume, hrom]
  | .setting s false value :: groups =>
      simp only [List.flatMap_cons, tokens, List.cons_append, Reading.consume, hrom]
  | .trace :: groups =>
      simp only [List.flatMap_cons, tokens, List.cons_append, Reading.consume, hrom]

/-- Groups may stand before a path and behind it. -/
def interleaved (before : List OptionGroup) (path : String) (after : List OptionGroup) :
    List String :=
  before.flatMap argv ++ path :: after.flatMap argv

theorem read_interleaved (before : List OptionGroup) {path : String} (after : List OptionGroup)
    (hpath : path.toList.head? ≠ some '-') :
    read (interleaved before path after) = .ok (.run ⟨path, (before ++ after).foldl apply {}⟩) := by
  have hdashes : path ≠ "--" := by
    rintro rfl
    exact hpath rfl
  have hnone : classify [] = .ok [] := rfl
  have hbehind := classify_groups after hnone
  rw [List.append_nil, List.append_nil] at hbehind
  have hall := classify_groups before
    (classify_cons hdashes (classifyOne_of_not_dash hpath) hbehind)
  rw [read, interleaved, hall]
  show Reading.consume {} (before.flatMap tokens ++ .word path :: after.flatMap tokens) = _
  rw [consume_groups, consume_path rfl, ← List.append_nil (after.flatMap tokens), consume_groups,
    List.foldl_append]
  rfl

/-! ## What is left of the settings -/

/-- The last of the values that groups give. -/
def lastOf {α : Type} (value? : OptionGroup → Option α) (groups : List OptionGroup) : Option α :=
  (groups.filterMap value?).getLast?

theorem lastOf_cons {α : Type} (value? : OptionGroup → Option α) (g : OptionGroup)
    (groups : List OptionGroup) :
    lastOf value? (g :: groups) = (lastOf value? groups).or (value? g) := by
  rw [lastOf, lastOf, List.filterMap_cons]
  cases value? g with
  | none => rw [Option.or_none]
  | some v =>
      rw [List.getLast?_cons]
      cases (groups.filterMap value?).getLast? <;> rfl

namespace OptionGroup

def ticks? : OptionGroup → Option Int
  | .setting .ticks _ n => some (Numeral.value n)
  | _ => none

def perTick? : OptionGroup → Option Int
  | .setting .perTick _ n => some (Numeral.value n)
  | _ => none

def seed? : OptionGroup → Option Int
  | .setting .seed _ n => some (Numeral.value n)
  | _ => none

def keys? : OptionGroup → Option (List (Fin 16))
  | .setting .keys _ names => some (KeyNames.keys names)
  | _ => none

def isTrace : OptionGroup → Bool
  | .trace => true
  | _ => false

end OptionGroup

open OptionGroup (ticks? perTick? seed? keys? isTrace)

/-- By induction on the groups: each changes one setting, and the later ones are asked first. -/
theorem foldl_apply (groups : List OptionGroup) : ∀ s : Settings,
    groups.foldl apply s =
      { ticks := ((lastOf ticks? groups).map some).getD s.ticks
        perTick := ((lastOf perTick? groups).map .int).getD s.perTick
        seed := ((lastOf seed? groups).map .int).getD s.seed
        keys := (lastOf keys? groups).getD s.keys
        trace := s.trace || groups.any isTrace
        verbose := s.verbose } := by
  induction groups with
  | nil =>
      intro s
      rw [List.any_nil, Bool.or_false]
      rfl
  | cons g groups ih =>
      intro s
      simp only [List.foldl_cons, ih, lastOf_cons, List.any_cons, Option.map_or, Option.getD_or]
      match g with
      | .setting .ticks _ n => rfl
      | .setting .perTick _ n => rfl
      | .setting .seed _ n => rfl
      | .setting .keys _ names => rfl
      | .trace =>
          rw [show isTrace .trace = true from rfl, Bool.true_or, Bool.or_true]
          rfl

end ChipEight.CommandLine
