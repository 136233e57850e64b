/-
# `ChipEight.Proofs.CommandLine.Values` — the texts of numbers and keys

A number is written in decimal digits, with a minus sign in front or without; zeros in
front do not matter, and neither does how many digits there are, up to a limit.  Keys are
written as hexadecimal digits of either case with commas between them.  None of these
texts is mistaken for a switch, and each is read as what it stands for.

**Proved here.**

    a numeral is a word and is read as its value              (`Numeral.classifyOne_text`, `Numeral.readInt?_text`)
    a list of keys is a word and is read as these keys        (`KeyNames.classifyOne_text`, `KeyNames.parse_text`)
-/
import ChipEight.Proofs.CommandLine.Classification

namespace ChipEight

/-! ## Texts that are kept whole -/

theorem Text.splitOn_of_not_mem {sep : Char} {cs : List Char} (h : sep ∉ cs) :
    Text.splitOn sep cs = [cs] := by
  induction cs with
  | nil => rfl
  | cons c cs ih =>
      obtain ⟨hfirst, hrest⟩ := not_or.1 (mt List.mem_cons.2 h)
      rw [Text.splitOn, if_neg (Ne.symm hfirst), ih hrest]

theorem Text.trimWhile_of_forall {p : Char → Bool} {cs : List Char} (h : ∀ c ∈ cs, p c = false) :
    Text.trimWhile p cs = cs := by
  have hkept : Text.trimWhile p ([] ++ cs ++ []) = cs :=
    Text.trimWhile_surround p (fun _ hc => absurd hc List.not_mem_nil)
      (fun _ hc => absurd hc List.not_mem_nil) (fun c hc => h c (List.mem_of_head? hc))
      (fun c hc => h c (List.mem_of_getLast? hc))
  rwa [List.nil_append, List.append_nil] at hkept

/-- A computation over a list in which no member fails. -/
theorem mapM_eq_pure {α β : Type} {m : Type → Type} [Monad m] [LawfulMonad m] {f : α → m β}
    {g : α → β} {xs : List α} (h : ∀ x ∈ xs, f x = pure (g x)) :
    xs.mapM f = pure (xs.map g) := by
  induction xs with
  | nil => rfl
  | cons x xs ih =>
      obtain ⟨hfirst, hrest⟩ := List.forall_mem_cons.1 h
      rw [List.mapM_cons, hfirst, ih hrest, pure_bind, pure_bind, List.map_cons]

namespace CommandLine

/-! ## Digits -/

section

variable {c : Char} (h : c.isDigit = true)
include h

theorem bounds_of_isDigit : 48 ≤ c.toNat ∧ c.toNat ≤ 57 := by
  simp only [Char.isDigit, Bool.and_eq_true, decide_eq_true_eq, UInt32.le_iff_toNat_le] at h
  exact h

theorem decimalValue?_of_isDigit : Text.decimalValue? c = some (c.toNat - 48) := by
  obtain ⟨hlow, hhigh⟩ := bounds_of_isDigit h
  have hvalue := Text.decimalValue?_ascii (c.toNat - 48) (by omega)
  rwa [Nat.add_sub_cancel' hlow, Char.ofNat_toNat] at hvalue

theorem digitBelow?_of_isDigit : Text.digitBelow? 10 c = some (c.toNat - 48) := by
  have hlt : c.toNat - 48 < 10 := by
    have hbounds := bounds_of_isDigit h
    omega
  rw [Text.digitBelow?, Text.digitValue?, decimalValue?_of_isDigit h]
  simp [hlt]

theorem ne_of_isDigit {other : Char} (hother : other.isDigit = false) : c ≠ other := by
  rintro rfl
  rw [h] at hother
  cases hother

theorem isMargin_of_isDigit (basic : Bool) : Text.isMargin basic c = false := by
  obtain ⟨hlow, hhigh⟩ := bounds_of_isDigit h
  have hspace : (c == ' ') = false := beq_false_of_ne (ne_of_isDigit h (by decide))
  rw [Text.isMargin, if_pos (by omega), hspace]
  simp only [Bool.false_or, Bool.and_eq_false_iff, decide_eq_false_iff_not]
  omega

end

/-! ## Numerals -/

/-- A decimal integer as it is written. -/
structure Numeral where
  negative : Bool
  digits : List Char
  allDigits : digits.all Char.isDigit = true
  nonempty : digits ≠ []
  short : digits.length ≤ 4300

namespace Numeral

variable (n : Numeral)

/-- The characters of a numeral. -/
def chars : List Char := if n.negative then '-' :: n.digits else n.digits

def text : String := .ofList n.chars

/-- The number that the digits stand for. -/
def magnitude : Nat := Text.valueOf 10 (n.digits.map fun c => c.toNat - 48)

/-- The number that a numeral stands for. -/
def value : Int := if n.negative then -(n.magnitude : Int) else n.magnitude

theorem toList_text : n.text.toList = n.chars := String.toList_ofList

theorem isDigit {c : Char} (h : c ∈ n.digits) : c.isDigit = true :=
  List.all_eq_true.1 n.allDigits c h

theorem not_mem_digits {c : Char} (h : c.isDigit = false) : c ∉ n.digits :=
  fun hc => ne_of_isDigit (n.isDigit hc) h rfl

theorem exists_cons : ∃ c cs, n.digits = c :: cs ∧ c.isDigit = true := by
  obtain ⟨c, cs, hdigits⟩ := List.exists_cons_of_ne_nil n.nonempty
  exact ⟨c, cs, hdigits, n.isDigit (hdigits ▸ List.mem_cons_self)⟩

theorem isMargin_of_mem {c : Char} (h : c ∈ n.chars) (basic : Bool) :
    Text.isMargin basic c = false := by
  rw [chars] at h
  split at h
  · rcases List.mem_cons.1 h with rfl | h
    · cases basic <;> decide
    · exact isMargin_of_isDigit (n.isDigit h) basic
  · exact isMargin_of_isDigit (n.isDigit h) basic

/-- Nothing around a numeral is dropped. -/
theorem dropMargins_chars : Text.dropMargins n.chars = n.chars :=
  Text.trimWhile_of_forall fun _ hc => n.isMargin_of_mem hc _

theorem digitRun?_digits :
    Text.digitRun? 10 n.digits = some (n.digits.map fun c => c.toNat - 48) := by
  have hsplit : Text.splitOn '_' n.digits = [n.digits] :=
    Text.splitOn_of_not_mem (n.not_mem_digits (by decide))
  have hstretch : Text.stretch? 10 n.digits = some (n.digits.map fun c => c.toNat - 48) := by
    rw [Text.stretch?, if_neg (mt List.isEmpty_iff.1 n.nonempty)]
    exact mapM_eq_pure fun c hc => digitBelow?_of_isDigit (n.isDigit hc)
  rw [Text.digitRun?, hsplit, List.mapM_cons, hstretch]
  simp

theorem dropAnnouncement_decimal (cs : List Char) :
    Text.dropAnnouncement Text.decimalFormat cs = cs := by
  match cs with
  | [] | [_] | _ :: _ :: _ => rfl

theorem readNat?_digits : Text.readNat? Text.decimalFormat n.digits = some n.magnitude := by
  rw [Text.readNat?, dropAnnouncement_decimal]
  show ((Text.digitRun? 10 n.digits).bind fun ds =>
    if Text.decimalFormat.limit.any (· < ds.length) then none else some (Text.valueOf 10 ds)) = _
  rw [digitRun?_digits]
  simp [Text.decimalFormat, magnitude, n.short]

/-- A numeral is read as the number that it stands for. -/
theorem readInt?_text : Text.readInt? Text.decimalFormat n.text.toList = some n.value := by
  rw [toList_text, Text.readInt?, dropMargins_chars]
  cases hsign : n.negative with
  | true =>
      rw [chars, value, if_pos hsign, if_pos hsign]
      show (Text.readNat? Text.decimalFormat n.digits).map (fun k => -(k : Int)) = _
      rw [readNat?_digits]
      rfl
  | false =>
      have hplain : ¬ n.negative = true := by
        rw [hsign]
        exact Bool.false_ne_true
      rw [chars, value, if_neg hplain, if_neg hplain]
      split
      · next hminus =>
          exact absurd (hminus ▸ List.mem_cons_self) (n.not_mem_digits (by decide))
      · next hplus =>
          exact absurd (hplus ▸ List.mem_cons_self) (n.not_mem_digits (by decide))
      · rw [readNat?_digits]
        rfl

/-! ## Numerals as arguments -/

theorem ne_dashes : n.text ≠ "--" := by
  intro h
  have hchars : n.chars = ['-', '-'] := by
    rw [← toList_text, h]
    rfl
  have hmem : '-' ∈ n.digits := by
    rw [chars] at hchars
    split at hchars
    · rw [(List.cons.inj hchars).2]
      exact List.mem_cons_self
    · rw [hchars]
      exact List.mem_cons_self
  exact n.not_mem_digits (by decide) hmem

theorem isNegativeNumber_of_digits : isNegativeNumber ('-' :: n.digits) = true := by
  have hbreak : n.digits.getLast? ≠ some '\n' := fun h =>
    n.not_mem_digits (by decide) (List.mem_of_getLast? h)
  have hsplit : Text.splitOn '.' n.digits = [n.digits] :=
    Text.splitOn_of_not_mem (n.not_mem_digits (by decide))
  have hdigits : isDigits n.digits = true := by
    refine List.all_eq_true.2 fun c hc => ?_
    rw [decimalValue?_of_isDigit (n.isDigit hc)]
    rfl
  have hsome : n.digits.isEmpty = false := List.isEmpty_eq_false_iff.2 n.nonempty
  simp only [isNegativeNumber, if_neg hbreak, hsplit, hdigits, hsome, Bool.not_false,
    Bool.and_self]

/-- No switch is spelled with a digit behind the dash. -/
theorem second_of_spelling : ∀ p ∈ spellings, (p.1.toList.getD 1 '-').isDigit = false := by
  decide

/-- A negative number is a word, although it starts with a dash. -/
theorem classifyOne_text : classifyOne n.text = .ok (.word n.text) := by
  cases hsign : n.negative with
  | true =>
      obtain ⟨c, cs, hdigits, hc⟩ := n.exists_cons
      have hchars : n.text.toList = '-' :: n.digits := by rw [toList_text, chars, if_pos hsign]
      have hlist : n.text.toList = '-' :: c :: cs := by rw [hchars, hdigits]
      have hequals : '=' ∉ n.text.toList := by
        rw [hchars]
        exact List.not_mem_cons_of_ne_of_not_mem (by decide) (n.not_mem_digits (by decide))
      have hspelled : ∀ p ∈ spellings, p.1.toList ≠ n.text.toList := by
        intro p hp heq
        have hsecond := second_of_spelling p hp
        rw [heq, hlist] at hsecond
        exact ne_of_isDigit hc hsecond rfl
      have hletter : flagOfLetter? c = none := by
        rw [flagOfLetter?]
        · exact ne_of_isDigit hc (by decide)
        · exact ne_of_isDigit hc (by decide)
      have hcandidates : candidates n.text.toList = [] := by
        have hshort : isLong ('-' :: c :: cs) = false := by
          rw [isLong]
          rintro cs' heq
          exact ne_of_isDigit hc (by decide) (List.cons.inj (List.cons.inj heq).2).1
        rw [hlist, candidates, hshort, if_neg Bool.false_ne_true, lettered, hletter]
      rw [classifyOne_of_guess hlist hequals hspelled, guess, hcandidates, hchars,
        n.isNegativeNumber_of_digits]
      rfl
  | false =>
      refine classifyOne_of_not_dash fun hdash => ?_
      rw [toList_text, chars, hsign] at hdash
      exact n.not_mem_digits (by decide) (List.mem_of_head? hdash)

end Numeral

/-! ## Keys -/

/-- A key as it is written: a hexadecimal digit, of which six are letters in one of two cases. -/
structure KeyName where
  key : Fin 16
  capital : Bool

def KeyName.char (k : KeyName) : Char :=
  if k.capital then Text.digitChar k.key else (Text.digitChar k.key).toLower

/-- A list of keys as it is written, with at least one. -/
structure KeyNames where
  first : KeyName
  rest : List KeyName

namespace KeyNames

variable (names : KeyNames)

/-- The characters of a list: all keys but the first have a comma in front. -/
def chars : List Char := names.first.char :: names.rest.flatMap fun k => [',', k.char]

def text : String := .ofList names.chars

/-- The keys of a list, in order. -/
def keys : List (Fin 16) := names.first.key :: names.rest.map KeyName.key

theorem toList_text : names.text.toList = names.chars := String.toList_ofList

theorem parts_char : ∀ (key : Fin 16) (capital : Bool),
    KeyList.parts [(⟨key, capital⟩ : KeyName).char] = [[(⟨key, capital⟩ : KeyName).char]] := by
  decide

theorem readInt?_char : ∀ (key : Fin 16) (capital : Bool),
    Text.readInt? Text.hexFormat [(⟨key, capital⟩ : KeyName).char] = some (key.val : Int) := by
  decide

theorem char_ne_dash : ∀ (key : Fin 16) (capital : Bool),
    (⟨key, capital⟩ : KeyName).char ≠ '-' := by
  decide

theorem key_char (k : KeyName) : KeyList.key [k.char] = .ok k.key :=
  KeyList.key_eq_ok_iff.2 (readInt?_char k.key k.capital)

/-- By induction on the keys behind the first one, each of which is a part of its own. -/
theorem parts_chars (rest : List KeyName) : ∀ first : KeyName,
    KeyList.parts (KeyNames.mk first rest).chars = (first :: rest).map fun k => [k.char] := by
  induction rest with
  | nil => exact fun first => parts_char first.key first.capital
  | cons next rest ih =>
      intro first
      have hchars : (KeyNames.mk first (next :: rest)).chars =
          [first.char] ++ ',' :: (KeyNames.mk next rest).chars := rfl
      rw [hchars, KeyList.parts_append_comma, parts_char first.key first.capital, ih next]
      rfl

/-- A list of keys is read as these keys. -/
theorem parse_text : KeyList.parse names.text.toList = .ok names.keys := by
  rw [toList_text, KeyList.parse, parts_chars, List.mapM_map]
  exact mapM_eq_pure fun k _ => key_char k

theorem head_ne_dash : names.text.toList.head? ≠ some '-' := by
  rw [toList_text]
  exact fun h => char_ne_dash names.first.key names.first.capital (Option.some.inj h)

theorem ne_dashes : names.text ≠ "--" := by
  intro h
  refine names.head_ne_dash ?_
  rw [h]
  rfl

theorem classifyOne_text : classifyOne names.text = .ok (.word names.text) :=
  classifyOne_of_not_dash names.head_ne_dash

end KeyNames

end CommandLine

end ChipEight
