/-
# `ChipEight.Proofs.CommandLine.KeySpellings` — lists of keys, part by part

The parts of a list of keys are read one by one, from the left, up to the first one that is
no key.  So a list in two halves is read as the keys of both, and refused for what is wrong
in its left half before anything in the right one.

A key has many spellings: a plus sign may stand in front, `0x` or `0X` behind that, then any
number of zeros, and its digit is in either case.  Blanks around a key, and parts with
nothing but blanks, are not seen.

**Proved here.**

    the keys are the integers that the parts are read as    (`parse_eq_ok_iff`)
    a list is the list of its two halves                    (`parse_append_comma`)
    a spelling is read as its key                           (`KeySpelling.readInt?_chars`)
    of a written list only the spellings are kept           (`ListPart.parts_join`)
    a written list is read as its keys                      (`ListPart.parse_join`)
    all of it for whole lists                               (`parse_part_by_part`)
-/
import ChipEight.Proofs.CommandLine.Lines

namespace ChipEight

/-! ## Part by part -/

/-- A computation over a list succeeds if it does on the first member and on the others. -/
theorem mapM_cons_eq_ok_iff {α β ε : Type} {f : α → Except ε β} {x : α} {xs : List α}
    {ys : List β} :
    (x :: xs).mapM f = .ok ys ↔ ∃ y zs, f x = .ok y ∧ xs.mapM f = .ok zs ∧ ys = y :: zs := by
  rw [List.mapM_cons]
  constructor
  · intro h
    cases hfirst : f x with
    | error e => rw [hfirst] at h; cases h
    | ok y =>
        cases hrest : xs.mapM f with
        | error e => rw [hfirst, hrest] at h; cases h
        | ok zs =>
            rw [hfirst, hrest] at h
            exact ⟨y, zs, rfl, rfl, (Except.ok.inj h).symm⟩
  · rintro ⟨y, zs, hfirst, hrest, rfl⟩
    rw [hfirst, hrest]
    rfl

namespace KeyList

/-- By induction on the parts: none of them is passed over, and none is read twice. -/
theorem mapM_key_eq_ok_iff {ps : List (List Char)} : ∀ {ks : List (Fin 16)},
    ps.mapM key = .ok ks ↔
      ps.map (Text.readInt? Text.hexFormat) = ks.map fun k => some (k.val : Int) := by
  induction ps with
  | nil =>
      intro ks
      rw [List.mapM_nil, List.map_nil]
      constructor
      · intro h
        obtain rfl : [] = ks := Except.ok.inj h
        rfl
      · intro h
        obtain rfl := List.map_eq_nil_iff.1 h.symm
        rfl
  | cons part ps ih =>
      intro ks
      rw [mapM_cons_eq_ok_iff]
      constructor
      · rintro ⟨k, rest, hkey, hrest, rfl⟩
        rw [List.map_cons, List.map_cons, key_eq_ok_iff.1 hkey, ih.1 hrest]
      · intro h
        obtain ⟨k, rest, rfl, hkey, hrest⟩ := List.map_eq_cons_iff.1 h.symm
        exact ⟨k, rest, key_eq_ok_iff.2 hkey.symm, ih.2 hrest.symm, rfl⟩

theorem parse_eq_ok_iff {cs : List Char} {ks : List (Fin 16)} :
    parse cs = .ok ks ↔
      (parts cs).map (Text.readInt? Text.hexFormat) = ks.map fun k => some (k.val : Int) :=
  mapM_key_eq_ok_iff

/-- The right half is looked at when nothing is wrong with the left one. -/
theorem parse_append_comma (a b : List Char) :
    parse (a ++ ',' :: b) = (parse a).bind fun ks => (parse b).map fun ls => ks ++ ls := by
  rw [parse, parts_append_comma, List.mapM_append]
  rfl

end KeyList

/-! ## Announcements -/

namespace Text

/-- The digits are announced by a letter, so a text without it is kept whole. -/
theorem dropAnnouncement_of_not_mem {format : IntegerFormat} {cs : List Char} (hsmall : 'x' ∉ cs)
    (hcapital : 'X' ∉ cs) : dropAnnouncement format cs = cs := by
  match cs with
  | [] => rfl
  | [_] => rfl
  | first :: second :: rest =>
      have hx : (second == 'x') = false := beq_false_of_ne fun h => hsmall (by simp [h])
      have hX : (second == 'X') = false := beq_false_of_ne fun h => hcapital (by simp [h])
      simp [dropAnnouncement, hx, hX]

/-- An announcement is dropped, and so would be an underscore behind it. -/
theorem dropAnnouncement_announced {x : Char} {cs : List Char} (hx : x = 'x' ∨ x = 'X')
    (hcs : '_' ∉ cs) : dropAnnouncement hexFormat ('0' :: x :: cs) = cs := by
  have hzero : decimalValue? '0' = some 0 := by decide
  have hannounced : (x == 'x' || x == 'X') = true := by simpa using hx
  rw [dropAnnouncement, hzero, hannounced, if_pos (by decide)]
  rintro rest rfl
  exact hcs List.mem_cons_self

end Text

namespace CommandLine

/-! ## Spellings of a key -/

/-- What may stand in front of the digits of a key. -/
inductive Announcement where
  | absent
  | small
  | capital

namespace Announcement

def chars : Announcement → List Char
  | .absent => []
  | .small => ['0', 'x']
  | .capital => ['0', 'X']

theorem mem_chars {a : Announcement} {c : Char} (h : c ∈ a.chars) :
    c = '0' ∨ c = 'x' ∨ c = 'X' := by
  cases a with
  | absent => exact absurd h List.not_mem_nil
  | small =>
      rcases List.mem_cons.1 h with h | h
      · exact .inl h
      · exact .inr (.inl (List.mem_singleton.1 h))
  | capital =>
      rcases List.mem_cons.1 h with h | h
      · exact .inl h
      · exact .inr (.inr (List.mem_singleton.1 h))

end Announcement

/-- A key as it may be written. -/
structure KeySpelling where
  plus : Bool
  announcement : Announcement
  zeros : Nat
  name : KeyName

namespace KeySpelling

variable (s : KeySpelling)

/-- The digits of a spelling: zeros, and the digit of the key. -/
def digits : List Char := List.replicate s.zeros '0' ++ [s.name.char]

/-- The characters behind the sign. -/
def unsigned : List Char := s.announcement.chars ++ s.digits

def chars : List Char := if s.plus then '+' :: s.unsigned else s.unsigned

/-- The characters that the digits of a key are written with. -/
def digitChars : List Char := "0123456789ABCDEFabcdef".toList

theorem char_mem : ∀ (key : Fin 16) (capital : Bool),
    (⟨key, capital⟩ : KeyName).char ∈ digitChars := by
  decide

theorem digitBelow?_char : ∀ (key : Fin 16) (capital : Bool),
    Text.digitBelow? 16 (⟨key, capital⟩ : KeyName).char = some key.val := by
  decide

variable {s}

theorem mem_digits {c : Char} (h : c ∈ s.digits) : c ∈ digitChars := by
  rcases List.mem_append.1 h with h | h
  · rw [List.eq_of_mem_replicate h]
    decide
  · rw [List.mem_singleton.1 h]
    exact char_mem s.name.key s.name.capital

theorem mem_unsigned {c : Char} (h : c ∈ s.unsigned) : c ∈ 'x' :: 'X' :: digitChars := by
  rcases List.mem_append.1 h with h | h
  · rcases Announcement.mem_chars h with rfl | rfl | rfl <;> decide
  · exact List.mem_cons_of_mem _ (List.mem_cons_of_mem _ (mem_digits h))

theorem mem_chars {c : Char} (h : c ∈ s.chars) : c ∈ '+' :: 'x' :: 'X' :: digitChars := by
  rw [chars] at h
  split at h
  · rcases List.mem_cons.1 h with rfl | h
    · exact List.mem_cons_self
    · exact List.mem_cons_of_mem _ (mem_unsigned h)
  · exact List.mem_cons_of_mem _ (mem_unsigned h)

/-- Nothing that a key is written with is dropped around it, or ends it. -/
theorem kept_of_mem {c : Char} (h : c ∈ s.chars) :
    Text.isBlank c = false ∧ c ≠ ',' ∧ ∀ basic, Text.isMargin basic c = false := by
  have hall : ('+' :: 'x' :: 'X' :: digitChars).all (fun c => Text.isBlank c = false ∧ c ≠ ',' ∧
      ∀ basic, Text.isMargin basic c = false) = true := by
    decide
  exact of_decide_eq_true (List.all_eq_true.1 hall c (mem_chars h))

theorem isBlank_of_mem {c : Char} (h : c ∈ s.chars) : Text.isBlank c = false :=
  (kept_of_mem h).1

theorem comma_not_mem : ',' ∉ s.chars :=
  fun h => (kept_of_mem h).2.1 rfl

variable (s)

theorem chars_ne_nil : s.chars ≠ [] := by
  rw [chars]
  split <;> simp [unsigned, digits]

theorem dropMargins_chars : Text.dropMargins s.chars = s.chars :=
  Text.trimWhile_of_forall fun _ h => (kept_of_mem h).2.2 _

theorem dropAnnouncement_unsigned :
    Text.dropAnnouncement Text.hexFormat s.unsigned = s.digits := by
  have hnot {c : Char} (h : c ∉ digitChars) : c ∉ s.digits := fun hc => h (mem_digits hc)
  rw [unsigned]
  cases s.announcement with
  | absent => exact Text.dropAnnouncement_of_not_mem (hnot (by decide)) (hnot (by decide))
  | small => exact Text.dropAnnouncement_announced (.inl rfl) (hnot (by decide))
  | capital => exact Text.dropAnnouncement_announced (.inr rfl) (hnot (by decide))

theorem digitRun?_digits :
    Text.digitRun? 16 s.digits = some (List.replicate s.zeros 0 ++ [s.name.key.val]) := by
  have hsplit : Text.splitOn '_' s.digits = [s.digits] :=
    Text.splitOn_of_not_mem fun h => absurd (mem_digits h) (by decide)
  have hzeros : (List.replicate s.zeros '0').mapM (Text.digitBelow? 16) =
      some ((List.replicate s.zeros '0').map fun _ => 0) :=
    mapM_eq_pure fun c hc => by
      rw [List.eq_of_mem_replicate hc]
      decide
  have hstretch : Text.stretch? 16 s.digits =
      some (List.replicate s.zeros 0 ++ [s.name.key.val]) := by
    rw [Text.stretch?, if_neg (by simp [digits]), digits, List.mapM_append, hzeros,
      List.map_replicate, List.mapM_cons, digitBelow?_char s.name.key s.name.capital]
    rfl
  rw [Text.digitRun?, hsplit, List.mapM_cons, hstretch]
  simp

theorem readNat?_unsigned : Text.readNat? Text.hexFormat s.unsigned = some s.name.key.val := by
  have hrun := s.digitRun?_digits
  rw [← dropAnnouncement_unsigned] at hrun
  show ((Text.digitRun? 16 (Text.dropAnnouncement Text.hexFormat s.unsigned)).bind fun ds =>
    if Text.hexFormat.limit.any (· < ds.length) then none else some (Text.valueOf 16 ds)) = _
  rw [hrun]
  show some (Text.valueOf 16 (List.replicate s.zeros 0 ++ [s.name.key.val])) = _
  rw [Text.valueOf_zeros]
  exact congrArg some (Nat.zero_add _)

/-- A spelling is read as the number of its key. -/
theorem readInt?_chars :
    Text.readInt? Text.hexFormat s.chars = some (s.name.key.val : Int) := by
  rw [Text.readInt?, dropMargins_chars]
  cases hplus : s.plus with
  | true =>
      rw [chars, if_pos hplus]
      show (Text.readNat? Text.hexFormat s.unsigned).map Int.ofNat = _
      rw [readNat?_unsigned]
      rfl
  | false =>
      have hunsigned : s.chars = s.unsigned := by rw [chars, hplus, if_neg Bool.false_ne_true]
      rw [hunsigned]
      -- neither sign can stand first: it would be a digit or belong to an announcement
      split
      · next hminus =>
          exact absurd (mem_unsigned (hminus ▸ List.mem_cons_self)) (by decide)
      · next hplus =>
          exact absurd (mem_unsigned (hplus ▸ List.mem_cons_self)) (by decide)
      · rw [readNat?_unsigned]
        rfl

end KeySpelling

/-! ## Written lists -/

/-- White space, and nothing else. -/
structure Blanks where
  chars : List Char
  allBlank : chars.all Text.isBlank = true

/-- A part of a list as it may be written. -/
inductive ListPart where
  | blank (space : Blanks)
  | key (before : Blanks) (spelling : KeySpelling) (after : Blanks)

namespace ListPart

def chars : ListPart → List Char
  | .blank space => space.chars
  | .key before spelling after => before.chars ++ spelling.chars ++ after.chars

/-- The spelling of the key in a part, if it is not blank. -/
def spelling? : ListPart → Option KeySpelling
  | .blank _ => none
  | .key _ spelling _ => some spelling

/-- The key in a part, if it is not blank. -/
def key? (p : ListPart) : Option (Fin 16) := p.spelling?.map fun spelling => spelling.name.key

/-- The parts of a list with commas between them. -/
def join (ps : List ListPart) : List Char := [','].intercalate (ps.map chars)

theorem comma_not_mem_blanks (space : Blanks) : ',' ∉ space.chars :=
  fun h => absurd (List.all_eq_true.1 space.allBlank ',' h) (by decide)

theorem comma_not_mem (p : ListPart) : ',' ∉ p.chars := by
  cases p with
  | blank space => exact comma_not_mem_blanks space
  | key before spelling after =>
      simp only [chars, List.mem_append, not_or]
      exact ⟨⟨comma_not_mem_blanks before, KeySpelling.comma_not_mem⟩, comma_not_mem_blanks after⟩

theorem trim_blank (space : Blanks) : Text.trim (ListPart.blank space).chars = [] := by
  have htrimmed : Text.trimWhile Text.isBlank (space.chars ++ [] ++ []) = [] :=
    Text.trimWhile_surround Text.isBlank (List.all_eq_true.1 space.allBlank)
      (fun _ hc => absurd hc List.not_mem_nil) (fun _ hc => by cases hc) (fun _ hc => by cases hc)
  rwa [List.append_nil, List.append_nil] at htrimmed

theorem trim_key (before after : Blanks) (s : KeySpelling) :
    Text.trim (ListPart.key before s after).chars = s.chars :=
  Text.trimWhile_surround Text.isBlank (List.all_eq_true.1 before.allBlank)
    (List.all_eq_true.1 after.allBlank)
    (fun _ hc => KeySpelling.isBlank_of_mem (List.mem_of_head? hc))
    (fun _ hc => KeySpelling.isBlank_of_mem (List.mem_of_getLast? hc))

/-- By induction on the parts: a blank one leaves nothing, and of any other its spelling is left. -/
theorem filter_trim (ps : List ListPart) :
    ((ps.map chars).map Text.trim).filter (fun part => !part.isEmpty) =
      (ps.filterMap spelling?).map KeySpelling.chars := by
  induction ps with
  | nil => rfl
  | cons p ps ih =>
      cases p with
      | blank space =>
          rw [List.map_cons, List.map_cons, trim_blank, List.filter_cons_of_neg (by decide), ih]
          rfl
      | key before spelling after =>
          have hkept : ¬ spelling.chars.isEmpty = true :=
            mt List.isEmpty_iff.1 spelling.chars_ne_nil
          rw [List.map_cons, List.map_cons, trim_key, List.filter_cons_of_pos (by simp [hkept]), ih]
          rfl

theorem parts_join (ps : List ListPart) :
    KeyList.parts (join ps) = (ps.filterMap spelling?).map KeySpelling.chars := by
  cases ps with
  | nil => decide
  | cons p ps =>
      have hsplit : Text.splitOn ',' (join (p :: ps)) = (p :: ps).map chars := by
        refine Text.splitOn_intercalate (List.cons_ne_nil _ _) fun part hpart => ?_
        obtain ⟨q, -, rfl⟩ := List.mem_map.1 hpart
        exact q.comma_not_mem
      rw [KeyList.parts, hsplit]
      exact filter_trim (p :: ps)

/-- A written list is read as its keys. -/
theorem parse_join (ps : List ListPart) : KeyList.parse (join ps) = .ok (ps.filterMap key?) := by
  have hkeys : ps.filterMap key? = (ps.filterMap spelling?).map fun s => s.name.key := by
    rw [List.map_filterMap]
    rfl
  rw [KeyList.parse_eq_ok_iff, parts_join, hkeys, List.map_map, List.map_map]
  exact List.map_congr_left fun s _ => s.readInt?_chars

end ListPart

end CommandLine

namespace KeyList

open CommandLine

/-- A list of keys is read part by part.  It is accepted if both of its halves are, and then
gives the keys of both; otherwise it fails as the first half that fails.  The keys of an
accepted list are the integers that its parts are read as, all of them from 0 to 15.  Any
list of keys is read back, however its keys are spelled and whatever blanks are between
them. -/
theorem parse_part_by_part :
    (∀ a b : List Char,
      ((∃ ks, parse (a ++ ',' :: b) = .ok ks) ↔ (∃ ks, parse a = .ok ks) ∧ ∃ ls, parse b = .ok ls) ∧
      (∀ ks ls, parse a = .ok ks → parse b = .ok ls → parse (a ++ ',' :: b) = .ok (ks ++ ls)) ∧
      (∀ e, parse a = .error e → parse (a ++ ',' :: b) = .error e) ∧
      (∀ ks e, parse a = .ok ks → parse b = .error e → parse (a ++ ',' :: b) = .error e)) ∧
    (∀ (cs : List Char) (ks : List (Fin 16)),
      (parse cs = .ok ks ↔
        (parts cs).map (Text.readInt? Text.hexFormat) = ks.map fun k => some (k.val : Int)) ∧
      ∀ k ∈ ks, 0 ≤ (k.val : Int) ∧ (k.val : Int) ≤ 0xF) ∧
    ∀ ps : List ListPart, parse (ListPart.join ps) = .ok (ps.filterMap ListPart.key?) := by
  refine ⟨fun a b => ?_, fun cs ks => ⟨parse_eq_ok_iff, fun k _ => ?_⟩, ListPart.parse_join⟩
  · rw [parse_append_comma]
    cases parse a with
    | error e => simp [Except.bind]
    | ok ks =>
        cases parse b with
        | error e => simp [Except.bind, Except.map]
        | ok ls => simp [Except.bind, Except.map]
  · have hlt := k.isLt
    omega

/-- One half is a list of two keys and the other is not a list of keys; and a key with a sign,
an announcement and zeros is read between wide blanks, next to parts that are blank. -/
theorem parse_part_by_part_of_two_halves :
    parse "1,A".toList = .ok [1, 10] ∧ parse "G,10".toList = .error (.unreadable ['G']) ∧
    parse ("1,A".toList ++ ',' :: "1,A".toList) = .ok [1, 10, 1, 10] ∧
    parse ("1,A".toList ++ ',' :: "G,10".toList) = .error (.unreadable ['G']) ∧
    parse ("G,10".toList ++ ',' :: "1,A".toList) = .error (.unreadable ['G']) ∧
    parse "\u2003+0X00f\t,, ,b".toList = .ok [15, 11] := by
  obtain ⟨hhalves, hread, hjoin⟩ := parse_part_by_part
  have hkeys : parse "1,A".toList = .ok [1, 10] := (hread _ _).1.2 (by decide)
  have hnone : parse "G,10".toList = .error (.unreadable ['G']) := rfl
  have hboth := (hhalves "1,A".toList "1,A".toList).2.1 _ _ hkeys hkeys
  have hright := (hhalves "1,A".toList "G,10".toList).2.2.2 _ _ hkeys hnone
  have hleft := (hhalves "G,10".toList "1,A".toList).2.2.1 _ hnone
  refine ⟨hkeys, hnone, hboth, hright, hleft, ?_⟩
  exact hjoin
    [.key ⟨['\u2003'], by decide⟩ ⟨true, .capital, 2, ⟨15, false⟩⟩ ⟨['\t'], by decide⟩,
      .blank ⟨[], by decide⟩, .blank ⟨[' '], by decide⟩,
      .key ⟨[], by decide⟩ ⟨false, .absent, 0, ⟨11, false⟩⟩ ⟨[], by decide⟩]

end KeyList

end ChipEight
