/-
# `ChipEight.Proofs.CommandLine.Classification` — which arguments are switches

An argument with a dash in front is compared with the spellings of the switches, first as
a whole and then as far as its first `=`.  Only what fits neither way is guessed at.  An
argument without a dash is never compared with anything.

**Proved here.**

    a text without a dash in front is a word             (`classifyOne_of_not_dash`)
    a spelling stands for its switch, with a value
    attached or without                                  (`classifyOne_label`, `classifyOne_attached`)
    what is no spelling is guessed at                    (`classifyOne_of_guess`)
    arguments are classified one by one                  (`classify_cons_map`)
-/
import ChipEight.CommandLine.Token

namespace ChipEight.CommandLine

/-- Only a dash in front makes a switch of an argument. -/
theorem classifyOne_of_not_dash {text : String} (h : text.toList.head? ≠ some '-') :
    classifyOne text = .ok (.word text) := by
  rw [classifyOne]
  split
  · rfl
  · rfl
  · next hdash =>
      rw [hdash] at h
      exact absurd rfl h
  · rfl

/-! ## Spellings -/

theorem exactly_eq_none {cs : List Char} (h : ∀ p ∈ spellings, p.1.toList ≠ cs)
    (attached : Option String) : exactly cs attached = none := by
  have hlookup : spellings.lookup (.ofList cs) = none := by
    refine List.lookup_eq_none_iff.2 fun p hp => bne_iff_ne.2 fun heq => ?_
    exact h p hp (by rw [← heq, String.toList_ofList])
  rw [exactly, hlookup]
  rfl

theorem equals_not_mem_spelling : ∀ p ∈ spellings, '=' ∉ p.1.toList := by decide

theorem bne_of_not_mem {mark : Char} {cs : List Char} (h : mark ∉ cs) :
    ∀ c ∈ cs, (c != mark) = true := by
  intro c hc
  refine bne_iff_ne.2 ?_
  rintro rfl
  exact h hc

theorem cutAtEquals_of_not_mem {cs : List Char} (h : '=' ∉ cs) : cutAtEquals cs = (cs, none) := by
  have hdrop : (cs ++ []).dropWhile (· != '=') = [] :=
    List.dropWhile_append_of_pos (bne_of_not_mem h)
  rw [List.append_nil] at hdrop
  rw [cutAtEquals, hdrop]

theorem cutAtEquals_append {name : List Char} (h : '=' ∉ name) (value : List Char) :
    cutAtEquals (name ++ '=' :: value) = (name, some (.ofList value)) := by
  have hall := bne_of_not_mem h
  rw [cutAtEquals, List.dropWhile_append_of_pos hall, List.takeWhile_append_of_pos hall]
  simp

/-! ## Arguments with a dash in front -/

section

variable {text : String} {second : Char} {rest : List Char}
  (h : text.toList = '-' :: second :: rest)
include h

theorem classifyOne_of_cut {name : List Char} {value : Option String} {token : Token}
    (hcut : cutAtEquals text.toList = (name, value)) (hnone : exactly text.toList none = none)
    (htoken : exactly name value = some token) : classifyOne text = .ok token := by
  rw [classifyOne, h]
  rw [h] at hcut hnone
  simp only [hcut, hnone, htoken]

theorem classifyOne_of_guess (hequals : '=' ∉ text.toList)
    (hspelled : ∀ p ∈ spellings, p.1.toList ≠ text.toList) : classifyOne text = guess text := by
  have hcut := cutAtEquals_of_not_mem hequals
  have hnone := exactly_eq_none hspelled none
  rw [classifyOne, h]
  rw [h] at hcut hnone
  simp only [hcut, hnone]

end

theorem classifyOne_label (s : Setting) :
    classifyOne s.label = .ok (.switch (.setting s) true none) := by
  cases s <;> rfl

theorem classifyOne_trace : classifyOne "--trace" = .ok (.switch (.flag .trace) true none) := rfl

/-- A value may be attached to the spelling of a setting, whatever it is. -/
theorem classifyOne_attached (s : Setting) (value : String) :
    classifyOne (s.label ++ "=" ++ value) = .ok (.switch (.setting s) true (some value)) := by
  have hlist : (s.label ++ "=" ++ value).toList = s.label.toList ++ '=' :: value.toList := by
    rw [String.toList_append, String.toList_append, List.append_assoc]
    rfl
  have hlabel : ∃ second rest, s.label.toList = '-' :: second :: rest := by
    cases s <;> exact ⟨_, _, rfl⟩
  have hequals : '=' ∉ s.label.toList := by
    cases s <;> decide
  have hspelled : exactly s.label.toList (some value) = some (.switch (.setting s) true (some value)) := by
    cases s <;> rfl
  obtain ⟨second, rest, hcons⟩ := hlabel
  refine classifyOne_of_cut (by rw [hlist, hcons]; rfl) ?_ ?_ hspelled
  · rw [hlist, cutAtEquals_append hequals, String.ofList_toList]
  · refine exactly_eq_none (fun p hp heq => equals_not_mem_spelling p hp ?_) none
    rw [heq, hlist]
    exact List.mem_append_right _ List.mem_cons_self

/-! ## Several arguments -/

theorem classify_cons_map {text : String} {token : Token} (hdashes : text ≠ "--")
    (htoken : classifyOne text = .ok token) (rest : List String) :
    classify (text :: rest) = (classify rest).map (token :: ·) := by
  rw [classify, if_neg hdashes, htoken]
  cases classify rest <;> rfl

theorem classify_cons {text : String} {token : Token} {rest : List String} {tokens : List Token}
    (hdashes : text ≠ "--") (htoken : classifyOne text = .ok token)
    (hrest : classify rest = .ok tokens) : classify (text :: rest) = .ok (token :: tokens) := by
  rw [classify_cons_map hdashes htoken, hrest]
  rfl

end ChipEight.CommandLine
