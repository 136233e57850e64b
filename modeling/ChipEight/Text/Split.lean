/-
# `ChipEight.Text.Split` — cutting a text at a character

**Proved here.**

    joining two texts with the separator joins their parts    (`splitOn_append_cons`)
-/

namespace ChipEight.Text

/-- The parts of a text between the occurrences of a character; a text has at least one part. -/
def splitOn (sep : Char) : List Char → List (List Char)
  | [] => [[]]
  | c :: cs =>
      if c = sep then [] :: splitOn sep cs
      else match splitOn sep cs with
        | [] => [[c]]
        | part :: parts => (c :: part) :: parts

theorem splitOn_ne_nil (sep : Char) (cs : List Char) : splitOn sep cs ≠ [] := by
  cases cs with
  | nil => simp [splitOn]
  | cons c cs =>
      simp only [splitOn]
      split
      · simp
      · split <;> simp

theorem splitOn_append_cons (sep : Char) (a b : List Char) :
    splitOn sep (a ++ sep :: b) = splitOn sep a ++ splitOn sep b := by
  induction a with
  | nil => simp [splitOn]
  | cons c a ih =>
      simp only [List.cons_append, splitOn, ih]
      split
      · rfl
      · cases h : splitOn sep a with
        | nil => exact absurd h (splitOn_ne_nil sep a)
        | cons part parts => rfl

end ChipEight.Text
