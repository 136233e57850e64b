/-
# `ChipEight.Text.Blank` — white space, and texts without it at the ends

White space is what separates or ends lines and pages, the separators of files,
groups, records and units, and every character that is a space of some width.

**Proved here.**

    blanks around a text are lost              (`trimWhile_surround`)
-/

namespace ChipEight.Text

/-- Whether a character is white space. -/
def isBlank (c : Char) : Bool :=
  let n := c.toNat
  (0x09 ≤ n && n ≤ 0x0D) || (0x1C ≤ n && n ≤ 0x20) || n == 0x85 || n == 0xA0 || n == 0x1680 ||
    (0x2000 ≤ n && n ≤ 0x200A) || n == 0x2028 || n == 0x2029 || n == 0x202F || n == 0x205F ||
    n == 0x3000

/-- A text without the characters of a class at its two ends. -/
def trimWhile (p : Char → Bool) (cs : List Char) : List Char :=
  ((cs.dropWhile p).reverse.dropWhile p).reverse

/-- A text without white space at its two ends. -/
def trim (cs : List Char) : List Char := trimWhile isBlank cs

/-- A class is dropped in one go when a text starts with nothing else. -/
theorem dropWhile_append_all (p : Char → Bool) {left : List Char} (h : ∀ c ∈ left, p c = true)
    (cs : List Char) : (left ++ cs).dropWhile p = cs.dropWhile p := by
  induction left with
  | nil => rfl
  | cons a left ih =>
      rw [List.cons_append, List.dropWhile_cons, if_pos (h a (by simp))]
      exact ih fun c hc => h c (by simp [hc])

/-- Nothing is dropped from a text whose first character is kept. -/
theorem dropWhile_eq_self (p : Char → Bool) (cs : List Char)
    (h : ∀ c, cs.head? = some c → p c = false) : cs.dropWhile p = cs := by
  cases cs with
  | nil => rfl
  | cons a cs => rw [List.dropWhile_cons, h a rfl]; rfl

/-- Blanks put around a text without blanks at its ends are lost again. -/
theorem trimWhile_surround (p : Char → Bool) {left right cs : List Char}
    (hl : ∀ c ∈ left, p c = true) (hr : ∀ c ∈ right, p c = true)
    (hfirst : ∀ c, cs.head? = some c → p c = false)
    (hlast : ∀ c, cs.getLast? = some c → p c = false) :
    trimWhile p (left ++ cs ++ right) = cs := by
  rw [trimWhile, List.append_assoc, dropWhile_append_all p hl]
  cases cs with
  | nil =>
      have : right.dropWhile p = [] := by
        have := dropWhile_append_all p hr []
        simpa using this
      simp [this]
  | cons a cs =>
      have ha : p a = false := hfirst a rfl
      rw [List.cons_append, List.dropWhile_cons, ha]
      simp only [Bool.false_eq_true, if_false]
      rw [← List.cons_append, List.reverse_append,
        dropWhile_append_all p fun c hc => hr c (List.mem_reverse.1 hc),
        dropWhile_eq_self p, List.reverse_reverse]
      intro c hc
      rw [List.head?_reverse] at hc
      exact hlast c hc

end ChipEight.Text
