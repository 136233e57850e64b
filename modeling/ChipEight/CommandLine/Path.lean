/-
# `ChipEight.CommandLine.Path` — paths in plain form

A path is a sequence of names behind no slash, one or two.  Doubled slashes,
slashes at the end and names that are a single dot say nothing and are dropped;
two dots are kept, since what they mean depends on the files.
-/
import ChipEight.Text.Split

namespace ChipEight

/-- A path in plain form. -/
structure Path where
  /-- The slashes in front: none for a relative path. -/
  root : List Char
  parts : List (List Char)
  deriving DecidableEq, Repr

namespace Path

/-- The slashes that count in front of a path: two if there are exactly two, else at most one. -/
def rootOf (cs : List Char) : List Char :=
  match cs.takeWhile (· = '/') with
  | [] => []
  | ['/', '/'] => ['/', '/']
  | _ => ['/']

/-- The path that a text stands for. -/
def ofText (text : String) : Path where
  root := rootOf text.toList
  parts := (Text.splitOn '/' text.toList).filter fun part => !(part = [] || part = ['.'])

/-- A path as text; the empty relative path is a dot. -/
def text (p : Path) : String :=
  if p.root = [] && p.parts = [] then "."
  else .ofList (p.root ++ ['/'].intercalate p.parts)

end Path

end ChipEight
