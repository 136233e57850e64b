/-
# `ChipEight.CommandLine.FileTree` — the files that paths lead to

What lies at a path is looked up first, and a regular file is read then.  The
system may refuse both.  Four of its refusals to look something up say that
nothing is there, and so count as an answer; the others do not.

A tree of files lies below the directory in which the program runs.  A path is
followed name by name, and only directories lead on.  Two dots lead to the
directory above; above the tree nothing is known but that there are directories.

Names and paths have a greatest length.  A path that is too long is refused
before it is followed, and a name when it is looked up.
-/
import ChipEight.CommandLine.Path
import ChipEight.Word

namespace ChipEight

/-! ## Obstacles -/

/-- A refusal of the system, with its number and its description. -/
structure SystemError where
  number : Nat
  description : String
  deriving DecidableEq, Repr

namespace SystemError

def nameTooLong : SystemError := ⟨36, "File name too long"⟩

/-- Whether a refusal to look something up says that nothing is there: no such name, no open file,
no directory in front of a name, too many links. -/
def SaysMissing (e : SystemError) : Prop := e.number ∈ [2, 9, 20, 40]

instance (e : SystemError) : Decidable e.SaysMissing := inferInstanceAs (Decidable (_ ∈ _))

end SystemError

/-- Why there are no contents of a file. -/
inductive Obstacle where
  /-- No regular file is there. -/
  | missing
  /-- The system does not tell what is there. -/
  | lookupRefused (e : SystemError)
  /-- A regular file is there, but the system does not give its contents. -/
  | readRefused (e : SystemError)
  deriving DecidableEq, Repr

/-- What it means that the system refuses to look something up. -/
def Obstacle.ofLookup (e : SystemError) : Obstacle :=
  if e.SaysMissing then .missing else .lookupRefused e

/-! ## Trees -/

/-- Where a path may lead to. -/
inductive Place where
  /-- The place in the tree that some names lead to. -/
  | inside (names : List (List Char))
  /-- A directory outside of the tree. -/
  | outside
  deriving DecidableEq, Repr

/-- The files and directories of a tree, each with the names that lead to it; a directory has no
contents of its own. -/
structure FileTree where
  entries : List (List (List Char) × Option (List Byte))

namespace FileTree

/-- The tree with the given names; a name that ends in a slash is a directory. -/
def ofNamed (files : List (String × List Byte)) : FileTree where
  entries := files.map fun (name, contents) =>
    ((Path.ofText name).parts, if name.toList.getLast? = some '/' then none else some contents)

/-- The most bytes that a name may have. -/
def longestName : Nat := 255

/-- The most bytes that the text of a path may have. -/
def longestPath : Nat := 4095

/-- Whether there is a directory at some place: the top of the tree, a listed directory, or one
that something lies in. -/
def isDirectory (t : FileTree) : Place → Bool
  | .outside => true
  | .inside place => place.isEmpty || t.entries.any fun (names, contents) =>
      place.isPrefixOf names && (contents.isNone || names != place)

/-- The directory above a directory. -/
def above : Place → Place
  | .inside (name :: names) => .inside (name :: names).dropLast
  | .inside [] | .outside => .outside

/-- Follows one name. -/
def follow (t : FileTree) (place : Place) (name : List Char) : Except Obstacle Place :=
  if !t.isDirectory place then .error .missing
  else if name = ['.', '.'] then .ok (above place)
  else if longestName < (String.ofList name).utf8ByteSize then .error (.ofLookup .nameTooLong)
  else match place with
    | .inside names => .ok (.inside (names ++ [name]))
    | .outside => .error .missing

/-- The contents of the regular file at a place. -/
def contentsAt (t : FileTree) : Place → Except Obstacle (List Byte)
  | .outside => .error .missing
  | .inside place =>
      match t.entries.find? fun (names, contents) => names = place && contents.isSome with
      | some (_, some contents) => .ok contents
      | _ => .error .missing

/-- The contents of the regular file that a path leads to; no path with a null character leads to
one. -/
def read (t : FileTree) (p : Path) : Except Obstacle (List Byte) :=
  if p.text.toList.contains (Char.ofNat 0) then .error .missing
  else if longestPath < p.text.utf8ByteSize then .error (.ofLookup .nameTooLong)
  else do
    let place ← p.parts.foldlM t.follow (if p.root = [] then .inside [] else .outside)
    t.contentsAt place

end FileTree

end ChipEight
