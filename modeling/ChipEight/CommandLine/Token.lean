/-
# `ChipEight.CommandLine.Token` — telling switches from words

Every argument is classified before any of them takes effect.  It is a word if
it is empty or does not start with a dash, if it is a lone dash, or if it is no
switch but a negative number or a text with a space.  Otherwise it is a switch:
written out, or followed by `=` and a value, or abbreviated; behind one dash, a
one-letter switch may have other text attached.  A double dash makes words of
all the arguments behind it.
-/
import ChipEight.CommandLine.UsageError

namespace ChipEight.CommandLine

/-- A switch. -/
inductive Switch where
  | flag (f : Flag)
  | setting (s : Setting)
  deriving DecidableEq, Repr

/-- The spellings of the switches, in the order in which they are offered. -/
def spellings : List (String × Switch) :=
  [ ("-h", .flag .help),
    ("--help", .flag .help),
    ("--ticks", .setting .ticks),
    ("--ipt", .setting .perTick),
    ("--seed", .setting .seed),
    ("--keys", .setting .keys),
    ("--trace", .flag .trace),
    ("--verbose", .flag .verbose),
    ("-v", .flag .verbose) ]

/-- The flag with a given letter. -/
def flagOfLetter? : Char → Option Flag
  | 'h' => some .help
  | 'v' => some .verbose
  | _ => none

/-- A classified argument. -/
inductive Token where
  | word (text : String)
  /-- The double dash. -/
  | separator
  /-- A switch, whether it is written behind two dashes, and the text attached to it. -/
  | switch (s : Switch) (long : Bool) (attached : Option String)
  /-- A switch that does not exist. -/
  | unknown (text : String)
  deriving DecidableEq, Repr

/-- Whether a text starts with two dashes. -/
def isLong : List Char → Bool
  | '-' :: '-' :: _ => true
  | _ => false

/-- The text before the first `=`, and the text behind it if there is one. -/
def cutAtEquals (cs : List Char) : List Char × Option String :=
  match cs.dropWhile (· != '=') with
  | [] => (cs, none)
  | _ :: value => (cs.takeWhile (· != '='), some (.ofList value))

/-- The switch with exactly the given spelling. -/
def exactly (cs : List Char) (attached : Option String) : Option Token :=
  (spellings.lookup (.ofList cs)).map fun s => .switch s (isLong cs) attached

/-- The long switches that an argument behind two dashes abbreviates. -/
def abbreviated (cs : List Char) : List (String × Token) :=
  let (name, attached) := cutAtEquals cs
  (spellings.filter fun (spelling, _) => name.isPrefixOf spelling.toList).map
    fun (spelling, s) => (spelling, .switch s true attached)

/-- The one-letter flags with which an argument behind one dash starts. -/
def lettered : List Char → List (String × Token)
  | '-' :: letter :: rest =>
      match flagOfLetter? letter with
      | some f => [(.ofList ['-', letter], .switch (.flag f) false (some (.ofList rest)))]
      | none => []
  | _ => []

/-- The switches that an argument may stand for without being written out. -/
def candidates (cs : List Char) : List (String × Token) :=
  if isLong cs then abbreviated cs else lettered cs

/-- Whether there are decimal digits and nothing else. -/
def isDigits (cs : List Char) : Bool := cs.all fun c => (Text.decimalValue? c).isSome

/-- Whether a text is a negative number, whole or with a point; it may end in a line break. -/
def isNegativeNumber : List Char → Bool
  | '-' :: cs =>
      let body := if cs.getLast? = some '\n' then cs.dropLast else cs
      match Text.splitOn '.' body with
      | [whole] => !whole.isEmpty && isDigits whole
      | [whole, places] => isDigits whole && !places.isEmpty && isDigits places
      | _ => false
  | _ => false

/-- Classifies an argument that is no spelling of a switch. -/
def guess (text : String) : Except UsageError Token :=
  match candidates text.toList with
  | [(_, token)] => .ok token
  | [] =>
      if isNegativeNumber text.toList || text.toList.contains ' ' then .ok (.word text)
      else .ok (.unknown text)
  | several => .error (.ambiguous text (several.map (·.1)))

/-- Classifies an argument other than the double dash. -/
def classifyOne (text : String) : Except UsageError Token :=
  match text.toList with
  | [] | ['-'] => .ok (.word text)
  | '-' :: _ =>
      let (name, attached) := cutAtEquals text.toList
      match exactly text.toList none, exactly name attached with
      | some token, _ => .ok token
      | none, some token => .ok token
      | none, none => guess text
  | _ => .ok (.word text)

/-- Classifies all arguments, up to the first ambiguous one. -/
def classify : List String → Except UsageError (List Token)
  | [] => .ok []
  | text :: rest =>
      if text = "--" then .ok (.separator :: rest.map .word)
      else do
        let token ← classifyOne text
        let tokens ← classify rest
        return token :: tokens

end ChipEight.CommandLine
