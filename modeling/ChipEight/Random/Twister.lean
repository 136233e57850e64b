/-
# `ChipEight.Random.Twister` — the 32-bit Mersenne twister

A generator holds 624 words of 32 bits and a position.  Each draw replaces the
word at the position by

    word (p + 397)  xor  twist (top bit of word p, low bits of word (p + 1))

with positions counted round the 624, moves on by one, and puts the new word
through four shifts that spread its bits.

A seed is any integer.  Its absolute value is cut into 32-bit limbs, lowest
first, and these are stirred into the words of a fixed starting state: once
round with the limbs, once with the positions.
-/
import ChipEight.Residue

namespace ChipEight

/-- The state of the generator: its words and the position of the next one to be replaced. -/
structure Twister where
  words : Vector UInt32 624
  position : Fin 624

namespace Twister

instance modulusWords : Modulus 624 := ⟨by decide⟩

/-! ## Drawing a word -/

/-- The word number `k`, counted round. -/
def word (t : Twister) (k : Nat) : UInt32 := t.words.get (residue 624 k)

/-- The linear step on a pair of neighbouring words: the top bit of the first joined with the low
bits of the second, shifted down, with a mask added if a one was shifted out. -/
def twist (first second : UInt32) : UInt32 :=
  let joined := (first &&& 0x80000000) ||| (second &&& 0x7fffffff)
  (joined >>> 1) ^^^ (if joined &&& 1 = 1 then 0x9908b0df else 0)

/-- Spreads the bits of a word before it is given out. -/
def temper (w : UInt32) : UInt32 :=
  let w := w ^^^ (w >>> 11)
  let w := w ^^^ ((w <<< 7) &&& 0x9d2c5680)
  let w := w ^^^ ((w <<< 15) &&& 0xefc60000)
  w ^^^ (w >>> 18)

/-- Draws a word: the word itself and the generator after it. -/
def next (t : Twister) : UInt32 × Twister :=
  let p := t.position.val
  let fresh := t.word (p + 397) ^^^ twist (t.word p) (t.word (p + 1))
  (temper fresh, { words := t.words.set p fresh, position := residue 624 (p + 1) })

/-! ## Seeding -/

/-- The number that spreads a word over its neighbour while words are laid out or stirred. -/
def fold (w : UInt32) : UInt32 := w ^^^ (w >>> 30)

/-- The words that follow `last` in the starting state, `count` of them, the first at place
`place`. -/
def layFrom (last : UInt32) (place : Nat) : Nat → List UInt32
  | 0 => []
  | count + 1 =>
      let w := 1812433253 * fold last + UInt32.ofNat place
      w :: layFrom w (place + 1) count

theorem length_layFrom (last : UInt32) (place count : Nat) :
    (layFrom last place count).length = count := by
  induction count generalizing last place with
  | zero => rfl
  | succ count ih => simp [layFrom, ih]

/-- The starting state that grows from one word. -/
def lay (first : UInt32) : Vector UInt32 624 :=
  ⟨(first :: layFrom first 1 623).toArray, by simp [length_layFrom]⟩

/-- Words being stirred, with the place that comes next; place 0 is only written when the stirring
comes round. -/
structure Pool where
  words : Vector UInt32 624
  place : Fin 624

/-- Stirs one word: it takes in its left neighbour times `multiplier`, and `addend`.  At the end
of the pool the last word is copied to the front and the stirring goes on behind it. -/
def Pool.stir (pool : Pool) (multiplier addend : UInt32) : Pool :=
  let p := pool.place
  let before := pool.words.get (residue 624 ((p.val : Int) - 1))
  let stirred := (pool.words[p] ^^^ (fold before * multiplier)) + addend
  let words := pool.words.set p stirred
  if p.val = 623 then { words := words.set 0 stirred, place := 1 }
  else { words, place := residue 624 (p.val + 1) }

/-- The 32-bit limbs of a natural number, lowest first; zero has one limb. -/
def limbs (n : Nat) : List UInt32 :=
  if h : n < 0x100000000 then [UInt32.ofNat n]
  else UInt32.ofNat (n % 0x100000000) :: limbs (n / 0x100000000)
termination_by n
decreasing_by exact Nat.div_lt_self (by omega) (by decide)

/-- The generator with a given key: the limbs are stirred in with their positions, round and round
until every word and every limb has had its turn, then every word once more with its place
subtracted. -/
def ofKey (key : List UInt32) : Twister :=
  let keyed := key.toArray
  let turns := max 624 key.length
  let start : Pool := { words := lay 19650218, place := 1 }
  let first := (List.range turns).foldl (fun pool turn =>
    let j := turn % key.length
    pool.stir 1664525 (keyed.getD j 0 + UInt32.ofNat j)) start
  let second := (List.range 623).foldl (fun pool _ =>
    pool.stir 1566083941 (0 - UInt32.ofNat pool.place.val)) first
  { words := second.words.set 0 0x80000000, position := 0 }

/-- The generator with an integer seed; the sign is ignored. -/
def ofSeed (seed : Int) : Twister := ofKey (limbs seed.natAbs)

end Twister

end ChipEight
