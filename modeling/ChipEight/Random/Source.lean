/-
# `ChipEight.Random.Source` — where random bytes come from

A machine draws its random bytes from a source, which is either a seeded
generator or a fixed list of bytes that is read round and round.  A generator
gives a byte by rejection: the top nine bits of one word after another, until
they make a number below 256.
-/
import ChipEight.Random.Twister
import ChipEight.Word

namespace ChipEight

namespace Twister

/-- How many words are tried for one byte.  The state of the generator has 19937 bits, and no run
of ones among the top bits of its words is longer than that, so the last try is never reached. -/
def tries : Nat := 19938

/-- The first number below 256 among the top nine bits of the next words. -/
def byteWithin : Nat → Twister → Byte × Twister
  | 0, t => (0, t)
  | fuel + 1, t =>
      let (w, t) := t.next
      let r := (w >>> 23).toNat
      if r < 256 then (BitVec.ofNat 8 r, t) else byteWithin fuel t

/-- Draws a byte. -/
def nextByte (t : Twister) : Byte × Twister := byteWithin tries t

end Twister

/-- A source of random bytes. -/
inductive RandomSource where
  /-- A seeded generator. -/
  | generator (t : Twister)
  /-- A list of bytes read round and round, with the number of bytes read so far. -/
  | cycle (bytes : Array Byte) (drawn : Nat)

namespace RandomSource

/-- The generator with an integer seed. -/
def seeded (seed : Int) : RandomSource := .generator (.ofSeed seed)

/-- The source that repeats the given bytes. -/
def repeating (bytes : List Byte) : RandomSource := .cycle bytes.toArray 0

/-- Draws a byte: the byte and the source after it.  A source that repeats no byte at all gives
zeros. -/
def next : RandomSource → Byte × RandomSource
  | .generator t => let (b, t) := t.nextByte; (b, .generator t)
  | .cycle bytes drawn => (bytes.getD (drawn % bytes.size) 0, .cycle bytes (drawn + 1))

/-- The source after `n` draws. -/
def after (s : RandomSource) : Nat → RandomSource
  | 0 => s
  | n + 1 => (s.next.2).after n

/-- The byte that the draw number `i` gives, counting from 0. -/
def byte (s : RandomSource) (i : Nat) : Byte := (s.after i).next.1

end RandomSource

end ChipEight
