/-
# `ChipEight.Proofs.Overlay` — sprites drawn over each other

A draw turns each row over with the stamp of its sprite, and it finds the sprite in the
memory, which no draw changes.  So the screen after any number of draws is the screen
from before, turned over with all their stamps: the order does not matter, and two draws
of the same sprite at the same place cancel.

The flag is another matter.  It tells of the rows that the draws before have left, so it
does depend on the order, and a draw that takes another one back may flag although the
other one did not.

**Proved here.**

    an exclusive or over a list depends on the parities only    (`overlaid_of_parity`)
    the screen after a list of draws                            (`exists_drawAll`)
    when a draw flags                                           (`flag_drawSprite_eq_one_iff`)
    so draws form an abelian action in which each draw takes
    itself back, and what the two flags of a double draw say    (`drawAll_of_parity`)
-/
import ChipEight.Proofs.Drawing

namespace ChipEight

/-! ## Exclusive or over a list -/

namespace Row

section

variable {α : Type} (stamp : α → Row)

/-- The stamps of a list, turned over with each other. -/
def overlaid (l : List α) : Row := l.foldr (fun a row => stamp a ^^^ row) 0

theorem overlaid_cons (a : α) (l : List α) :
    overlaid stamp (a :: l) = stamp a ^^^ overlaid stamp l := rfl

theorem overlaid_append (l l' : List α) :
    overlaid stamp (l ++ l') = overlaid stamp l ^^^ overlaid stamp l' := by
  induction l with
  | nil => exact BitVec.zero_xor.symm
  | cons a l ih => rw [List.cons_append, overlaid_cons, overlaid_cons, ih, BitVec.xor_assoc]

theorem overlaid_perm {l l' : List α} (h : l.Perm l') : overlaid stamp l = overlaid stamp l' := by
  induction h with
  | nil => rfl
  | cons a _ ih => rw [overlaid_cons, overlaid_cons, ih]
  | swap a b l =>
      simp only [overlaid_cons]
      rw [← BitVec.xor_assoc, ← BitVec.xor_assoc, BitVec.xor_comm (stamp b)]
  | trans _ _ ih ih' => exact ih.trans ih'

variable [DecidableEq α]

/-- By induction on the length: the first entry comes once more and can be taken out with it. -/
theorem overlaid_of_even (n : Nat) : ∀ l : List α, l.length ≤ n → (∀ a, l.count a % 2 = 0) →
    overlaid stamp l = 0 := by
  induction n with
  | zero =>
      intro l hlength _
      obtain rfl : l = [] := List.eq_nil_of_length_eq_zero (Nat.le_zero.1 hlength)
      rfl
  | succ n ih =>
      intro l hlength heven
      cases l with
      | nil => rfl
      | cons a l =>
          have hcount := heven a
          rw [List.count_cons_self] at hcount
          have hmem : a ∈ l := List.count_pos_iff.1 (by omega)
          have hperm : l.Perm (a :: l.erase a) := List.perm_cons_erase hmem
          rw [overlaid_cons, overlaid_perm stamp hperm, overlaid_cons, ← BitVec.xor_assoc,
            BitVec.xor_self, BitVec.zero_xor]
          refine ih _ ?_ fun b => ?_
          · have hshorter := hperm.length_eq
            rw [List.length_cons] at hlength hshorter
            omega
          · have hrest := heven b
            rw [List.count_cons, hperm.count_eq, List.count_cons] at hrest
            omega

/-- What the two lists do together is nothing. -/
theorem overlaid_of_parity {l l' : List α} (h : ∀ a, l.count a % 2 = l'.count a % 2) :
    overlaid stamp l = overlaid stamp l' := by
  have hnone : overlaid stamp (l ++ l') = 0 := by
    refine overlaid_of_even stamp _ (l ++ l') (Nat.le_refl _) fun a => ?_
    have ha := h a
    rw [List.count_append]
    omega
  rw [overlaid_append] at hnone
  exact BitVec.xor_eq_zero_iff.1 hnone

end

end Row

/-! ## Sprites and drawings -/

/-- What a draw puts on the screen: where the bytes begin, the values for the left and the upper
edge, and the number of rows. -/
structure Sprite where
  address : Int
  left : Byte
  top : Byte
  height : Fin 16
  deriving DecidableEq, Repr

/-- The bits of a sprite in a row of the screen. -/
def Sprite.stamp (memory : Memory) (y : Int) (s : Sprite) : Row :=
  Screen.stamp (s.left.toNat % 64) (s.top.toNat % 32) (memory.range s.address s.height.val) y

/-- A word that draws, and what index and registers are set to before it.  It takes its edges from
two different registers. -/
structure Drawing where
  word : Word
  address : Int
  left : Byte
  top : Byte
  draws : word.group = 0xD
  apart : word.x ≠ word.y

def Drawing.sprite (d : Drawing) : Sprite := ⟨d.address, d.left, d.top, d.word.n⟩

namespace Machine

/-- The machine with index and registers set for a drawing. -/
def aimed (m : Machine) (d : Drawing) : Machine :=
  ({ m with index := d.address }.setReg d.word.x d.left).setReg d.word.y d.top

/-- Carries out drawings one after the other, up to a fault. -/
def drawAll : List Drawing → Machine → Except Halt Machine
  | [], m => .ok m
  | d :: ds, m =>
      match (m.aimed d).execute d.word with
      | .ok next => drawAll ds next
      | .error halt => .error halt

/-- The sprite that a word draws from a machine. -/
def spriteOf (m : Machine) (w : Word) : Sprite := ⟨m.index, m.reg w.x, m.reg w.y, w.n⟩

theorem row_drawSprite (m : Machine) (w : Word) (y : Int) :
    (m.drawSprite w.x w.y w.n).screen.row y =
      m.screen.row y ^^^ (m.spriteOf w).stamp m.memory y :=
  Screen.row_draw _ _ m.screen _ y (m.length_range_le w.n)

theorem spriteOf_aimed (m : Machine) (d : Drawing) : (m.aimed d).spriteOf d.word = d.sprite := by
  have hx : (m.aimed d).reg d.word.x = d.left := by
    rw [aimed, reg_setReg, if_neg d.apart.symm, reg_setReg, if_pos rfl]
  have hy : (m.aimed d).reg d.word.y = d.top := by
    rw [aimed, reg_setReg, if_pos rfl]
  rw [spriteOf, hx, hy]
  rfl

theorem exists_execute_aimed (m : Machine) (d : Drawing) :
    ∃ next, (m.aimed d).execute d.word = .ok next ∧ next.memory = m.memory ∧
      ∀ y : Int, next.screen.row y = m.screen.row y ^^^ d.sprite.stamp m.memory y := by
  refine ⟨_, execute_draw_eq d.draws _, rfl, fun y => ?_⟩
  rw [row_drawSprite, spriteOf_aimed]
  rfl

/-- By induction on the drawings, which leave the memory to those behind them. -/
theorem exists_drawAll (ds : List Drawing) : ∀ m : Machine,
    ∃ last, m.drawAll ds = .ok last ∧ ∀ y : Int,
      last.screen.row y =
        m.screen.row y ^^^ Row.overlaid (Sprite.stamp m.memory y) (ds.map Drawing.sprite) := by
  induction ds with
  | nil => exact fun m => ⟨m, rfl, fun y => BitVec.xor_zero.symm⟩
  | cons d ds ih =>
      intro m
      obtain ⟨next, hnext, hmemory, hrow⟩ := m.exists_execute_aimed d
      obtain ⟨last, hlast, hrows⟩ := ih next
      refine ⟨last, ?_, fun y => ?_⟩
      · rw [drawAll, hnext]
        exact hlast
      · rw [hrows, hrow, hmemory, List.map_cons, Row.overlaid_cons, BitVec.xor_assoc]

/-! ## The flag -/

section

variable (m : Machine) (w : Word)

theorem pixel_drawSprite (x y : Int) :
    (m.drawSprite w.x w.y w.n).screen.pixel x y = (m.screen.pixel x y ^^ m.spriteBit w x y) := by
  rw [← stampBit_range]
  exact Screen.pixel_draw (m.length_range_le w.n) m.screen _ _ x y

theorem reg_drawSprite {r : Register} (hr : r ≠ flagRegister) :
    (m.drawSprite w.x w.y w.n).reg r = m.reg r :=
  (reg_setReg _ _ _ _).trans (if_neg hr.symm)

theorem flag_drawSprite :
    (m.drawSprite w.x w.y w.n).flag =
      if (m.screen.draw ((m.reg w.x).toNat % 64) ((m.reg w.y).toNat % 32)
        (m.memory.range m.index w.n.val)).2 then 1 else 0 :=
  (reg_setReg _ _ _ _).trans (if_pos rfl)

theorem flag_drawSprite_eq_one_iff :
    (m.drawSprite w.x w.y w.n).flag = 1 ↔
      ∃ x y : Int, m.spriteBit w x y = true ∧ m.screen.pixel x y = true := by
  have herased := Screen.erased_draw_iff_pixel (m.length_range_le w.n) m.screen
    ((m.reg w.x).toNat % 64) ((m.reg w.y).toNat % 32)
  simp only [stampBit_range, and_comm] at herased
  rw [flag_drawSprite, ← herased]
  split
  · exact ⟨fun _ => ‹_›, fun _ => rfl⟩
  · exact ⟨nofun, fun h => absurd h ‹_›⟩

theorem flag_drawSprite_eq_zero_iff :
    (m.drawSprite w.x w.y w.n).flag = 0 ↔ ¬ (m.drawSprite w.x w.y w.n).flag = 1 := by
  rw [flag_drawSprite]
  split <;> decide

/-- A sprite has a one somewhere if one of its bytes does. -/
theorem exists_spriteBit_iff :
    (∃ x y : Int, m.spriteBit w x y = true) ↔
      ∃ i : Nat, i < w.n.val ∧ m.memory.read (m.index + i) ≠ 0 := by
  constructor
  · rintro ⟨x, y, hone⟩
    simp only [spriteBit, Bool.and_eq_true, decide_eq_true_eq] at hone
    obtain ⟨⟨-, hrow⟩, hbit⟩ := hone
    generalize hdy : (y - ((m.reg w.y).toNat % 32 : Nat)) % 32 = dy at hrow hbit
    obtain ⟨i, rfl⟩ : ∃ i : Nat, dy = i := Int.eq_ofNat_of_zero_le (by omega)
    refine ⟨i, Int.ofNat_lt.1 hrow, fun hzero => ?_⟩
    rw [hzero] at hbit
    exact Bool.false_ne_true (BitVec.getLsbD_zero.symm.trans hbit)
  · rintro ⟨i, hi, hbyte⟩
    obtain ⟨k, hk, hbit⟩ : ∃ k, k < 8 ∧ (m.memory.read (m.index + i)).getLsbD k = true := by
      refine Classical.byContradiction fun hnone => hbyte (BitVec.eq_of_getLsbD_eq fun k hk => ?_)
      exact (Bool.eq_false_iff.2 fun hone => hnone ⟨k, hk, hone⟩).trans BitVec.getLsbD_zero.symm
    have hn := w.n.isLt
    have hdx : ((((m.reg w.x).toNat % 64 : Nat) : Int) + (7 - k) -
        ((m.reg w.x).toNat % 64 : Nat)) % 64 = 7 - k := by omega
    have hdy : ((((m.reg w.y).toNat % 32 : Nat) : Int) + i -
        ((m.reg w.y).toNat % 32 : Nat)) % 32 = i := by omega
    refine ⟨((m.reg w.x).toNat % 64 : Nat) + (7 - k), ((m.reg w.y).toNat % 32 : Nat) + i, ?_⟩
    simp only [spriteBit, hdx, hdy, Bool.and_eq_true, decide_eq_true_eq]
    refine ⟨⟨by omega, Int.ofNat_lt.2 hi⟩, ?_⟩
    rw [show (7 - (7 - (k : Int))).toNat = k by omega]
    exact hbit

end

/-! ## Drawing again -/

section

variable {m : Machine} {w : Word} (hx : w.x ≠ flagRegister) (hy : w.y ≠ flagRegister)
include hx hy

theorem spriteBit_drawSprite (x y : Int) :
    (m.drawSprite w.x w.y w.n).spriteBit w x y = m.spriteBit w x y := by
  rw [spriteBit, spriteBit, reg_drawSprite m w hx, reg_drawSprite m w hy]
  rfl

theorem screen_draw_again :
    ((m.drawSprite w.x w.y w.n).drawSprite w.x w.y w.n).screen = m.screen := by
  have hsprite : (m.drawSprite w.x w.y w.n).spriteOf w = m.spriteOf w := by
    rw [spriteOf, spriteOf, reg_drawSprite m w hx, reg_drawSprite m w hy]
    rfl
  refine Screen.eq_of_row fun y => ?_
  rw [row_drawSprite, hsprite, row_drawSprite, BitVec.xor_assoc]
  show m.screen.row y ^^^ ((m.spriteOf w).stamp m.memory y ^^^ (m.spriteOf w).stamp m.memory y) = _
  rw [BitVec.xor_self, BitVec.xor_zero]

/-- What the first draw has put out the second one lights, and the other way round. -/
theorem flag_draw_again_eq_one_iff :
    ((m.drawSprite w.x w.y w.n).drawSprite w.x w.y w.n).flag = 1 ↔
      ∃ x y : Int, m.spriteBit w x y = true ∧ m.screen.pixel x y = false := by
  rw [flag_drawSprite_eq_one_iff]
  refine exists_congr fun x => exists_congr fun y => ?_
  rw [spriteBit_drawSprite hx hy, pixel_drawSprite]
  cases m.spriteBit w x y <;> cases m.screen.pixel x y <;> decide

theorem flags_eq_zero_iff :
    (m.drawSprite w.x w.y w.n).flag = 0 ∧
        ((m.drawSprite w.x w.y w.n).drawSprite w.x w.y w.n).flag = 0 ↔
      ∀ i : Nat, i < w.n.val → m.memory.read (m.index + i) = 0 := by
  rw [flag_drawSprite_eq_zero_iff, flag_drawSprite_eq_zero_iff, flag_drawSprite_eq_one_iff,
    flag_draw_again_eq_one_iff hx hy]
  constructor
  · rintro ⟨hlit, hdark⟩ i hi
    refine Decidable.by_contra fun hbyte => ?_
    obtain ⟨x, y, hone⟩ := (m.exists_spriteBit_iff w).2 ⟨i, hi, hbyte⟩
    cases hpixel : m.screen.pixel x y with
    | true => exact hlit ⟨x, y, hone, hpixel⟩
    | false => exact hdark ⟨x, y, hone, hpixel⟩
  · intro hzero
    have hnone : ¬ ∃ x y : Int, m.spriteBit w x y = true := by
      rw [exists_spriteBit_iff]
      rintro ⟨i, hi, hbyte⟩
      exact hbyte (hzero i hi)
    constructor
    · rintro ⟨x, y, hone, -⟩
      exact hnone ⟨x, y, hone⟩
    · rintro ⟨x, y, hone, -⟩
      exact hnone ⟨x, y, hone⟩

end

/-- On machines with one memory and one screen, two lists of drawings leave the same screen if each
sprite occurs in both an even or in both an odd number of times, in whatever order and from whatever
registers it is drawn.  A word that draws twice in a row leaves the screen as it was, if its edges
do not come from the flag register; the first draw flags if there was a lit pixel under the sprite,
the second one if there was a dark one, and neither does exactly if the sprite is blank. -/
theorem drawAll_of_parity :
    (∀ m m' : Machine, m.memory = m'.memory → m.screen = m'.screen → ∀ ds ds' : List Drawing,
      (∀ s : Sprite,
        (ds.map Drawing.sprite).count s % 2 = (ds'.map Drawing.sprite).count s % 2) →
      ∃ last last', m.drawAll ds = .ok last ∧ m'.drawAll ds' = .ok last' ∧
        last.screen = last'.screen) ∧
    ∀ (m : Machine) (w : Word), w.group = 0xD → w.x ≠ flagRegister → w.y ≠ flagRegister →
      ∃ once twice, m.execute w = .ok once ∧ once.execute w = .ok twice ∧
        twice.screen = m.screen ∧
        (once.flag = 1 ↔ ∃ x y : Int, m.spriteBit w x y = true ∧ m.screen.pixel x y = true) ∧
        (twice.flag = 1 ↔ ∃ x y : Int, m.spriteBit w x y = true ∧ m.screen.pixel x y = false) ∧
        (once.flag = 0 ∧ twice.flag = 0 ↔
          ∀ i : Nat, i < w.n.val → m.memory.read (m.index + i) = 0) := by
  constructor
  · intro m m' hmemory hscreen ds ds' hparity
    obtain ⟨last, hlast, hrow⟩ := exists_drawAll ds m
    obtain ⟨last', hlast', hrow'⟩ := exists_drawAll ds' m'
    refine ⟨last, last', hlast, hlast', Screen.eq_of_row fun y => ?_⟩
    rw [hrow, hrow', ← hmemory, ← hscreen, Row.overlaid_of_parity _ hparity]
  · intro m w hw hx hy
    exact ⟨_, _, execute_draw_eq hw m, execute_draw_eq hw _, screen_draw_again hx hy,
      m.flag_drawSprite_eq_one_iff w, flag_draw_again_eq_one_iff hx hy, flags_eq_zero_iff hx hy⟩

/-- One byte in the last cell, to be drawn in the lower right corner, where one of its two pixels is
lit. -/
def halfLit : Machine :=
  { ((blank (.seeded 7)).setReg 1 62).setReg 2 31 with
    memory := Memory.zero.set 4095 0xC0
    screen := Screen.blank.setRow 31 0x2
    index := 4095 }

/-- The sprite of `halfLit`, from its registers. -/
def corner : Drawing := ⟨0xD121, 4095, 62, 31, by decide, by decide⟩

/-- The same sprite from other registers, one of them the flag register. -/
def cornerElsewhere : Drawing := ⟨0xDAF1, 4095, 62, 31, by decide, by decide⟩

/-- Five rows that wrap round the end of the memory and both edges. -/
def wrapping : Drawing := ⟨0xD345, 4094, 60, 29, by decide, by decide⟩

theorem drawAll_of_parity_halfLit :
    (∃ last last', halfLit.drawAll [corner, wrapping] = .ok last ∧
        halfLit.drawAll [wrapping, cornerElsewhere, corner, corner] = .ok last' ∧
        last.screen = last'.screen) ∧
      ∃ once twice, halfLit.execute 0xD121 = .ok once ∧ once.execute 0xD121 = .ok twice ∧
        twice.screen = halfLit.screen ∧ once.flag = 1 ∧ twice.flag = 1 := by
  obtain ⟨hlists, hdouble⟩ := drawAll_of_parity
  have hbyte : halfLit.memory.read 4095 = 0xC0 := by
    rw [halfLit, Memory.read_set]
    rfl
  have hlit : halfLit.screen.pixel 62 31 = true := by decide
  have hdark : halfLit.screen.pixel 63 31 = false := by decide
  have hleft : halfLit.spriteBit 0xD121 62 31 = true := by
    show (true && true && (halfLit.memory.read 4095).getLsbD 7) = true
    rw [hbyte]
    decide
  have hright : halfLit.spriteBit 0xD121 63 31 = true := by
    show (true && true && (halfLit.memory.read 4095).getLsbD 6) = true
    rw [hbyte]
    decide
  constructor
  · refine hlists halfLit halfLit rfl rfl _ _ fun s => ?_
    have hsame : cornerElsewhere.sprite = corner.sprite := rfl
    simp only [List.map_cons, List.map_nil, hsame, List.count_cons, List.count_nil]
    omega
  · obtain ⟨once, twice, honce, htwice, hscreen, hfirst, hsecond, -⟩ :=
      hdouble halfLit 0xD121 (by decide) (by decide) (by decide)
    exact ⟨once, twice, honce, htwice, hscreen, hfirst.2 ⟨62, 31, hleft, hlit⟩,
      hsecond.2 ⟨63, 31, hright, hdark⟩⟩

end Machine

end ChipEight
