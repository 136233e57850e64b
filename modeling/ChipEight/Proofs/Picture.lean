/-
# `ChipEight.Proofs.Picture` — three readers of one screen

The host reads the screen in three ways: pixel by pixel, as the list of the lit pixels, and
as a picture.  Each of them goes through the rows by itself, as plain numbers with a mask
for each column.  They see the same pixels, and from each of them the screen can be had
back: a row is the sum of the masks of its lit columns, and in a picture of two different
characters, neither of which breaks lines, line and place give row and column.

**Proved here.**

    the mask of a column meets the bit of the column        (`hasColumn_toNat`)
    so the readers of numbers are those of the screen       (`pixel_video`, `lit_video`, `render_video`)
    a row is the sum of the masks of its lit columns        (`total_masks`)
    what is in the list, and in which order                 (`mem_lit_iff`, `pairwise_lit`)
    pixels make up the screen, hence list and picture do    (`eq_of_pixel`, `eq_of_lit`, `eq_of_render`)
    all of it for the readers of numbers                    (`readers_agree`)
-/
import ChipEight.Proofs.CommandLine.Lines

namespace ChipEight

/-! ## Rows as plain numbers -/

/-- The rows from top to bottom as plain numbers. -/
def Screen.video (s : Screen) : List Nat := s.rows.toList.map BitVec.toNat

namespace Video

/-- The number with the bit of a column only. -/
def mask (x : Nat) : Nat := 1 <<< (63 - x)

/-- Whether a row has the bit of a column. -/
def hasColumn (row x : Nat) : Bool := row &&& mask x != 0

/-- Whether the pixel at column `x` of row `y` is lit; both wrap. -/
def pixel (video : List Nat) (x y : Int) : Bool :=
  hasColumn (video.getD (y % 32).toNat 0) (x % 64).toNat

/-- The lit pixels as pairs of column and row, row by row. -/
def lit (video : List Nat) : List (Nat × Nat) :=
  (List.range 32).flatMap fun y =>
    ((List.range 64).filter fun x => hasColumn (video.getD y 0) x).map fun x => (x, y)

/-- The picture as text, one line for each row there is. -/
def render (video : List Nat) (on off : String) : String :=
  "\n".intercalate (video.map fun row =>
    String.join ((List.range 64).map fun x => if hasColumn row x then on else off))

/-- The sum of a list. -/
def total (l : List Nat) : Nat := l.foldr (· + ·) 0

/-- Lit pixels in the order in which they are read: row by row, and from left to right. -/
def Before (p q : Nat × Nat) : Prop := p.2 < q.2 ∨ p.2 = q.2 ∧ p.1 < q.1

theorem hasColumn_eq_testBit (row x : Nat) : hasColumn row x = row.testBit (63 - x) := by
  rw [hasColumn, mask, Nat.one_shiftLeft]
  cases hbit : row.testBit (63 - x) with
  | true =>
      refine bne_iff_ne.2 fun hzero => ?_
      have hand : (row &&& 2 ^ (63 - x)).testBit (63 - x) = true := by
        rw [Nat.testBit_and, hbit, Nat.testBit_two_pow_self, Bool.and_self]
      rw [hzero, Nat.zero_testBit] at hand
      cases hand
  | false =>
      refine bne_eq_false_iff_eq.2 (Nat.eq_of_testBit_eq fun i => ?_)
      rw [Nat.testBit_and, Nat.testBit_two_pow, Nat.zero_testBit]
      by_cases hi : 63 - x = i
      · rw [← hi, hbit, Bool.false_and]
      · rw [decide_eq_false hi, Bool.and_false]

theorem hasColumn_toNat (row : Row) {x : Nat} (hx : x < 64) :
    hasColumn row.toNat x = row.getMsbD x := by
  rw [hasColumn_eq_testBit, BitVec.testBit_toNat, BitVec.getMsbD_eq_getLsbD, decide_eq_true hx,
    Bool.true_and]

theorem total_append (l l' : List Nat) : total (l ++ l') = total l + total l' := List.sum_append

/-- What the first `k` columns add up to lacks the bits below, by induction on `k`. -/
theorem total_masks_below (row : Row) : ∀ k ≤ 64,
    total (((List.range k).filter (hasColumn row.toNat)).map mask) +
      row.toNat % 1 <<< (64 - k) = row.toNat
  | 0, _ => (Nat.zero_add _).trans (Nat.mod_eq_of_lt row.isLt)
  | k + 1, hk => by
      have ih := total_masks_below row k (by omega)
      have hbelow : row.toNat % 1 <<< (64 - k) =
          row.toNat % 1 <<< (63 - k) + mask k * (row.toNat.testBit (63 - k)).toNat := by
        rw [show 64 - k = (63 - k) + 1 by omega, mask, Nat.one_shiftLeft, Nat.one_shiftLeft,
          Nat.mod_pow_succ, Nat.toNat_testBit]
      have hcolumn : total (([k].filter (hasColumn row.toNat)).map mask) =
          mask k * (row.toNat.testBit (63 - k)).toNat := by
        rw [List.filter_cons, hasColumn_eq_testBit]
        cases row.toNat.testBit (63 - k) with
        | true => exact (Nat.add_zero _).trans (Nat.mul_one _).symm
        | false => rfl
      rw [List.range_succ, List.filter_append, List.map_append, total_append, hcolumn,
        show 64 - (k + 1) = 63 - k by omega]
      omega

/-- A row is the sum of the masks of its lit columns. -/
theorem total_masks (row : Row) :
    total (((List.range 64).filter (hasColumn row.toNat)).map mask) = row.toNat := by
  have hall := total_masks_below row 64 (Nat.le_refl 64)
  rwa [show 1 <<< (64 - 64) = 1 from rfl, Nat.mod_one] at hall

end Video

namespace Screen

/-! ## The same pixels -/

theorem video_eq (s : Screen) : s.video = (List.range 32).map fun y : Nat => (s.row y).toNat := by
  rw [video, toList_rows, List.map_map]
  rfl

theorem getElem?_video (s : Screen) {y : Nat} (hy : y < 32) :
    s.video[y]? = some (s.row y).toNat := by
  rw [video_eq, List.getElem?_map, List.getElem?_range hy]
  rfl

theorem hasColumn_video (s : Screen) {x y : Nat} (hx : x < 64) (hy : y < 32) :
    Video.hasColumn (s.video.getD y 0) x = s.pixel x y := by
  rw [List.getD_eq_getElem?_getD, getElem?_video s hy, Option.getD_some,
    Video.hasColumn_toNat _ hx, s.pixel_of_lt hx]

/-- Coordinates wrap in both directions. -/
theorem pixel_emod (s : Screen) (x y : Int) : s.pixel (x % 64) (y % 32) = s.pixel x y := by
  have hx : residue 64 (x % 64) = residue 64 x :=
    (residue_eq_residue_iff 64 _ _).2 (Int.emod_emod_of_dvd x (Int.dvd_refl _))
  have hy : residue 32 (y % 32) = residue 32 y :=
    (residue_eq_residue_iff 32 _ _).2 (Int.emod_emod_of_dvd y (Int.dvd_refl _))
  rw [pixel, pixel, row, row, hx, hy]

theorem pixel_video (s : Screen) (x y : Int) : Video.pixel s.video x y = s.pixel x y := by
  have hx : ((x % 64).toNat : Int) = x % 64 := Int.toNat_of_nonneg (Int.emod_nonneg x (by decide))
  have hy : ((y % 32).toNat : Int) = y % 32 := Int.toNat_of_nonneg (Int.emod_nonneg y (by decide))
  rw [Video.pixel, hasColumn_video s (by omega) (by omega), hx, hy, pixel_emod]

theorem lit_video (s : Screen) : Video.lit s.video = s.lit := by
  rw [Video.lit, lit, height, width, List.flatMap_def, List.flatMap_def]
  refine congrArg List.flatten (List.map_congr_left fun y hy => ?_)
  refine congrArg (List.map fun x => (x, y)) (List.filter_congr fun x hx => ?_)
  exact hasColumn_video s (List.mem_range.1 hx) (List.mem_range.1 hy)

theorem render_video (s : Screen) (on off : String) :
    Video.render s.video on off = s.render on off := by
  rw [Video.render, render, height, video_eq, List.map_map]
  refine congrArg _ (List.map_congr_left fun y _ => ?_)
  rw [Function.comp, line, width]
  refine congrArg String.join (List.map_congr_left fun x hx => ?_)
  rw [Video.hasColumn_toNat _ (List.mem_range.1 hx), s.pixel_of_lt (List.mem_range.1 hx)]

/-- Every list of 32 numbers with 64 bits is on a screen. -/
theorem exists_video {video : List Nat} (hlength : video.length = 32)
    (hrows : ∀ row ∈ video, row < 0x10000000000000000) : ∃ s : Screen, s.video = video := by
  refine ⟨⟨⟨(video.map (BitVec.ofNat 64)).toArray, by simp [hlength]⟩⟩, ?_⟩
  show (video.map (BitVec.ofNat 64)).map BitVec.toNat = video
  rw [List.map_map]
  refine (List.map_congr_left fun row hrow => ?_).trans (List.map_id video)
  exact (BitVec.toNat_ofNat row 64).trans (Nat.mod_eq_of_lt (hrows row hrow))

/-! ## The list of the lit pixels -/

theorem mem_lit_iff (s : Screen) (x y : Nat) :
    (x, y) ∈ s.lit ↔ x < 64 ∧ y < 32 ∧ s.pixel x y = true := by
  simp only [lit, List.mem_flatMap, List.mem_map, List.mem_filter, List.mem_range, Prod.mk.injEq]
  constructor
  · rintro ⟨_, hy, _, ⟨hx, hpixel⟩, rfl, rfl⟩
    exact ⟨hx, hy, hpixel⟩
  · rintro ⟨hx, hy, hpixel⟩
    exact ⟨y, hy, x, ⟨hx, hpixel⟩, rfl, rfl⟩

theorem pairwise_lit (s : Screen) : s.lit.Pairwise Video.Before := by
  refine List.pairwise_flatMap.2 ⟨fun y _ => ?_, ?_⟩
  · refine List.pairwise_map.2 (List.Pairwise.filter _ ?_)
    exact List.pairwise_lt_range.imp fun hlt => .inr ⟨rfl, hlt⟩
  · refine List.pairwise_lt_range.imp fun hlt p hp q hq => ?_
    obtain ⟨_, -, rfl⟩ := List.mem_map.1 hp
    obtain ⟨_, -, rfl⟩ := List.mem_map.1 hq
    exact .inl hlt

/-- Of a series of lists of which only one can have entries, that one is left. -/
theorem flatMap_range_of_single {α : Type} {f : Nat → List α} {y : Nat}
    (hf : ∀ y', y' ≠ y → f y' = []) : ∀ n, y < n → (List.range n).flatMap f = f y
  | 0, h => absurd h (Nat.not_lt_zero y)
  | n + 1, h => by
      rw [List.range_succ, List.flatMap_append, List.flatMap_singleton]
      by_cases hy : y = n
      · have hnone : (List.range n).flatMap f = [] :=
          List.flatMap_eq_nil_iff.2 fun y' hy' =>
            hf y' (Nat.ne_of_lt (hy ▸ List.mem_range.1 hy'))
        rw [hnone, hy, List.nil_append]
      · rw [flatMap_range_of_single hf n (by omega), hf n (Ne.symm hy), List.append_nil]

/-- The part of the list that comes from one row. -/
theorem filter_lit (s : Screen) {y : Nat} (hy : y < 32) :
    s.lit.filter (fun p => p.2 == y) =
      ((List.range 64).filter fun x : Nat => s.pixel x y).map fun x => (x, y) := by
  rw [lit, List.filter_flatMap, height, flatMap_range_of_single (y := y) _ 32 hy]
  · exact List.filter_eq_self.2 fun p hp => by
      obtain ⟨_, -, rfl⟩ := List.mem_map.1 hp
      exact beq_self_eq_true y
  · intro y' hne
    refine List.filter_eq_nil_iff.2 fun p hp => ?_
    obtain ⟨_, -, rfl⟩ := List.mem_map.1 hp
    exact fun h => hne (eq_of_beq h)

theorem total_lit (s : Screen) {y : Nat} (hy : y < 32) :
    Video.total ((s.lit.filter fun p => p.2 == y).map fun p => Video.mask p.1) =
      (s.row y).toNat := by
  have hcolumns : (List.range 64).filter (fun x : Nat => s.pixel x y) =
      (List.range 64).filter (Video.hasColumn (s.row y).toNat) := by
    refine List.filter_congr fun x hx => ?_
    rw [Video.hasColumn_toNat _ (List.mem_range.1 hx), s.pixel_of_lt (List.mem_range.1 hx)]
  rw [filter_lit s hy, List.map_map, hcolumns]
  exact Video.total_masks (s.row y)

/-! ## Back to the screen -/

/-- The pixels make up the screen. -/
theorem eq_of_pixel {s s' : Screen}
    (h : ∀ x y : Nat, x < 64 → y < 32 → s.pixel x y = s'.pixel x y) : s = s' := by
  have hall : ∀ (x : Nat) (y : Int), x < 64 → s.pixel x y = s'.pixel x y := by
    intro x y hx
    have hcolumn : (x : Int) % 64 = x := by omega
    obtain ⟨k, hk⟩ : ∃ k : Nat, y % 32 = k :=
      Int.eq_ofNat_of_zero_le (Int.emod_nonneg y (by decide))
    rw [← pixel_emod s, ← pixel_emod s', hk, hcolumn]
    exact h x k hx (by omega)
  refine eq_of_row fun y => BitVec.eq_of_getMsbD_eq fun x hx => ?_
  rw [← s.pixel_of_lt hx, ← s'.pixel_of_lt hx]
  exact hall x y hx

theorem eq_of_lit {s s' : Screen} (h : s.lit = s'.lit) : s = s' := by
  refine eq_of_pixel fun x y hx hy => Bool.eq_iff_iff.2 ?_
  have hmem : (x, y) ∈ s.lit ↔ (x, y) ∈ s'.lit := by rw [h]
  simpa only [mem_lit_iff, hx, hy, true_and] using hmem

section

variable {on off : Char} (hon : on ≠ '\n') (hoff : off ≠ '\n')
include hon hoff

/-- A picture in two characters is taken apart into its lines. -/
theorem splitOn_render (s : Screen) :
    Text.splitOn '\n' (s.render (String.singleton on) (String.singleton off)).toList =
      (List.range 32).map fun y : Nat =>
        (List.range 64).map fun x : Nat => if s.pixel x y then on else off := by
  rw [render, String.toList_intercalate, List.map_map]
  have hlines : List.map (String.toList ∘ s.line (String.singleton on) (String.singleton off))
      (List.range height) = (List.range 32).map fun y : Nat =>
        (List.range 64).map fun x : Nat => if s.pixel x y then on else off :=
    List.map_congr_left fun y _ => s.toList_line_singleton on off y
  rw [hlines]
  have hsome : (List.range 32).map (fun y : Nat =>
      (List.range 64).map fun x : Nat => if s.pixel x y then on else off) ≠ [] :=
    List.ne_nil_of_length_pos (by rw [List.length_map, List.length_range]; decide)
  refine Text.splitOn_intercalate hsome fun part hpart hmem => ?_
  obtain ⟨y, -, rfl⟩ := List.mem_map.1 hpart
  obtain ⟨x, -, hx⟩ := List.mem_map.1 hmem
  split at hx
  · exact hon hx
  · exact hoff hx

theorem eq_of_render (hne : on ≠ off) {s s' : Screen}
    (h : s.render (String.singleton on) (String.singleton off) =
      s'.render (String.singleton on) (String.singleton off)) : s = s' := by
  have hlines := splitOn_render hon hoff s
  rw [h, splitOn_render hon hoff s'] at hlines
  refine eq_of_pixel fun x y hx hy => ?_
  have hline := List.map_inj_left.1 hlines.symm y (List.mem_range.2 hy)
  have hchar := List.map_inj_left.1 hline x (List.mem_range.2 hx)
  cases hpixel : s.pixel x y <;> cases hpixel' : s'.pixel x y <;>
    simp only [hpixel, hpixel', if_true, if_false, Bool.false_eq_true] at hchar
  · rfl
  · exact absurd hchar.symm hne
  · exact absurd hchar hne
  · rfl

end

/-- The three readers see one screen, and none of them loses any of it. -/
theorem readers_agree :
    (∀ video : List Nat, video.length = 32 → (∀ row ∈ video, row < 0x10000000000000000) →
      ∃ s : Screen, s.video = video) ∧
    ∀ s : Screen,
      (∀ x y : Int, Video.pixel s.video x y = s.pixel x y ∧
        s.pixel x y = s.pixel (x % 64) (y % 32)) ∧
      Video.lit s.video = s.lit ∧
      (∀ x y : Nat, (x, y) ∈ s.lit ↔ x < 64 ∧ y < 32 ∧ s.pixel x y = true) ∧
      s.lit.Pairwise Video.Before ∧
      (∀ on off : String, Video.render s.video on off = s.render on off ∧
        s.render on off = "\n".intercalate ((List.range 32).map fun y : Nat =>
          String.join ((List.range 64).map fun x : Nat => if s.pixel x y then on else off))) ∧
      (∀ y : Nat, y < 32 → s.video[y]? =
        some (Video.total ((s.lit.filter fun p => p.2 == y).map fun p => Video.mask p.1))) ∧
      ∀ s' : Screen, (s.lit = s'.lit → s = s') ∧
        ∀ on off : Char, on ≠ off → on ≠ '\n' → off ≠ '\n' →
          s.render (String.singleton on) (String.singleton off) =
            s'.render (String.singleton on) (String.singleton off) → s = s' := by
  refine ⟨fun _ => exists_video, fun s => ?_⟩
  refine ⟨fun x y => ⟨s.pixel_video x y, (s.pixel_emod x y).symm⟩, s.lit_video, s.mem_lit_iff,
    s.pairwise_lit, fun on off => ⟨s.render_video on off, rfl⟩, fun y hy => ?_, fun s' => ?_⟩
  · rw [s.getElem?_video hy, s.total_lit hy]
  · exact ⟨eq_of_lit, fun _ _ hne hon hoff => eq_of_render hon hoff hne⟩

/-- Three pixels, two of them in one row. -/
theorem readers_agree_on_three_pixels :
    let s := (blank.setRow 2 0x8000000000000001).setRow 5 0x1000000000000000
    s.lit = [(0, 2), (63, 2), (3, 5)] ∧ s.pixel (-1) 34 = true ∧
      s.video[2]? = some 0x8000000000000001 ∧ (∃ s' : Screen, s'.video = s.video) ∧
      ∀ s' : Screen, s.render "@" " " = s'.render "@" " " → s = s' := by
  intro s
  obtain ⟨hscreens, hreaders⟩ := readers_agree
  obtain ⟨hpixel, -, -, -, -, hrow, hlost⟩ := hreaders s
  have hlit : s.lit = [(0, 2), (63, 2), (3, 5)] := by decide +kernel
  refine ⟨hlit, ?_, ?_, hscreens s.video ?_ ?_, fun s' => ?_⟩
  · rw [(hpixel (-1) 34).2]
    decide +kernel
  · rw [hrow 2 (by decide), hlit]
    rfl
  · decide +kernel
  · decide +kernel
  · exact (hlost s').2 '@' ' ' (by decide) (by decide) (by decide)

end Screen

end ChipEight
