/-
# `ChipEight.Proofs.InitialImage` — what a machine holds before its first step

A ROM that fits lies behind the font and ends at the last cell at the latest, so the two
blocks neither meet nor go round the end of the memory, and each address belongs to one of
them or to none.  An image of the memory says so for every address, and by that it leaves
no choice: a ROM has one image, and an image tells its ROM, up to zeros at the end.

**Proved here.**

    a loaded ROM has its image in the memory             (`image_withRom`)
    two memories with the same image are the same        (`Image.memory_eq`)
    zeros at the end of a ROM do not show in the image   (`Image.append_zeros`)
    and are all that does not show in it                 (`Image.eq_append_zeros`)
    so loading refuses a ROM by its size alone, and
    otherwise puts it there and nothing else             (`load_image`)
-/
import ChipEight.Proofs.RomImage
import ChipEight.Run

namespace ChipEight

/-! ## Images -/

/-- What the memory holds at each address once a ROM is loaded. -/
structure Image (rom : List Byte) (memory : Memory) : Prop where
  inRom : ∀ k (hk : k < rom.length), memory.read (512 + k) = rom[k]
  inFont : ∀ k (hk : k < Font.bytes.length), memory.read (80 + k) = Font.bytes[k]
  elsewhere : ∀ a : Nat, a < 4096 → ¬ (512 ≤ a ∧ a < 512 + rom.length) → ¬ (80 ≤ a ∧ a < 160) →
    memory.read a = 0

theorem Memory.read_zero (addr : Int) : zero.read addr = 0 := by
  rw [read, zero, get_eq_getElem]
  exact Vector.getElem_replicate _

namespace Image

variable {rom rom' : List Byte} {memory memory' : Memory}

theorem memory_eq (h : Image rom memory) (h' : Image rom memory') : memory = memory' := by
  refine Memory.eq_of_read fun addr => ?_
  have hcell : ((residue 4096 addr).val : Int) % 4096 = addr % 4096 := by
    rw [residue_val]
    omega
  rw [← memory.read_congr hcell, ← memory'.read_congr hcell]
  generalize hresidue : residue 4096 addr = a
  obtain ⟨a, ha⟩ := a
  by_cases hrom : 512 ≤ a ∧ a < 512 + rom.length
  · obtain ⟨k, rfl⟩ := Nat.exists_eq_add_of_le hrom.1
    have hk : k < rom.length := by omega
    exact (h.inRom k hk).trans (h'.inRom k hk).symm
  · by_cases hfont : 80 ≤ a ∧ a < 160
    · obtain ⟨k, rfl⟩ := Nat.exists_eq_add_of_le hfont.1
      have hk : k < Font.bytes.length := by
        rw [Font.length_bytes]
        omega
      exact (h.inFont k hk).trans (h'.inFont k hk).symm
    · exact (h.elsewhere a ha hrom hfont).trans (h'.elsewhere a ha hrom hfont).symm

/-- Behind the ROM the memory is zero anyway. -/
theorem read_behind (h : Image rom memory) {k : Nat} (hk : rom.length ≤ k) (hlast : k < 3584) :
    memory.read (512 + k) = 0 := by
  refine h.elsewhere (512 + k) ?_ ?_ ?_
  · omega
  · omega
  · omega

theorem append_zeros (h : Image rom memory) {k : Nat} (hfits : rom.length + k ≤ 3584) :
    Image (rom ++ List.replicate k 0) memory := by
  constructor
  · intro i hi
    rw [List.getElem_append]
    split
    · next hrom => exact h.inRom i hrom
    · next hzeros =>
        rw [List.length_append, List.length_replicate] at hi
        rw [List.getElem_replicate]
        exact h.read_behind (Nat.le_of_not_lt hzeros) (by omega)
  · exact h.inFont
  · intro a ha hrom hfont
    refine h.elsewhere a ha ?_ hfont
    rw [List.length_append] at hrom
    omega

theorem eq_append_zeros (h : Image rom memory) (h' : Image rom' memory)
    (hle : rom.length ≤ rom'.length) (hfits : rom'.length ≤ 3584) :
    rom' = rom ++ List.replicate (rom'.length - rom.length) 0 := by
  refine List.ext_getElem ?_ fun i hi _ => ?_
  · rw [List.length_append, List.length_replicate]
    omega
  · rw [← h'.inRom i hi, List.getElem_append]
    split
    · next hrom => exact h.inRom i hrom
    · next hzeros =>
        rw [List.getElem_replicate]
        exact h.read_behind (Nat.le_of_not_lt hzeros) (by omega)

end Image

namespace Machine

/-! ## Loaded ROMs -/

theorem image_withRom {rom : List Byte} (hfits : rom.length ≤ 3584) (source : RandomSource) :
    Image rom (withRom rom source).memory := by
  have hfont := Font.length_bytes
  constructor
  · exact fun k hk => Memory.read_load rom _ 512 k hk (by omega)
  · intro k hk
    refine (Memory.read_load_of_outside rom _ 512 (80 + k) fun i hi => ?_).trans ?_
    · omega
    · exact Memory.read_load Font.bytes _ 80 k hk (by omega)
  · intro a ha hrom hfonts
    refine (Memory.read_load_of_outside rom _ 512 a fun i hi => ?_).trans ?_
    · omega
    · refine (Memory.read_load_of_outside Font.bytes _ 80 a fun i hi => ?_).trans ?_
      · omega
      · exact Memory.read_zero a

/-- A machine that starts with a ROM: the program counter stands at its beginning, and whatever is
not memory is zero, dark or released. -/
structure Started (rom : List Byte) (source : RandomSource) (m : Machine) : Prop where
  image : Image rom m.memory
  pc : m.pc = 512
  registers : ∀ r, m.reg r = 0
  stack : ∀ slot, m.stack.get slot = 0
  keypad : m.keypad.Released
  screen : ∀ y : Int, m.screen.row y = 0
  index : m.index = 0
  sp : m.sp = 0
  delay : m.delay = 0
  sound : m.sound = 0
  source : m.source = source

theorem started_withRom {rom : List Byte} (hfits : rom.length ≤ 3584) (source : RandomSource) :
    Started rom source (withRom rom source) where
  image := image_withRom hfits source
  pc := rfl
  registers _ := Vector.getElem_replicate _
  stack slot := Vector.getElem_replicate slot.isLt
  keypad key := Vector.getElem_replicate (residue 16 key.val).isLt
  screen y := Vector.getElem_replicate (residue 32 y).isLt
  index := rfl
  sp := rfl
  delay := rfl
  sound := rfl
  source := rfl

/-- The memory of a ROM with zeros at its end is that of the ROM alone. -/
theorem withRom_append_zeros {rom : List Byte} {k : Nat} (hfits : rom.length + k ≤ 3584)
    (source : RandomSource) : withRom (rom ++ List.replicate k 0) source = withRom rom source := by
  have hlength : (rom ++ List.replicate k 0).length = rom.length + k := by
    rw [List.length_append, List.length_replicate]
  have hmemory : (withRom (rom ++ List.replicate k 0) source).memory =
      (withRom rom source).memory :=
    (image_withRom (hlength ▸ hfits) source).memory_eq
      ((image_withRom (by omega) source).append_zeros hfits)
  calc
    withRom (rom ++ List.replicate k 0) source =
        { withRom rom source with memory := (withRom (rom ++ List.replicate k 0) source).memory } :=
      rfl
    _ = withRom rom source := by rw [hmemory]

theorem load_append_zeros {rom : List Byte} {k : Nat} (hfits : rom.length + k ≤ 3584)
    (source : RandomSource) : load (rom ++ List.replicate k 0) source = load rom source := by
  have hlength : (rom ++ List.replicate k 0).length ≤ romCapacity := by
    rw [List.length_append, List.length_replicate]
    exact hfits
  rw [load_of_fits hlength, load_of_fits (Nat.le_trans (Nat.le_add_right _ k) hfits),
    withRom_append_zeros hfits]

theorem withRom_of_load {rom : List Byte} {source : RandomSource} {m : Machine}
    (h : load rom source = .ok m) : rom.length ≤ 3584 ∧ m = withRom rom source := by
  rw [load] at h
  split at h
  · cases h
  · next hfits => exact ⟨Nat.le_of_not_lt hfits, (Except.ok.inj h).symm⟩

/-- A ROM is refused if and only if it has more than 3584 bytes, and the report says how many it
has.  Otherwise the machine starts with the ROM from address 512 on, the font from address 80 on,
and zeros everywhere else.  Zeros at the end of a ROM change neither the machine nor any run with
the same seed, as long as there is room for them; and that is the only way for two ROMs to leave the
same memory. -/
theorem load_image :
    (∀ rom source e, load rom source = .error e ↔ 3584 < rom.length ∧ e = ⟨rom.length⟩) ∧
    (∀ size, (RomTooLarge.mk size).report =
      .other .romTooLarge ("ROM is " ++ Text.decimal size ++ " bytes, maximum is 3584") 512 0) ∧
    (∀ rom source, rom.length ≤ 3584 → ∃ m, load rom source = .ok m ∧ Started rom source m) ∧
    (∀ rom k, rom.length + k ≤ 3584 →
      (∀ source, load (rom ++ List.replicate k 0) source = load rom source) ∧
      ∀ ticks options keys chosenSeed chosenSeed',
        Options.seedOr options chosenSeed = options.seedOr chosenSeed' →
        Run.ofRom (rom ++ List.replicate k 0) ticks options keys chosenSeed =
          Run.ofRom rom ticks options keys chosenSeed') ∧
    (∀ rom rom' source source' m m', load rom source = .ok m → load rom' source' = .ok m' →
      m.memory = m'.memory →
      ∃ k, rom' = rom ++ List.replicate k 0 ∨ rom = rom' ++ List.replicate k 0) := by
  refine ⟨load_eq_error_iff, fun size => ?_, fun rom source hfits => ?_, fun rom k hfits => ?_, ?_⟩
  · rw [RomTooLarge.report, decimal_romCapacity, String.append_assoc]
    rfl
  · exact ⟨_, load_of_fits hfits source, started_withRom hfits source⟩
  · refine ⟨load_append_zeros hfits, fun ticks options keys chosenSeed chosenSeed' hseed => ?_⟩
    rw [Run.ofRom, Run.ofRom, Run.start, Run.start, hseed, load_append_zeros hfits]
  · intro rom rom' source source' m m' hload hload' hmemory
    obtain ⟨hfits, rfl⟩ := withRom_of_load hload
    obtain ⟨hfits', rfl⟩ := withRom_of_load hload'
    have himage := image_withRom hfits source
    have himage' := image_withRom hfits' source'
    rw [← hmemory] at himage'
    rcases Nat.le_total rom.length rom'.length with hle | hle
    · exact ⟨_, .inl (himage.eq_append_zeros himage' hle hfits')⟩
    · exact ⟨_, .inr (himage'.eq_append_zeros himage hle hfits)⟩

/-- Zeros up to the last cell, and one more; the runs have their seed from the options. -/
theorem load_image_to_the_last_cell :
    let rom : List Byte := [0x12, 0x00]
    let source := RandomSource.repeating []
    rom.length + 3582 ≤ 3584 ∧ load (rom ++ List.replicate 3582 0) source = load rom source ∧
      Run.ofRom (rom ++ List.replicate 3582 0) 9 { seed := some 5 } [3] 1 =
        Run.ofRom rom 9 { seed := some 5 } [3] 2 ∧
      (∃ m, load rom source = .ok m ∧ m.memory.read 512 = 0x12 ∧ m.memory.read 4095 = 0 ∧
        m.memory.read 159 = 0x80 ∧ m.pc = 512) ∧
      3584 < (rom ++ List.replicate 3583 0).length ∧
      load (rom ++ List.replicate 3583 0) source = .error ⟨3585⟩ ∧
      ∃ m, load [0x12] source = .ok m ∧ load rom source = .ok m ∧
        ∃ k, rom = [0x12] ++ List.replicate k 0 ∨ [0x12] = rom ++ List.replicate k 0 := by
  intro rom source
  obtain ⟨hrefused, -, hstarted, hzeros, hsame⟩ := load_image
  have hlarge : (rom ++ List.replicate 3583 0).length = 3585 := by
    rw [List.length_append, List.length_replicate]
    rfl
  obtain ⟨m, hload, hm⟩ := hstarted rom source (by decide)
  have hshort : load [0x12] source = .ok m := ((hzeros [0x12] 1 (by decide)).1 source).symm.trans hload
  obtain ⟨hloads, hruns⟩ := hzeros rom 3582 (by decide)
  refine ⟨by decide, hloads source, hruns 9 _ [3] 1 2 rfl, ⟨m, hload, hm.image.inRom 0 (by decide),
    hm.image.elsewhere 4095 (by decide) (by decide) (by decide), hm.image.inFont 79 (by decide), hm.pc⟩,
    by omega, ?_, m, hshort, hload, hsame _ _ _ _ m m hshort hload rfl⟩
  exact (hrefused _ source ⟨3585⟩).2 ⟨by omega, by rw [hlarge]⟩

end Machine

end ChipEight
