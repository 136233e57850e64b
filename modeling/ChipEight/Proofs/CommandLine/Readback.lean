/-
# `ChipEight.Proofs.CommandLine.Readback` — what is printed can be read back

Nothing that is printed of a run is lost: there is a reader that gets all of it back from
the text.  The reader counts the lines, for the last 33 are the picture and the summary and
all before them belong to the trace; it takes the lines apart at their blanks and brackets,
and it turns digits into numbers and the characters of the picture into bits.

The machine that a run leaves has no negative number in it, nor had it at any instruction
on the way; so no sign is printed, and digits are all that has to be read.

**Proved here.**

    a printed number is read as the number            (`number_hex`, `number_decimal`)
    a line of the picture is read as its row          (`readRow_pictureChars`)
    what is printed of a run is read as the run       (`read_runText`)
    two command lines with the same printed text had
    runs that look the same                           (`shown_of_stdout`)
-/
import ChipEight.Proofs.CommandLine.RunAnswer

namespace ChipEight

namespace Text

/-! ## Numbers -/

/-- The number whose digits stand in a text, whatever else stands there. -/
def number (base : Nat) (cs : List Char) : Nat := valueOf base (cs.filterMap (digitBelow? base))

theorem valueOf_concat (base : Nat) (ds : List Nat) (d : Nat) :
    valueOf base (ds ++ [d]) = valueOf base ds * base + d := by
  rw [valueOf, valueOf, List.foldl_append]
  rfl

theorem digitValue?_digitChar : ∀ d < 16, digitValue? (digitChar d) = some d := by decide

theorem digitBelow?_digitChar {base d : Nat} (hbase : base ≤ 16) (hd : d < base) :
    digitBelow? base (digitChar d) = some d := by
  rw [digitBelow?, digitValue?_digitChar d (by omega), Option.filter_some,
    if_pos (decide_eq_true hd)]

theorem number_digits {base : Nat} (htwo : 2 ≤ base) (hbase : base ≤ 16) (n : Nat) :
    number base (digits base n) = n := by
  induction n using digits.induct base with
  | case1 n hsmall =>
      have hdigit := digitBelow?_digitChar hbase (d := n) (by omega)
      rw [digits, if_pos hsmall, number, List.filterMap_cons_some hdigit, List.filterMap_nil,
        ← List.nil_append [n], valueOf_concat]
      exact (congrArg (· + n) (Nat.zero_mul base)).trans (Nat.zero_add n)
  | case2 n hlarge ih =>
      have hdigit := digitBelow?_digitChar hbase (d := n % base) (Nat.mod_lt n (by omega))
      rw [number] at ih
      rw [digits, if_neg hlarge, number, List.filterMap_append, List.filterMap_cons_some hdigit,
        List.filterMap_nil, valueOf_concat, ih]
      exact Nat.div_add_mod' n base

theorem number_padded {base : Nat} (htwo : 2 ≤ base) (hbase : base ≤ 16) (width : Nat)
    (cs : List Char) : number base (padded width cs) = number base cs := by
  have hzero : digitBelow? base '0' = some 0 := digitBelow?_digitChar hbase (d := 0) (by omega)
  rw [number, padded, List.filterMap_append, List.filterMap_replicate_of_some hzero, valueOf_zeros]
  rfl

theorem number_hex (width n : Nat) : number 16 (hex width n).toList = n := by
  rw [hex, String.toList_ofList, number_padded (by decide) (by decide),
    number_digits (by decide) (by decide)]

theorem number_decimal (n : Nat) : number 10 (decimal n).toList = n := by
  rw [decimal, String.toList_ofList, number_digits (by decide) (by decide)]

theorem number_hexInt {i : Int} (h : 0 ≤ i) (width : Nat) :
    (number 16 (hexInt width i).toList : Int) = i := by
  rw [hexInt_of_nonneg width h, number_hex, Int.toNat_of_nonneg h]

theorem number_decimalInt {i : Int} (h : 0 ≤ i) :
    (number 10 (decimalInt i).toList : Int) = i := by
  rw [decimalInt_of_nonneg h, number_decimal, Int.toNat_of_nonneg h]

end Text

namespace CommandLine

/-! ## The reader -/

/-- What can be seen of a run once it is printed. -/
structure Shown where
  trace : List Entry
  rows : List Row
  pc : Int
  index : Int
  sp : Int
  delay : Int
  sound : Int
  registers : List Byte
  deriving DecidableEq

/-- What is printed of a run. -/
def shown (r : Run) : Shown where
  trace := r.trace.toList
  rows := r.machine.screen.rows.toList
  pc := r.machine.pc
  index := r.machine.index
  sp := r.machine.sp
  delay := r.machine.delay
  sound := r.machine.sound
  registers := r.machine.registers.toList

/-- Reads a line of the trace: an address and a word. -/
def readEntry (line : List Char) : Entry :=
  let words := Text.splitOn ' ' line
  ⟨Text.number 16 (words.getD 0 []), BitVec.ofNat 16 (Text.number 16 (words.getD 1 []))⟩

/-- Reads a line of the picture. -/
def readRow (line : List Char) : Row :=
  BitVec.ofNat 64 (Text.valueOf 2 (line.map fun c => if c = '#' then 1 else 0))

/-- Reads the number behind a name. -/
def readNamed (base : Nat) (word : List Char) : Int :=
  Text.number base (word.dropWhile (· != '='))

/-- Reads the bytes between two brackets. -/
def readRegisters (line : List Char) : List Byte :=
  let inside := ((line.dropWhile (· != '[')).drop 1).takeWhile (· != ']')
  (Text.splitOn ' ' inside).map fun word => BitVec.ofNat 8 (Text.number 16 word)

/-- Reads all that is printed of a run. -/
def readShown (text : String) : Shown :=
  let lines := (Text.splitOn '\n' text.toList).dropLast
  let entries := lines.length - 33
  let summary := lines.getD (entries + 32) []
  let words := Text.splitOn ' ' summary
  { trace := (lines.take entries).map readEntry
    rows := ((lines.drop entries).take 32).map readRow
    pc := readNamed 16 (words.getD 0 [])
    index := readNamed 16 (words.getD 1 [])
    sp := readNamed 16 (words.getD 2 [])
    delay := readNamed 10 (words.getD 3 [])
    sound := readNamed 10 (words.getD 4 [])
    registers := readRegisters summary }

/-! ## Reading a line -/

theorem ofNat_number_hex {k width : Nat} (b : BitVec k) :
    BitVec.ofNat k (Text.number 16 (Text.hex width b.toNat).toList) = b := by
  rw [Text.number_hex, BitVec.ofNat_toNat, BitVec.setWidth_eq]

theorem readEntry_entryChars {e : Entry} (h : 0 ≤ e.address) : readEntry (entryChars e) = e := by
  have hblank : IsMark ' ' := .inl rfl
  have haddress : ' ' ∉ (Text.hexInt 3 e.address).toList ++ [':'] := by
    intro hmem
    rcases List.mem_append.1 hmem with hmem | hmem
    · exact hblank.not_mem_numberChars (Text.mem_hexInt hmem)
    · cases List.mem_singleton.1 hmem
  have hwords : Text.splitOn ' ' (entryChars e) =
      [(Text.hexInt 3 e.address).toList ++ [':'], (Text.hex 4 e.word.toNat).toList] := by
    rw [entryChars, List.append_cons, Text.splitOn_append_cons, Text.splitOn_of_not_mem haddress,
      Text.splitOn_of_not_mem (not_mem_hex hblank 4 _)]
    rfl
  have hnumber : (Text.number 16 ((Text.hexInt 3 e.address).toList ++ [':']) : Int) = e.address := by
    rw [Text.number, List.filterMap_append, show [':'].filterMap (Text.digitBelow? 16) = [] by decide,
      List.append_nil]
    exact Text.number_hexInt h 3
  simp only [readEntry, hwords, List.getD_cons_zero, List.getD_cons_succ, hnumber, ofNat_number_hex]

theorem readNamed_named {base : Nat} {name value : String} {i : Int} (hname : '=' ∉ name.toList)
    (hequals : Text.digitBelow? base '=' = none) (hvalue : (Text.number base value.toList : Int) = i) :
    readNamed base (named name value) = i := by
  have hdrop : (named name value).dropWhile (· != '=') = '=' :: value.toList := by
    rw [named, List.dropWhile_append_of_pos (bne_of_not_mem hname)]
    rfl
  rw [readNamed, hdrop, Text.number, List.filterMap_cons_none hequals]
  exact hvalue

/-- The first `k` columns of a row are the digits of its upper bits, by induction on `k`. -/
theorem valueOf_columns (row : Row) : ∀ k ≤ 64,
    Text.valueOf 2 ((List.range k).map fun x => (row.getMsbD x).toNat) = row.toNat >>> (64 - k)
  | 0, _ => (Nat.shiftRight_eq_zero _ _ row.isLt).symm
  | k + 1, hk => by
      have hbit : (row.getMsbD k).toNat = row.toNat >>> (63 - k) % 2 := by
        rw [BitVec.getMsbD_eq_getLsbD, decide_eq_true (by omega), Bool.true_and, BitVec.getLsbD,
          Nat.toNat_testBit, Nat.shiftRight_eq_div_pow]
      have hrest : row.toNat >>> (64 - k) = row.toNat >>> (63 - k) / 2 := by
        rw [show 64 - k = (63 - k) + 1 by omega, Nat.shiftRight_succ]
      rw [List.range_succ, List.map_append, List.map_singleton, Text.valueOf_concat,
        valueOf_columns row k (by omega), hbit, hrest, show 64 - (k + 1) = 63 - k by omega]
      exact Nat.div_add_mod' _ 2

theorem readRow_pictureChars (s : Screen) (y : Nat) : readRow (pictureChars s y) = s.row y := by
  have hcolumns : (pictureChars s y).map (fun c => if c = '#' then 1 else 0) =
      (List.range 64).map fun x => ((s.row y).getMsbD x).toNat := by
    rw [pictureChars, List.map_map]
    refine List.map_congr_left fun x hx => ?_
    rw [Function.comp, s.pixel_of_lt (List.mem_range.1 hx)]
    cases (s.row y).getMsbD x <;> decide
  rw [readRow, hcolumns, valueOf_columns _ 64 (Nat.le_refl 64)]
  show BitVec.ofNat 64 (s.row y).toNat = s.row y
  rw [BitVec.ofNat_toNat, BitVec.setWidth_eq]

theorem readRegisters_summaryChars (m : Machine) :
    readRegisters (summaryChars m) = m.registers.toList := by
  have hblank : IsMark ' ' := .inl rfl
  have hopen : IsMark '[' := .inr (.inr (.inl rfl))
  have hclose : IsMark ']' := .inr (.inr (.inr rfl))
  let before := (summaryWords m).flatMap (· ++ [' ']) ++ ['V', '=']
  have hbefore : '[' ∉ before := by
    intro h
    rcases List.mem_append.1 h with h | h
    · obtain ⟨word, hword, h⟩ := List.mem_flatMap.1 h
      rcases List.mem_append.1 h with h | h
      · exact not_mem_summaryWords hopen m word hword h
      · cases List.mem_singleton.1 h
    · revert h
      decide
  have hinside : ']' ∉ registersChars m := by
    intro h
    rcases Text.mem_intercalate h with h | ⟨part, hpart, h⟩
    · cases h
    · obtain ⟨b, -, rfl⟩ := List.mem_map.1 hpart
      exact not_mem_hex hclose _ _ h
  have hline : summaryChars m = before ++ ('[' :: (registersChars m ++ [']'])) := by
    simp only [summaryChars, before, List.append_assoc, List.cons_append, List.nil_append]
  have hdrop : (summaryChars m).dropWhile (· != '[') = '[' :: (registersChars m ++ [']']) := by
    rw [hline, List.dropWhile_append_of_pos (bne_of_not_mem hbefore)]
    rfl
  have htake : (registersChars m ++ [']']).takeWhile (· != ']') = registersChars m := by
    rw [List.takeWhile_append_of_pos (bne_of_not_mem hinside)]
    exact List.append_nil _
  have hsome : m.registers.toList.map (fun b => (Text.hex 2 b.toNat).toList) ≠ [] :=
    List.ne_nil_of_length_pos (by simp)
  have hparts : ∀ part ∈ m.registers.toList.map (fun b => (Text.hex 2 b.toNat).toList),
      ' ' ∉ part := by
    intro part hpart
    obtain ⟨b, -, rfl⟩ := List.mem_map.1 hpart
    exact not_mem_hex hblank _ _
  have hsplit : Text.splitOn ' ' (registersChars m) =
      m.registers.toList.map fun b => (Text.hex 2 b.toNat).toList :=
    Text.splitOn_intercalate hsome hparts
  simp only [readRegisters, hdrop, List.drop_succ_cons, List.drop_zero, htake, hsplit, List.map_map]
  exact List.map_id'' ofNat_number_hex _

theorem readNamed_summaryChars {m : Machine} (hm : m.WellFormed) :
    let words := Text.splitOn ' ' (summaryChars m)
    readNamed 16 (words.getD 0 []) = m.pc ∧ readNamed 16 (words.getD 1 []) = m.index ∧
      readNamed 16 (words.getD 2 []) = m.sp ∧ readNamed 10 (words.getD 3 []) = m.delay ∧
      readNamed 10 (words.getD 4 []) = m.sound := by
  have hwords : Text.splitOn ' ' (summaryChars m) = summaryWords m ++
      Text.splitOn ' ' ('V' :: '=' :: '[' :: (registersChars m ++ [']'])) :=
    Text.splitOn_flatMap_append (not_mem_summaryWords (.inl rfl) m) _
  rw [hwords]
  exact ⟨readNamed_named (by decide) (by decide) (Text.number_hexInt hm.pc.1 3),
    readNamed_named (by decide) (by decide) (Text.number_hexInt hm.index.1 3),
    readNamed_named (by decide) (by decide) (Text.number_hexInt hm.sp.1 1),
    readNamed_named (by decide) (by decide) (Text.number_decimalInt hm.delay.1),
    readNamed_named (by decide) (by decide) (Text.number_decimalInt hm.sound.1)⟩

/-! ## Reading a run -/

/-- A run that has no negative number to show is read back from its text. -/
theorem read_runText {r : Run} (hm : r.machine.WellFormed)
    (htrace : ∀ e ∈ r.trace.toList, 0 ≤ e.address) : readShown (runText r) = shown r := by
  let entries := r.trace.toList.map entryChars
  let picture := (List.range 32).map (pictureChars r.machine.screen)
  have hlines : (Text.splitOn '\n' (runText r).toList).dropLast =
      entries ++ (picture ++ [summaryChars r.machine]) := by
    rw [toList_runText, ← List.append_nil ((runLines r).flatMap _),
      Text.splitOn_flatMap_append (not_mem_runLines r)]
    exact List.dropLast_concat
  have hpicture : picture.length = 32 := by simp [picture]
  have hlength : (entries ++ (picture ++ [summaryChars r.machine])).length - 33 =
      entries.length := by
    simp only [List.length_append, hpicture, List.length_singleton]
    omega
  have hsummary : (entries ++ (picture ++ [summaryChars r.machine])).getD (entries.length + 32) [] =
      summaryChars r.machine := by
    rw [List.getD_eq_getElem?_getD, List.getElem?_append_right (Nat.le_add_right _ _),
      Nat.add_sub_cancel_left, ← hpicture, List.getElem?_concat_length]
    rfl
  have hentries : entries.map readEntry = r.trace.toList := by
    rw [List.map_map]
    exact (List.map_congr_left fun e he => readEntry_entryChars (htrace e he)).trans (List.map_id _)
  have hrows : picture.map readRow = r.machine.screen.rows.toList := by
    rw [List.map_map, Screen.toList_rows]
    exact List.map_congr_left fun y _ => readRow_pictureChars _ y
  have htake : (picture ++ [summaryChars r.machine]).take 32 = picture := List.take_left' hpicture
  obtain ⟨hpc, hindex, hsp, hdelay, hsound⟩ := readNamed_summaryChars hm
  simp only [readShown, hlines, hlength, hsummary, List.take_left, List.drop_left, htake, hentries,
    hrows, hpc, hindex, hsp, hdelay, hsound, readRegisters_summaryChars]
  rfl

/-! ## Reading the answer to a command line -/

/-- A command line gets as far as printing a run. -/
def Prints {ε : Type} (v : Validator ε) (argv : List String)
    (file : Path → Except Obstacle (List Byte)) (chosenSeed : Int) (r : Run) : Prop :=
  ∃ p rom, prepare v argv = .ok p ∧ file p.path = .ok rom ∧ p.run rom chosenSeed = .ok r

section

variable {ε : Type} {v : Validator ε} {argv argv' : List String}
  {file file' : Path → Except Obstacle (List Byte)} {chosenSeed chosenSeed' : Int} {r r' : Run}

theorem stdout_of_prints (h : Prints v argv file chosenSeed r) :
    ∃ response, respond v argv file chosenSeed = .answer response ∧ response.stdout = runText r := by
  obtain ⟨p, rom, hprepare, hfile, hrun⟩ := h
  refine ⟨p.reply rom chosenSeed, ?_, (reply_of_run hrun).1⟩
  rw [respond_of_prepare hprepare, hfile]
  rfl

theorem read_of_prints (h : Prints v argv file chosenSeed r) : readShown (runText r) = shown r := by
  obtain ⟨p, rom, -, -, hrun⟩ := h
  obtain ⟨hmachine, htrace⟩ := wellFormed_of_ofRom hrun
  exact read_runText hmachine fun e he => (htrace e he).1

/-- What a command line prints of its run is read back from its output, so two command lines with
the same output had runs that show the same: the same picture, the same registers and the same trace.
The command lines, their files and their seeds have nothing to do with each other. -/
theorem shown_of_stdout (h : Prints v argv file chosenSeed r)
    (h' : Prints v argv' file' chosenSeed' r') :
    ∃ response response', respond v argv file chosenSeed = .answer response ∧
      respond v argv' file' chosenSeed' = .answer response' ∧
      readShown response.stdout = shown r ∧ readShown response'.stdout = shown r' ∧
      (response.stdout = response'.stdout →
        r.machine.screen.rows = r'.machine.screen.rows ∧ r.machine.pc = r'.machine.pc ∧
          r.machine.index = r'.machine.index ∧ r.machine.sp = r'.machine.sp ∧
          r.machine.delay = r'.machine.delay ∧ r.machine.sound = r'.machine.sound ∧
          r.machine.registers = r'.machine.registers ∧ r.trace = r'.trace) := by
  obtain ⟨response, hrespond, hstdout⟩ := stdout_of_prints h
  obtain ⟨response', hrespond', hstdout'⟩ := stdout_of_prints h'
  have hread : readShown response.stdout = shown r := by rw [hstdout, read_of_prints h]
  have hread' : readShown response'.stdout = shown r' := by rw [hstdout', read_of_prints h']
  refine ⟨response, response', hrespond, hrespond', hread, hread', fun hsame => ?_⟩
  have hshown : shown r = shown r' := by rw [← hread, ← hread', hsame]
  rw [shown, shown] at hshown
  injection hshown with htrace hrows hpc hindex hsp hdelay hsound hregisters
  exact ⟨Vector.toList_inj.1 hrows, hpc, hindex, hsp, hdelay, hsound, Vector.toList_inj.1 hregisters,
    Array.ext' htrace⟩

end

/-- Two ROMs of which one goes on behind the word that both runs stop at.  Neither its other bytes nor
the keys nor the seed show, so the printed text is the same; what it says is read back from it. -/
theorem shown_of_stdout_of_longer_rom :
    let v := Validator.lax none
    let argv := ["--ticks=3", "--ipt", "2", "--trace", "rom.ch8"]
    let argv' := ["other.ch8", "--trace", "--keys", "3", "--seed", "9", "--ipt=2", "--ticks", "3"]
    let file : Path → Except Obstacle (List Byte) := fun _ => .ok Run.faultyRom
    let file' : Path → Except Obstacle (List Byte) := fun _ => .ok (Run.faultyRom ++ [0xAB, 0xCD])
    ∃ r r' response response', Prints v argv file 7 r ∧ Prints v argv' file' 8 r' ∧
      respond v argv file 7 = .answer response ∧ respond v argv' file' 8 = .answer response' ∧
      response.stdout = response'.stdout ∧
      readShown response.stdout =
        { trace := [⟨512, 0x6005⟩, ⟨514, 0x6106⟩, ⟨516, 0x6207⟩]
          rows := List.replicate 32 0
          pc := 520
          index := 0
          sp := 0
          delay := 0
          sound := 0
          registers := [5, 6, 7, 0, 0, 0, 0, 0, 0, 0, 0, 0, 0, 0, 0, 0] } ∧
      r.machine.registers = r'.machine.registers ∧ r.trace = r'.trace := by
  intro v argv argv' file file'
  let options : Options := { instructionsPerTick := 2, trace := true }
  obtain ⟨r, hrun, hleft, hticks, hfault, htrace⟩ :=
    Run.ofRom_faultyRom Run.length_faultyRom_le (rfl : options.instructionsPerTick = 2) rfl rfl [] 7
  let options' : Options := { instructionsPerTick := 2, seed := some 9, trace := true }
  have hlonger : (Run.faultyRom ++ [0xAB, 0xCD]).length ≤ romCapacity := by decide
  obtain ⟨r', hrun', hleft', hticks', hfault', htrace'⟩ :=
    Run.ofRom_faultyRom hlonger (rfl : options'.instructionsPerTick = 2) rfl rfl [3] 8
  have hprints : Prints v argv file 7 r :=
    ⟨{ path := .ofText "rom.ch8", ticks := 3, options, keys := [], verbose := false },
      Run.faultyRom, by rfl, rfl, hrun⟩
  have hprints' : Prints v argv' file' 8 r' :=
    ⟨{ path := .ofText "other.ch8", ticks := 3, options := options', keys := [3],
        verbose := false }, Run.faultyRom ++ [0xAB, 0xCD], by rfl, rfl, hrun'⟩
  obtain ⟨response, response', hrespond, hrespond', hread, -, hshown⟩ :=
    shown_of_stdout hprints hprints'
  have hsame : r.SameResult r' :=
    { ticks := hticks.trans hticks'.symm
      trace := Array.ext' (htrace.trans htrace'.symm)
      fault := hfault.trans hfault'.symm
      screen := hleft.screen.trans hleft'.screen.symm
      registers := Vector.toList_inj.1 (hleft.registers.trans hleft'.registers.symm)
      pc := hleft.pc.trans hleft'.pc.symm
      index := hleft.index.trans hleft'.index.symm
      stack := hleft.stack.trans hleft'.stack.symm
      sp := hleft.sp.trans hleft'.sp.symm
      delay := hleft.delay.trans hleft'.delay.symm
      sound := hleft.sound.trans hleft'.sound.symm }
  have hstdout : response.stdout = response'.stdout := by
    obtain ⟨printed, hprinted, htext⟩ := stdout_of_prints hprints
    obtain ⟨printed', hprinted', htext'⟩ := stdout_of_prints hprints'
    cases hrespond.symm.trans hprinted
    cases hrespond'.symm.trans hprinted'
    rw [htext, htext', ← (answer_of_run r).1, answer_of_sameResult hsame, (answer_of_run r').1]
  obtain ⟨-, -, -, -, -, -, hregisters, htraces⟩ := hshown hstdout
  refine ⟨r, r', response, response', hprints, hprints', hrespond, hrespond', hstdout, ?_,
    hregisters, htraces⟩
  rw [hread, shown, htrace, hleft.screen, hleft.registers, hleft.pc, hleft.index, hleft.sp,
    hleft.delay, hleft.sound]
  rfl

end CommandLine

end ChipEight
