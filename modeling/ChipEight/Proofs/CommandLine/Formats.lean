/-
# `ChipEight.Proofs.CommandLine.Formats` — the printed lines, written out

Numbers are printed in capital hexadecimal digits, filled up with zeros to a width, or in
decimal.  Both are what the standard numerals are: the digits of `Nat.toDigits`, as capital
letters, and `toString`.  The machine that a run leaves has no negative number in it, nor
had it at any instruction on the way; so no sign is printed.

**Proved here.**

    printed numbers are standard numerals           (`hex_eq_hexadecimal`, `decimalInt_eq_toString`)
    what a run shows is in range                    (`wellFormed_of_ofRom`)
    the lines of a run and of its fault             (`runText_eq`, `reportLine_eq`)
-/
import ChipEight.Proofs.CommandLine.Lines
import ChipEight.Proofs.Moments
import ChipEight.Proofs.Trace

namespace ChipEight

namespace Text

/-! ## Numerals -/

/-- A number in capital hexadecimal digits, with zeros in front up to a width. -/
def hexadecimal (width n : Nat) : String :=
  .ofList (((Nat.toDigits 16 n).map Char.toUpper).leftpad width '0')

theorem toUpper_digitChar : ∀ d < 16, d.digitChar.toUpper = digitChar d := by decide

theorem map_toDigits {base : Nat} (htwo : 2 ≤ base) (hbase : base ≤ 16) (n : Nat) :
    (Nat.toDigits base n).map Char.toUpper = digits base n := by
  induction n using digits.induct base with
  | case1 n hsmall =>
      have hn : n < base := by omega
      rw [digits, if_pos hsmall, Nat.toDigits_of_lt_base hn, List.map_singleton,
        toUpper_digitChar n (by omega)]
  | case2 n hlarge ih =>
      have hdigit : n % base < 16 := Nat.lt_of_lt_of_le (Nat.mod_lt n (by omega)) hbase
      rw [digits_of_le htwo (by omega), Nat.toDigits_of_base_le (by omega) (by omega),
        List.map_append, ih, List.map_singleton, toUpper_digitChar _ hdigit]

theorem hex_eq_hexadecimal (width n : Nat) : hex width n = hexadecimal width n := by
  rw [hex, hexadecimal, map_toDigits (by decide) (by decide)]
  rfl

theorem toUpper_digitChar_of_lt_ten : ∀ d < 10, d.digitChar.toUpper = d.digitChar := by decide

/-- Decimal digits have no capital form of their own. -/
theorem map_toDigits_ten (n : Nat) :
    (Nat.toDigits 10 n).map Char.toUpper = Nat.toDigits 10 n := by
  induction n using digits.induct 10 with
  | case1 n hsmall =>
      have hn : n < 10 := by omega
      rw [Nat.toDigits_of_lt_base hn, List.map_singleton, toUpper_digitChar_of_lt_ten n hn]
  | case2 n hlarge ih =>
      rw [Nat.toDigits_of_base_le (by omega) (by omega), List.map_append, ih, List.map_singleton,
        toUpper_digitChar_of_lt_ten _ (Nat.mod_lt n (by omega))]

theorem decimal_eq_toString (n : Nat) : decimal n = toString n := by
  rw [decimal, ← map_toDigits (by decide) (by decide), map_toDigits_ten,
    Nat.toString_eq_ofList_toDigits]

theorem hexInt_of_nonneg (width : Nat) {i : Int} (h : 0 ≤ i) :
    hexInt width i = hex width i.toNat := by
  obtain ⟨n, rfl⟩ := Int.eq_ofNat_of_zero_le h
  rfl

theorem decimalInt_of_nonneg {i : Int} (h : 0 ≤ i) : decimalInt i = decimal i.toNat := by
  obtain ⟨n, rfl⟩ := Int.eq_ofNat_of_zero_le h
  rfl

theorem hexInt_eq_hexadecimal (width : Nat) {i : Int} (h : 0 ≤ i) :
    hexInt width i = hexadecimal width i.toNat :=
  (hexInt_of_nonneg width h).trans (hex_eq_hexadecimal width i.toNat)

theorem decimalInt_eq_toString : ∀ i : Int, decimalInt i = toString i
  | .ofNat n => decimal_eq_toString n
  | .negSucc n => congrArg ("-" ++ ·) (decimal_eq_toString (n + 1))

end Text

namespace CommandLine

open Text (hexadecimal)

/-! ## What a run shows -/

/-- All machines on the way of a run are well-formed, so what it shows is in range. -/
theorem wellFormed_of_ofRom {rom : List Byte} {ticks : Int} {options : Options} {keys : List Int}
    {chosenSeed : Int} {r : Run} (h : Run.ofRom rom ticks options keys chosenSeed = .ok r) :
    r.machine.WellFormed ∧ ∀ e ∈ r.trace.toList, 0 ≤ e.address ∧ e.address < 4096 := by
  obtain ⟨m, hstart, rfl⟩ := Run.ofRom_eq_ok_iff.1 h
  let batches := List.replicate ticks.toNat options.instructionsPerTick
  obtain ⟨hend, hmids⟩ :=
    Machine.invariant_callCycles (P := Machine.WellFormed) (Q := fun _ => True)
      (fun hm _ => hm.step) Machine.WellFormed.decay batches (Run.wellFormed_of_start hstart)
      fun _ _ => trivial
  constructor
  · rw [(Run.onward_eq_calls options ticks.toNat 0 ⟨m, #[]⟩).1]
    exact hend
  · intro e he
    rw [Run.trace_of_start] at he
    split at he
    · have hexecuted := List.mem_of_mem_take he
      rw [Machine.executedIn_eq_map] at hexecuted
      obtain ⟨mid, hmid, rfl⟩ := List.mem_map.1 hexecuted
      exact (hmids mid hmid).pc
    · exact absurd he List.not_mem_nil

/-! ## Lines -/

theorem entryLine_eq {e : Entry} (h : 0 ≤ e.address) :
    entryLine e =
      hexadecimal 3 e.address.toNat ++ ": " ++ hexadecimal 4 e.word.toNat ++ "\n" := by
  rw [entryLine, Text.hexInt_eq_hexadecimal 3 h, Text.hex_eq_hexadecimal]

theorem summaryLine_eq {m : Machine} (h : m.WellFormed) :
    summaryLine m =
      "PC=" ++ hexadecimal 3 m.pc.toNat ++ " I=" ++ hexadecimal 3 m.index.toNat ++
      " SP=" ++ hexadecimal 1 m.sp.toNat ++ " DT=" ++ toString m.delay ++
      " ST=" ++ toString m.sound ++
      " V=[" ++ " ".intercalate (m.registers.toList.map fun b => hexadecimal 2 b.toNat) ++
      "]\n" := by
  delta summaryLine
  simp only [Text.hexInt_eq_hexadecimal _ h.pc.1, Text.hexInt_eq_hexadecimal _ h.index.1,
    Text.hexInt_eq_hexadecimal _ h.sp.1, Text.decimalInt_eq_toString, Text.hex_eq_hexadecimal]

theorem reportLine_eq (f : Fault) (ticks : Nat) :
    reportLine (f.report ticks) =
      "error: InvalidOpcode: Invalid opcode: 0x" ++ hexadecimal 4 f.word.toNat ++
      " at 0x" ++ hexadecimal 3 f.address.val ++ " (tick " ++ toString ticks ++ ")\n" := by
  have hword : (0 : Int) ≤ f.word.toNat := Int.natCast_nonneg _
  have haddress : 0 ≤ (f.report ticks).address := Int.natCast_nonneg f.address.val
  have hmessage : (f.report ticks).message =
      "Invalid opcode: 0x" ++ hexadecimal 4 f.word.toNat :=
    congrArg ("Invalid opcode: 0x" ++ ·) (Text.hexInt_eq_hexadecimal 4 hword)
  have hkind : "error: " ++ ErrorKind.invalidOpcode.name ++ ": " ++ "Invalid opcode: 0x" =
      "error: InvalidOpcode: Invalid opcode: 0x" := by decide
  rw [reportLine, hmessage, Text.hexInt_eq_hexadecimal 3 haddress,
    Text.decimalInt_eq_toString, show (f.report ticks).kind = .invalidOpcode from rfl,
    ← String.append_assoc, hkind]
  rfl

/-- All that is printed of a run: its trace, its picture and the summary of its machine. -/
theorem runText_eq {rom : List Byte} {ticks : Int} {options : Options} {keys : List Int}
    {chosenSeed : Int} {r : Run} (h : Run.ofRom rom ticks options keys chosenSeed = .ok r) :
    runText r =
      String.join (r.trace.toList.map fun e =>
        hexadecimal 3 e.address.toNat ++ ": " ++ hexadecimal 4 e.word.toNat ++ "\n") ++
      (r.machine.screen.render "#" "." ++ "\n" ++
        ("PC=" ++ hexadecimal 3 r.machine.pc.toNat ++
          " I=" ++ hexadecimal 3 r.machine.index.toNat ++
          " SP=" ++ hexadecimal 1 r.machine.sp.toNat ++ " DT=" ++ toString r.machine.delay ++
          " ST=" ++ toString r.machine.sound ++ " V=[" ++
          " ".intercalate (r.machine.registers.toList.map fun b => hexadecimal 2 b.toNat) ++
          "]\n")) := by
  obtain ⟨hmachine, htrace⟩ := wellFormed_of_ofRom h
  have hentries : r.trace.toList.map entryLine = r.trace.toList.map fun e =>
      hexadecimal 3 e.address.toNat ++ ": " ++ hexadecimal 4 e.word.toNat ++ "\n" :=
    List.map_congr_left fun e he => entryLine_eq (htrace e he).1
  rw [runText, machineText, hentries, summaryLine_eq hmachine]

end CommandLine

end ChipEight
