/-
# `ChipEight.Proofs.CommandLine.FailureOrder` — what is wrong is found in a fixed order

A command line that can be read may still be wrong in several ways at once.  The first of
these decides how it is answered, and none of the later ones is looked at:

    an option that is refused       code 2, with the refusals
    a negative number of ticks      code 2
    a path without a file           code 2
    a ROM that is too large         code 1, also if nothing is to be run

Nothing is printed in any of these cases.  In all others in which the file is read the run is
printed, and whether it faulted decides between the codes 0 and 1.  Wrong usage is always
reported in the same form.

The seed is an option too.  It can be any integer, but a seed that is given without a value
is refused, as is the size of a tick.  How refused options are described is left to the
validator.

**Proved here.**

    the refusals of settings that were read      (`ofFields_of_readable`)
    wrong usage and nothing else has code 2      (`usageReport_of_code`)
    the order of the failures                    (`respond_in_order`)
-/
import ChipEight.Proofs.CommandLine.Reading
import ChipEight.Proofs.CommandLine.RunAnswer

namespace ChipEight.CommandLine

open Text (hexadecimal)

/-! ## Refusals -/

/-- The size of a tick has to be an integer from 1 to 1000. -/
def isTickSize : FieldValue → Bool
  | .int n => 1 ≤ n && n ≤ 1000
  | _ => false

/-- A seed that is given has to be an integer. -/
def isSeed : FieldValue → Bool
  | .null | .int _ => true
  | _ => false

/-- The options that are refused. -/
def Settings.refused (s : Settings) : List Field :=
  (if isTickSize s.perTick then [] else [.instructionsPerTick]) ++
    if isSeed s.seed then [] else [.seed]

section

variable {ε : Type} {v : Validator ε} (hv : v.Documented)
include hv

theorem check_tickSize {value : FieldValue} (h : (∃ n, value = .int n) ∨ value = .list) :
    (∃ n, v.check (.int (some 1) (some 1000)) value = .ok n ∧ value = .int n ∧
      isTickSize value = true) ∨
    ∃ wrong, v.check (.int (some 1) (some 1000)) value = .error wrong ∧
      isTickSize value = false := by
  rcases h with ⟨n, rfl⟩ | rfl
  · have hsize : isTickSize (.int n) = true ↔ (FieldType.int (some 1) (some 1000)).Admits n := by
      simp [isTickSize, FieldType.Admits]
    cases hcheck : v.check (.int (some 1) (some 1000)) (.int n) with
    | ok m =>
        obtain ⟨rfl, hadmits⟩ := hv.check_int_iff.1 hcheck
        exact .inl ⟨n, rfl, rfl, hsize.2 hadmits⟩
    | error wrong =>
        refine .inr ⟨wrong, rfl, Bool.eq_false_iff.2 fun h => ?_⟩
        cases hcheck.symm.trans (hv.check_int_iff.2 ⟨rfl, hsize.1 h⟩)
  · cases hcheck : v.check (.int (some 1) (some 1000)) .list with
    | ok m => exact absurd hcheck hv.check_int_list
    | error wrong => exact .inr ⟨wrong, rfl, rfl⟩

theorem check_seed {value : FieldValue}
    (h : value = .null ∨ (∃ n, value = .int n) ∨ value = .list) :
    (∃ seed : Option Int, v.check .optionalInt value = .ok seed ∧
      value = (seed.map .int).getD .null ∧ isSeed value = true) ∨
    ∃ wrong, v.check .optionalInt value = .error wrong ∧ isSeed value = false := by
  rcases h with rfl | ⟨n, rfl⟩ | rfl
  · exact .inl ⟨none, hv.accepts .optionalInt none trivial, rfl, rfl⟩
  · exact .inl ⟨some n, hv.accepts .optionalInt (some n) trivial, rfl, rfl⟩
  · cases hcheck : v.check .optionalInt .list with
    | ok seed => exact absurd hcheck hv.check_optionalInt_list
    | error wrong => exact .inr ⟨wrong, rfl, rfl⟩

/-- Settings that were read are the options of a run unless one of them is refused. -/
theorem ofFields_of_readable {s : Settings} (h : s.Readable) :
    (s.refused ≠ [] ∧ ∃ errors, Options.ofFields v s.fields = .error errors ∧
      errors.map FieldError.field = s.refused) ∨
    ∃ (n : Int) (seed : Option Int), s.refused = [] ∧ s.perTick = .int n ∧
      s.seed = (seed.map .int).getD .null ∧
      Options.ofFields v s.fields = .ok { instructionsPerTick := n, seed, trace := s.trace } := by
  rw [ofFields_settings hv, Settings.refused]
  rcases check_tickSize hv h.perTick with ⟨n, hn, hperTick, hfine⟩ | ⟨wrong, hn, hwrong⟩
  · rcases check_seed hv h.seed with ⟨seed, hs, hvalue, hnone⟩ | ⟨wrongSeed, hs, hrefused⟩
    · rw [hn, hs, hfine, hnone]
      exact .inr ⟨n, seed, rfl, hperTick, hvalue, rfl⟩
    · rw [hn, hs, hfine, hrefused]
      exact .inl ⟨List.cons_ne_nil _ _, _, rfl, rfl⟩
  · rcases check_seed hv h.seed with ⟨seed, hs, hvalue, hnone⟩ | ⟨wrongSeed, hs, hrefused⟩
    · rw [hn, hs, hwrong, hnone]
      exact .inl ⟨List.cons_ne_nil _ _, _, rfl, rfl⟩
    · rw [hn, hs, hwrong, hrefused]
      exact .inl ⟨List.cons_ne_nil _ _, _, rfl, rfl⟩

end

/-! ## Wrong usage -/

/-- How wrong usage is reported. -/
def usageReport (text : String) : Outcome :=
  .answer ⟨2, "", usage ++ "chip8-run: error: " ++ text ++ "\n"⟩

section

variable {ε : Type} {v : Validator ε} {argv : List String}

theorem error_of_prepare {outcome : Outcome} (h : prepare v argv = .error outcome) :
    (∃ e : UsageError, outcome = usageReport e.message) ∨ outcome = .answer .help ∨
      outcome = .breakdown "" .ticksWithoutValue := by
  rw [prepare] at h
  cases hread : read argv with
  | error e =>
      rw [hread] at h
      cases h
      exact .inl ⟨e, rfl⟩
  | ok demand =>
      rw [hread] at h
      cases demand with
      | help =>
          cases h
          exact .inr (.inl rfl)
      | run a =>
          have hplan : a.plan v = .error outcome := h
          rw [Arguments.plan] at hplan
          split at hplan
          · cases hplan
            exact .inl ⟨_, rfl⟩
          · cases hplan
            exact .inr (.inr rfl)
          · split at hplan
            · cases hplan
              exact .inl ⟨_, rfl⟩
            · cases hplan

/-- Wrong usage is reported in one form, and nothing else has its code. -/
theorem usageReport_of_code {file : Path → Except Obstacle (List Byte)} {chosenSeed : Int}
    {response : Response} (h : respond v argv file chosenSeed = .answer response)
    (hcode : response.code = 2) :
    ∃ e : UsageError, Outcome.answer response = usageReport e.message := by
  cases hprepare : prepare v argv with
  | error outcome =>
      rw [respond_of_error hprepare] at h
      rcases error_of_prepare hprepare with ⟨e, he⟩ | hhelp | hbreakdown
      · exact ⟨e, h.symm.trans he⟩
      · cases h.symm.trans hhelp
        cases hcode
      · cases h.symm.trans hbreakdown
  | ok p =>
      rw [respond_of_prepare hprepare] at h
      cases hfile : file p.path with
      | error obstacle =>
          rw [hfile] at h
          cases obstacle with
          | missing => exact ⟨.romNotFound p.path.text, h.symm⟩
          | lookupRefused e | readRefused e => cases h
      | ok rom =>
          rw [hfile] at h
          cases h
          exact absurd hcode (code_ne_two p rom chosenSeed)

/-! ## Arguments that are wrong -/

variable (hv : v.Documented) {a : Arguments} (hread : read argv = .ok (.run a))

section

include hread

theorem prepare_of_read : prepare v argv = a.plan v := by
  rw [prepare, hread]

end

section

include hv hread

theorem respond_of_refused (h : a.settings.refused ≠ [])
    (file : Path → Except Obstacle (List Byte)) (chosenSeed : Int) :
    ∃ errors, Options.ofFields v a.settings.fields = .error errors ∧
      errors.map FieldError.field = a.settings.refused ∧
      respond v argv file chosenSeed = usageReport (v.describe Options.schema errors) := by
  rcases ofFields_of_readable hv (readable_of_read hread) with
    ⟨-, errors, hfields, hrefused⟩ | ⟨n, seed, hnone, -⟩
  · have hplan : a.plan v = .error (usageReport (v.describe Options.schema errors)) := by
      rw [Arguments.plan, hfields]
      rfl
    exact ⟨errors, hfields, hrefused,
      respond_of_error ((prepare_of_read hread).trans hplan) file chosenSeed⟩
  · exact absurd hnone h

variable {ticks : Int} (hnone : a.settings.refused = []) (hticks : a.settings.ticks = some ticks)
include hnone hticks

theorem respond_of_negative (h : ticks < 0) (file : Path → Except Obstacle (List Byte))
    (chosenSeed : Int) :
    respond v argv file chosenSeed =
      usageReport ("--ticks must be >= 0, got " ++ toString ticks) := by
  have hplan : a.plan v =
      .error (usageReport ("--ticks must be >= 0, got " ++ toString ticks)) := by
    rcases ofFields_of_readable hv (readable_of_read hread) with
      ⟨hsome, -⟩ | ⟨n, seed, -, -, -, hfields⟩
    · exact absurd hnone hsome
    · rw [Arguments.plan, hfields, hticks, ← Text.decimalInt_eq_toString]
      exact if_pos h
  exact respond_of_error ((prepare_of_read hread).trans hplan) file chosenSeed

/-- Without a refusal and with enough ticks there is a plan. -/
theorem prepare_of_fine (h : 0 ≤ ticks) :
    ∃ (n : Int) (seed : Option Int), a.settings.perTick = .int n ∧
      a.settings.seed = (seed.map .int).getD .null ∧ prepare v argv = .ok
        { path := .ofText a.rom
          ticks
          options := { instructionsPerTick := n, seed, trace := a.settings.trace }
          keys := a.settings.keys
          verbose := a.settings.verbose } := by
  rcases ofFields_of_readable hv (readable_of_read hread) with
    ⟨hsome, -⟩ | ⟨n, seed, -, hperTick, hseed, hfields⟩
  · exact absurd hnone hsome
  · refine ⟨n, seed, hperTick, hseed, (prepare_of_read hread).trans ?_⟩
    rw [Arguments.plan, hfields, hticks]
    exact if_neg (Int.not_lt.2 h)

end

end

/-! ## What becomes of a ROM -/

theorem romErrorLine_eq (n : Nat) :
    romErrorLine ⟨n⟩ = "error: ROM is " ++ toString n ++ " bytes, maximum is 3584\n" := by
  have hmessage : (RomTooLarge.mk n).report.message =
      "ROM is " ++ Text.decimal n ++ " bytes, maximum is " ++ Text.decimal romCapacity := rfl
  rw [romErrorLine, hmessage, decimal_romCapacity, Text.decimal_eq_toString, ← String.toList_inj]
  simp

theorem reply_of_tooLarge {rom : List Byte} (h : romCapacity < rom.length) (p : Plan)
    (chosenSeed : Int) :
    ∃ log, (p.verbose = false → log = "") ∧ p.reply rom chosenSeed =
      ⟨1, "", log ++ ("error: ROM is " ++ toString rom.length ++
        " bytes, maximum is 3584\n")⟩ := by
  have hrun : p.run rom chosenSeed = .error ⟨rom.length⟩ := Run.ofRom_eq_error_iff.2 ⟨h, rfl⟩
  rw [Plan.reply, hrun, ← romErrorLine_eq]
  cases p.verbose with
  | true => exact ⟨_, fun h => Bool.noConfusion h, rfl⟩
  | false => exact ⟨"", fun _ => rfl, by rw [String.empty_append]; rfl⟩

/-! ## The order -/

/-- The first of the failures decides, and without one the run is printed: its trace, the 32 lines
of the picture and the summary.  Refused options are reported with the description of what is wrong
with them.  Left out are ticks without a value and files that the system refuses to look up or to
read, for they end the program without an answer. -/
theorem respond_in_order {ε : Type} {v : Validator ε} (hv : v.Documented) (argv : List String)
    (file : Path → Except Obstacle (List Byte)) (chosenSeed : Int) :
    (∀ e, read argv = .error e → respond v argv file chosenSeed = usageReport e.message) ∧
    (∀ a, read argv = .ok (.run a) →
      let s := a.settings
      let path := Path.ofText a.rom
      (s.refused ≠ [] → ∃ errors, Options.ofFields v s.fields = .error errors ∧
        errors.map FieldError.field = s.refused ∧
        respond v argv file chosenSeed = usageReport (v.describe Options.schema errors)) ∧
      ∀ ticks, s.refused = [] → s.ticks = some ticks →
        (ticks < 0 → respond v argv file chosenSeed =
          usageReport ("--ticks must be >= 0, got " ++ toString ticks)) ∧
        (0 ≤ ticks → file path = .error .missing →
          respond v argv file chosenSeed = usageReport ("ROM not found: " ++ path.text)) ∧
        ∀ rom, 0 ≤ ticks → file path = .ok rom →
          (3584 < rom.length → ∃ log, (s.verbose = false → log = "") ∧
            respond v argv file chosenSeed = .answer
              ⟨1, "", log ++ ("error: ROM is " ++ toString rom.length ++
                " bytes, maximum is 3584\n")⟩) ∧
          (rom.length ≤ 3584 → ∃ r response,
            (∃ n seed, s.perTick = .int n ∧ s.seed = (seed.map .int).getD .null ∧
              Run.ofRom rom ticks { instructionsPerTick := n, seed, trace := s.trace }
                (s.keys.map fun key => (key.val : Int)) chosenSeed = .ok r) ∧
            respond v argv file chosenSeed = .answer response ∧
            (r.machine.WellFormed ∧ ∀ e ∈ r.trace.toList, 0 ≤ e.address ∧ e.address < 4096) ∧
            response.stdout =
              String.join (r.trace.toList.map fun e =>
                hexadecimal 3 e.address.toNat ++ ": " ++ hexadecimal 4 e.word.toNat ++ "\n") ++
              (String.join ((List.range 32).map fun y : Nat =>
                .ofList ((List.range 64).map fun x : Nat =>
                  if r.machine.screen.pixel x y then '#' else '.') ++ "\n") ++
                ("PC=" ++ hexadecimal 3 r.machine.pc.toNat ++
                  " I=" ++ hexadecimal 3 r.machine.index.toNat ++
                  " SP=" ++ hexadecimal 1 r.machine.sp.toNat ++
                  " DT=" ++ toString r.machine.delay ++
                  " ST=" ++ toString r.machine.sound ++ " V=[" ++
                  " ".intercalate (r.machine.registers.toList.map fun b =>
                    hexadecimal 2 b.toNat) ++ "]\n")) ∧
            response.code = if r.fault.isSome then 1 else 0)) ∧
    ∀ response, respond v argv file chosenSeed = .answer response → response.code = 2 →
      ∃ text, Outcome.answer response = usageReport text := by
  refine ⟨fun e he => ?_, fun a hread => ⟨fun h => ?_, fun ticks hnone hticks => ⟨?_, ?_, ?_⟩⟩,
    fun response h hcode => ?_⟩
  · exact respond_of_error (by rw [prepare, he]; rfl) file chosenSeed
  · exact respond_of_refused hv hread h file chosenSeed
  · exact fun h => respond_of_negative hv hread hnone hticks h file chosenSeed
  · intro hnonneg hfile
    obtain ⟨n, seed, -, -, hprepare⟩ := prepare_of_fine hv hread hnone hticks hnonneg
    rw [respond_of_prepare hprepare, hfile]
    rfl
  · intro rom hnonneg hfile
    obtain ⟨n, seed, hperTick, hseed, hprepare⟩ := prepare_of_fine hv hread hnone hticks hnonneg
    let options : Options := { instructionsPerTick := n, seed, trace := a.settings.trace }
    let p : Plan :=
      { path := .ofText a.rom, ticks, options, keys := a.settings.keys,
        verbose := a.settings.verbose }
    have hanswer : respond v argv file chosenSeed = .answer (p.reply rom chosenSeed) := by
      rw [respond_of_prepare hprepare, hfile]
      rfl
    refine ⟨fun hlarge => ?_, fun hfits => ?_⟩
    · obtain ⟨log, hlog, hreply⟩ := reply_of_tooLarge hlarge p chosenSeed
      exact ⟨log, hlog, hanswer.trans (congrArg Outcome.answer hreply)⟩
    · let keys : List Int := a.settings.keys.map fun key => (key.val : Int)
      obtain ⟨r, hrun⟩ := Run.exists_ofRom_of_fits hfits ticks options keys chosenSeed
      have hplanned : p.run rom chosenSeed = .ok r := hrun
      obtain ⟨hstdout, hcode⟩ := reply_of_run hplanned
      refine ⟨r, _, ⟨n, seed, hperTick, hseed, hrun⟩, hanswer, wellFormed_of_ofRom hrun, ?_, hcode⟩
      rw [hstdout, runText_eq hrun, render_eq_pixels]
  · obtain ⟨e, he⟩ := usageReport_of_code h hcode
    exact ⟨e.message, he⟩

/-- Four failures at once, whatever pages the description names, then two, then one; a ROM with a
byte too many, of which nothing is to be run; and a ROM without a byte. -/
theorem respond_in_order_one_by_one :
    let v := Validator.lax none
    let missing : Path → Except Obstacle (List Byte) := fun _ => .error .missing
    let large : List Byte := List.replicate 3585 0
    v.Documented ∧
      (∀ pages, ∃ errors, errors.map FieldError.field = [Field.instructionsPerTick, .seed] ∧
        respond (.lax pages) ["g", "--ticks=-1", "--ipt", "0", "--seed=--"] missing 0 =
          usageReport ((Validator.lax pages).describe Options.schema errors)) ∧
      respond v ["g", "--ticks=-1"] missing 0 =
        usageReport "--ticks must be >= 0, got -1" ∧
      respond v ["g"] missing 0 = usageReport ("ROM not found: " ++ (Path.ofText "g").text) ∧
      (∃ log, respond v ["g", "-v", "--ticks=0"] (fun _ => .ok large) 0 = .answer
        ⟨1, "", log ++ ("error: ROM is " ++ toString large.length ++
          " bytes, maximum is 3584\n")⟩) ∧
      ∃ response, respond v ["g", "--ticks=0"] (fun _ => .ok []) 0 = .answer response ∧
        (response.code = 0 ∨ response.code = 1) := by
  intro v missing large
  have hv : v.Documented := Validator.documented_lax none
  have hlarge : large.length = 3585 := List.length_replicate
  refine ⟨hv, ?_, ?_, ?_, ?_, ?_⟩
  · intro pages
    obtain ⟨-, hrun, -⟩ := respond_in_order (Validator.documented_lax pages)
      ["g", "--ticks=-1", "--ipt", "0", "--seed=--"] missing 0
    obtain ⟨hrefused, -⟩ :=
      hrun ⟨"g", { ticks := some (-1), perTick := .int 0, seed := .list }⟩ (by rfl)
    obtain ⟨errors, -, hfields, hrespond⟩ := hrefused (by decide)
    exact ⟨errors, hfields.trans (by decide), hrespond⟩
  · obtain ⟨-, hrun, -⟩ := respond_in_order hv ["g", "--ticks=-1"] missing 0
    obtain ⟨-, hfine⟩ := hrun ⟨"g", { ticks := some (-1) }⟩ (by rfl)
    exact ((hfine (-1) rfl rfl).1 (by decide)).trans (congrArg usageReport (by decide))
  · obtain ⟨-, hrun, -⟩ := respond_in_order hv ["g"] missing 0
    obtain ⟨-, hfine⟩ := hrun ⟨"g", {}⟩ (by rfl)
    exact (hfine 60 rfl rfl).2.1 (by decide) rfl
  · obtain ⟨-, hrun, -⟩ := respond_in_order hv ["g", "-v", "--ticks=0"] (fun _ => .ok large) 0
    obtain ⟨-, hfine⟩ := hrun ⟨"g", { ticks := some 0, verbose := true }⟩ (by rfl)
    obtain ⟨log, -, hrespond⟩ := ((hfine 0 rfl rfl).2.2 large (by decide) rfl).1 (by omega)
    exact ⟨log, hrespond⟩
  · obtain ⟨-, hrun, -⟩ := respond_in_order hv ["g", "--ticks=0"] (fun _ => .ok []) 0
    obtain ⟨-, hfine⟩ := hrun ⟨"g", { ticks := some 0 }⟩ (by rfl)
    obtain ⟨r, response, -, hrespond, -, -, hcode⟩ :=
      ((hfine 0 rfl rfl).2.2 [] (by decide) rfl).2 (by decide)
    refine ⟨response, hrespond, ?_⟩
    rw [hcode]
    cases r.fault with
    | none => exact .inl rfl
    | some f => exact .inr rfl

/-- A command line whose numbers are in range and whose ROM fits can still be refused, for a seed
that is given without a value.  Ticks that are given without a value and files that the system refuses to
look up or to read end the program without an answer. -/
theorem refused_in_range :
    let v := Validator.lax none
    let argv := ["g", "--seed=--", "--ticks", "0"]
    let file : Path → Except Obstacle (List Byte) := fun _ => .ok [0x12, 0x00]
    let denied : SystemError := ⟨13, "Permission denied"⟩
    (∃ a, read argv = .ok (.run a) ∧ a.settings.perTick = .int 4 ∧ a.settings.ticks = some 0 ∧
        file (.ofText a.rom) = .ok [0x12, 0x00]) ∧
      (∃ response, respond v argv file 0 = .answer response ∧ response.code = 2 ∧
        response.stdout = "") ∧
      (∃ a, read ["g", "--ticks=--"] = .ok (.run a) ∧ a.settings.perTick = .int 4) ∧
      respond v ["g", "--ticks=--"] file 0 = .breakdown "" .ticksWithoutValue ∧
      respond v ["g"] (fun _ => .error (.lookupRefused .nameTooLong)) 0 =
        .breakdown "" (.fileRefused .nameTooLong "g") ∧
      respond v ["g"] (fun _ => .error (.readRefused denied)) 0 =
        .breakdown "" (.fileRefused denied "g") := by
  intro v argv file denied
  have hread : read argv = .ok (.run ⟨"g", { ticks := some 0, seed := .list }⟩) := by rfl
  have hrespond : respond v argv file 0 =
      usageReport (v.describe Options.schema [⟨.seed, .notWhole, .list⟩]) := by rfl
  exact ⟨⟨_, hread, rfl, rfl, rfl⟩, ⟨_, hrespond, rfl, rfl⟩,
    ⟨⟨"g", { ticks := none }⟩, by rfl, rfl⟩, by rfl, by rfl, by rfl⟩

end ChipEight.CommandLine
