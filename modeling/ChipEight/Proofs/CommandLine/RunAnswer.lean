/-
# `ChipEight.Proofs.CommandLine.RunAnswer` — the answer to a command line is its run

A command line of one path and groups of options asks for a run: of the ROM in the file,
with the last value of each setting, or its default.  What is printed is the trace if it
was asked for, the picture and the line with the registers, also if the run ended in a
fault; the fault is reported apart, and it alone decides the code.

**Proved here.**

    settings are checked one by one                         (`ofFields_settings`)
    settings in range are the options of a run              (`ofFields_fields_of_range`)
    arguments in range are a plan                           (`plan_of_settings`)
    an answer depends on nothing but the result of its run  (`answer_of_sameResult`)
    the answer to a command line is its run                 (`respond_interleaved`)
-/
import ChipEight.Proofs.CommandLine.Formats
import ChipEight.Proofs.CommandLine.Groups
import ChipEight.Proofs.LaxValidation
import ChipEight.Proofs.SeedFree

namespace ChipEight.CommandLine

open OptionGroup (apply ticks? perTick? seed? keys? isTrace)
open Text (hexadecimal)

/-! ## From settings to a plan -/

section

variable {ε : Type} {v : Validator ε}

/-- Of the settings two are checked as options; the flag for the trace is an option as it is. -/
theorem ofFields_settings (hv : v.Documented) (s : Settings) :
    Options.ofFields v s.fields =
      match v.check (.int (some 1) (some 1000)) s.perTick, v.check .optionalInt s.seed with
      | .ok instructionsPerTick, .ok seed => .ok { instructionsPerTick, seed, trace := s.trace }
      | .ok _, .error wrongSeed => .error [⟨.seed, wrongSeed, s.seed⟩]
      | .error wrong, .ok _ => .error [⟨.instructionsPerTick, wrong, s.perTick⟩]
      | .error wrong, .error wrongSeed =>
          .error [⟨.instructionsPerTick, wrong, s.perTick⟩, ⟨.seed, wrongSeed, s.seed⟩] := by
  have hperTick : Options.schema.settled v.check s.fields .instructionsPerTick =
      (v.check (.int (some 1) (some 1000)) s.perTick).mapError
        (⟨.instructionsPerTick, ·, s.perTick⟩) :=
    Schema.settled_of_lookup (s := Options.schema) rfl
  have hseed : Options.schema.settled v.check s.fields .seed =
      (v.check .optionalInt s.seed).mapError (⟨.seed, ·, s.seed⟩) :=
    Schema.settled_of_lookup (s := Options.schema) rfl
  have htrace : Options.schema.settled v.check s.fields .trace = .ok s.trace := by
    have hcheck : v.check .bool (.bool s.trace) = .ok s.trace := hv.accepts .bool s.trace trivial
    refine (Schema.settled_of_lookup (s := Options.schema) rfl).trans ?_
    exact congrArg (Except.mapError _) hcheck
  have hlimit : Options.schema.settled v.check s.fields .traceLimit = .ok 10000 :=
    Schema.settled_of_not_given (s := Options.schema) rfl
  have hfailed {errors : List (FieldError Field ε)} (hsome : errors ≠ [])
      (h : [Field.instructionsPerTick, .seed].filterMap
        (fun field => failure? (Options.schema.settled v.check s.fields field)) = errors) :
      Options.ofFields v s.fields = .error errors := by
    refine (Options.ofFields_eq_error_iff hv).2 ⟨?_, hsome⟩
    simp only [← h, Schema.failures, Field.all, List.filterMap_cons, List.filterMap_nil, htrace,
      hlimit, failure?]
  cases hn : v.check (.int (some 1) (some 1000)) s.perTick with
  | ok n =>
      rw [hn] at hperTick
      cases hs : v.check .optionalInt s.seed with
      | ok seed =>
          rw [hs] at hseed
          exact (Options.ofFields_eq_ok_iff hv).2
            (Field.forall_iff.2 ⟨hperTick, hseed, htrace, hlimit⟩)
      | error wrongSeed =>
          rw [hs] at hseed
          refine hfailed (List.cons_ne_nil _ _) ?_
          rw [List.filterMap_cons, List.filterMap_cons, hperTick, hseed]
          rfl
  | error wrong =>
      rw [hn] at hperTick
      cases hs : v.check .optionalInt s.seed with
      | ok seed | error wrongSeed =>
          rw [hs] at hseed
          refine hfailed (List.cons_ne_nil _ _) ?_
          rw [List.filterMap_cons, List.filterMap_cons, hperTick, hseed]
          rfl

theorem ofFields_fields_of_range (hv : v.Documented) {s : Settings} {n : Int} {seed : Option Int}
    (hperTick : s.perTick = .int n) (hlow : 1 ≤ n) (hhigh : n ≤ 1000)
    (hseed : s.seed = (seed.map .int).getD .null) :
    Options.ofFields v s.fields = .ok { instructionsPerTick := n, seed, trace := s.trace } := by
  have hn : v.check (.int (some 1) (some 1000)) (.int n) = .ok n :=
    hv.check_int_iff.2 ⟨rfl, by simpa [FieldType.Admits] using ⟨hlow, hhigh⟩⟩
  have hs : v.check .optionalInt ((seed.map .int).getD .null) = .ok seed :=
    hv.accepts .optionalInt seed trivial
  rw [ofFields_settings hv, hperTick, hn, hseed, hs]

theorem plan_of_settings (hv : v.Documented) {a : Arguments} {ticks n : Int} {seed : Option Int}
    (hticks : a.settings.ticks = some ticks) (hnonneg : 0 ≤ ticks)
    (hperTick : a.settings.perTick = .int n) (hlow : 1 ≤ n) (hhigh : n ≤ 1000)
    (hseed : a.settings.seed = (seed.map .int).getD .null) :
    a.plan v = .ok
      { path := .ofText a.rom
        ticks
        options := { instructionsPerTick := n, seed, trace := a.settings.trace }
        keys := a.settings.keys
        verbose := a.settings.verbose } := by
  rw [Arguments.plan, ofFields_fields_of_range hv hperTick hlow hhigh hseed, hticks]
  exact if_neg (Int.not_lt.2 hnonneg)

/-! ## From a plan to an answer -/

variable {argv : List String}

theorem respond_of_error {outcome : Outcome} (h : prepare v argv = .error outcome)
    (file : Path → Except Obstacle (List Byte)) (chosenSeed : Int) :
    respond v argv file chosenSeed = outcome := by
  rw [respond, h]

theorem respond_of_prepare {p : Plan} (h : prepare v argv = .ok p)
    (file : Path → Except Obstacle (List Byte)) (chosenSeed : Int) :
    respond v argv file chosenSeed = p.conclude (file p.path) chosenSeed := by
  rw [respond, h]

theorem respond_of_plan {a : Arguments} {p : Plan}
    {file : Path → Except Obstacle (List Byte)} {rom : List Byte}
    (hread : read argv = .ok (.run a)) (hplan : a.plan v = .ok p) (hfile : file p.path = .ok rom)
    (chosenSeed : Int) : respond v argv file chosenSeed = .answer (p.reply rom chosenSeed) := by
  have hprepare : prepare v argv = .ok p := by
    rw [prepare, hread]
    exact hplan
  rw [respond_of_prepare hprepare, hfile]
  rfl

end

/-- What is left of the source is not printed, nor are memory, stack and keypad. -/
theorem answer_of_sameResult {r r' : Run} (h : r.SameResult r') :
    Plan.answer (.ok r) = Plan.answer (.ok r') := by
  have hsummary : summaryLine r.machine = summaryLine r'.machine := by
    delta summaryLine
    rw [h.pc, h.index, h.sp, h.delay, h.sound, h.registers]
  have hmachine : machineText r.machine = machineText r'.machine := by
    rw [machineText, machineText, h.screen, hsummary]
  have htext : runText r = runText r' := by
    rw [runText, runText, h.trace, hmachine]
  have hreport : r.report = r'.report := by
    rw [Run.report, Run.report, h.fault, h.ticks]
  simp only [Plan.answer, htext, hreport]

theorem trace_of_untraced {rom : List Byte} {ticks : Int} {options : Options} {keys : List Int}
    {chosenSeed : Int} {r : Run} (hrun : Run.ofRom rom ticks options keys chosenSeed = .ok r)
    (hoff : options.trace = false) : r.trace.toList = [] := by
  obtain ⟨m, -, rfl⟩ := Run.ofRom_eq_ok_iff.1 hrun
  rw [Run.trace_of_start, hoff]
  rfl

/-- What is printed of a run does not depend on how it ended. -/
theorem answer_of_run (r : Run) :
    (Plan.answer (.ok r)).stdout = runText r ∧
      ((r.status = "ok" ∧ (Plan.answer (.ok r)).code = 0 ∧ (Plan.answer (.ok r)).stderr = "") ∨
        ∃ f, r.status = "error" ∧ r.fault = some f ∧ (Plan.answer (.ok r)).code = 1 ∧
          (Plan.answer (.ok r)).stderr = reportLine (f.report r.ticks)) := by
  cases hfault : r.fault with
  | none =>
      have hreport : r.report = none := by rw [Run.report, hfault]; rfl
      have hanswer : Plan.answer (.ok r) = ⟨0, runText r, ""⟩ := by
        simp only [Plan.answer, hreport]
      rw [hanswer]
      exact ⟨rfl, .inl ⟨(Run.status_eq_ok_iff r).2 hfault, rfl, rfl⟩⟩
  | some f =>
      have hreport : r.report = some (f.report r.ticks) := by rw [Run.report, hfault]; rfl
      have hanswer : Plan.answer (.ok r) = ⟨1, runText r, reportLine (f.report r.ticks)⟩ := by
        simp only [Plan.answer, hreport]
      rw [hanswer]
      have hstatus := (Run.status_eq_error_iff r).2 (Option.ne_none_iff_exists'.2 ⟨f, hfault⟩)
      exact ⟨rfl, .inr ⟨f, hstatus, rfl, rfl, rfl⟩⟩

/-- The log does not change what is printed. -/
theorem reply_of_run {p : Plan} {rom : List Byte} {chosenSeed : Int} {r : Run}
    (h : p.run rom chosenSeed = .ok r) :
    (p.reply rom chosenSeed).stdout = runText r ∧
      (p.reply rom chosenSeed).code = if r.fault.isSome then 1 else 0 := by
  obtain ⟨hcode, hstdout⟩ := reply_verbose p rom chosenSeed
  have hplain : ({ p with verbose := false } : Plan).reply rom chosenSeed = Plan.answer (.ok r) :=
    congrArg Plan.answer h
  rw [hcode, hstdout, hplain]
  refine ⟨(answer_of_run r).1, ?_⟩
  rw [Plan.answer, Run.report]
  cases r.fault <;> rfl

/-- A planned run is never answered like wrong usage. -/
theorem code_ne_two (p : Plan) (rom : List Byte) (chosenSeed : Int) :
    (p.reply rom chosenSeed).code ≠ 2 := by
  cases hrun : p.run rom chosenSeed with
  | error e =>
      have hcode : (p.reply rom chosenSeed).code = 1 := by
        rw [Plan.reply, hrun]
        split <;> rfl
      rw [hcode]
      decide
  | ok r =>
      rw [(reply_of_run hrun).2]
      split <;> decide

/-! ## From a command line to its run -/

section

variable {ε : Type} {v : Validator ε} (hv : v.Documented)
include hv

theorem plan_of_groups (path : String) (groups : List OptionGroup) {ticks n : Int}
    (hticks : (lastOf ticks? groups).getD 60 = ticks) (hnonneg : 0 ≤ ticks)
    (hperTick : (lastOf perTick? groups).getD 4 = n) (hlow : 1 ≤ n) (hhigh : n ≤ 1000) :
    (⟨path, groups.foldl apply {}⟩ : Arguments).plan v = .ok
      { path := .ofText path
        ticks
        options :=
          { instructionsPerTick := n, seed := lastOf seed? groups, trace := groups.any isTrace }
        keys := (lastOf keys? groups).getD []
        verbose := false } := by
  have hsome : ((lastOf ticks? groups).map some).getD (some 60) = some ticks := by
    rw [← hticks]
    cases lastOf ticks? groups <;> rfl
  have hint : ((lastOf perTick? groups).map FieldValue.int).getD (.int 4) = .int n := by
    rw [← hperTick]
    cases lastOf perTick? groups <;> rfl
  rw [foldl_apply]
  exact plan_of_settings hv hsome hnonneg hint hlow hhigh rfl

/-- The path of a ROM that fits stands anywhere among groups of options, of which the last ones for
ticks and for instructions per tick are in range.  With a seed among them, or if no seed makes a
difference to the result, the command line is answered with the run that they ask for: on one output
its trace if there is a group for it, its picture and the summary of its machine, on the other one
nothing, with code 0, or the report of its fault, with code 1.  No number that is printed is
negative. -/
theorem respond_interleaved (before after : List OptionGroup) {path : String}
    (hpath : path.toList.head? ≠ some '-') {file : Path → Except Obstacle (List Byte)}
    {rom : List Byte} (hfile : file (.ofText path) = .ok rom) (hrom : rom.length ≤ romCapacity) :
    let groups := before ++ after
    let ticks := (lastOf ticks? groups).getD 60
    let keys : List Int := ((lastOf keys? groups).getD []).map fun key => key.val
    let options : Options :=
      { instructionsPerTick := (lastOf perTick? groups).getD 4
        seed := lastOf seed? groups
        trace := groups.any isTrace }
    0 ≤ ticks → 1 ≤ options.instructionsPerTick → options.instructionsPerTick ≤ 1000 →
    (options.seed ≠ none ∨ Run.SeedFree rom ticks options keys) →
    ∀ chosenSeed otherSeed : Int, ∃ r response,
      Run.ofRom rom ticks options keys otherSeed = .ok r ∧
      respond v (interleaved before path after) file chosenSeed = .answer response ∧
      (r.machine.WellFormed ∧ ∀ e ∈ r.trace.toList, 0 ≤ e.address ∧ e.address < 4096) ∧
      response.stdout =
        (if groups.any isTrace then
          String.join (r.trace.toList.map fun e =>
            hexadecimal 3 e.address.toNat ++ ": " ++ hexadecimal 4 e.word.toNat ++ "\n")
        else "") ++
        (r.machine.screen.render "#" "." ++ "\n" ++
          ("PC=" ++ hexadecimal 3 r.machine.pc.toNat ++
            " I=" ++ hexadecimal 3 r.machine.index.toNat ++
            " SP=" ++ hexadecimal 1 r.machine.sp.toNat ++
            " DT=" ++ toString r.machine.delay ++
            " ST=" ++ toString r.machine.sound ++ " V=[" ++
            " ".intercalate (r.machine.registers.toList.map fun b => hexadecimal 2 b.toNat) ++
            "]\n")) ∧
      ((r.status = "ok" ∧ response.code = 0 ∧ response.stderr = "") ∨
        ∃ f, r.status = "error" ∧ r.fault = some f ∧ r.report = some (f.report r.ticks) ∧
          response.code = 1 ∧
          response.stderr =
            "error: InvalidOpcode: Invalid opcode: 0x" ++ hexadecimal 4 f.word.toNat ++
            " at 0x" ++ hexadecimal 3 f.address.val ++
            " (tick " ++ toString r.ticks ++ ")\n") := by
  intro groups ticks keys options hticks hlow hhigh hseed chosenSeed otherSeed
  have hread := read_interleaved before after hpath
  have hplan := plan_of_groups hv path groups rfl hticks rfl hlow hhigh
  have hrespond := respond_of_plan hread hplan hfile chosenSeed
  obtain ⟨r, hrun⟩ := Run.exists_ofRom_of_fits hrom ticks options keys otherSeed
  obtain ⟨r', hrun'⟩ := Run.exists_ofRom_of_fits hrom ticks options keys chosenSeed
  have hfree : Run.SeedFree rom ticks options keys :=
    hseed.elim (fun hgiven => Run.seedFree_of_seed hgiven ticks) id
  have hsame := answer_of_sameResult (hfree _ _ _ _ hrun' hrun)
  rw [← hrun'] at hsame
  obtain ⟨hstdout, hend⟩ := answer_of_run r
  rw [← hsame] at hstdout hend
  refine ⟨r, _, hrun, hrespond, wellFormed_of_ofRom hrun, hstdout.trans ?_, ?_⟩
  · rw [runText_eq hrun]
    cases htraced : groups.any isTrace with
    | true => rfl
    | false =>
        rw [trace_of_untraced hrun htraced]
        rfl
  · rcases hend with hok | ⟨f, hstatus, hfault, hcode, hstderr⟩
    · exact .inl hok
    · exact .inr ⟨f, hstatus, hfault, by rw [Run.report, hfault]; rfl, hcode,
        hstderr.trans (reportLine_eq f r.ticks)⟩

end

/-- The last ticks are in range, the first ones are not; there is no seed, and none is needed. -/
def ticksBefore : List OptionGroup :=
  [.setting .ticks true ⟨true, ['5'], by decide, by decide, by simp⟩,
    .setting .perTick false ⟨false, ['2'], by decide, by decide, by simp⟩]

def ticksAfter : List OptionGroup :=
  [.trace, .setting .keys false ⟨⟨15, true⟩, [⟨3, false⟩]⟩,
    .setting .ticks false ⟨false, ['0', '3'], by decide, by decide, by simp⟩]

theorem seedFree_faultyRom :
    Run.SeedFree Run.faultyRom 3 { instructionsPerTick := 2, trace := true } [15, 3] := by
  have hrom : Run.faultyRom.length ≤ romCapacity := by decide
  have hstart : Run.start Run.faultyRom { instructionsPerTick := 2, trace := true } [15, 3] 7 =
      .ok (Run.faultyStartWith [] (.seeded 7) [15, 3]) := by
    rw [Run.start, Machine.load_of_fits hrom]
    rfl
  refine Run.seedFree_of_unread hstart ?_
  show ∀ e ∈ (Run.faultyStartWith [] (.seeded 7) [15, 3]).executedIn [2, 2, 2], e.word.group ≠ 0xC
  rw [Machine.executedIn_faultyStartWith Run.length_faultyRom_le]
  decide

/-- The run stops in its second tick, whatever seed the host chooses. -/
theorem respond_interleaved_without_seed :
    let v := Validator.lax none
    let argv := ["--ticks=-5", "--ipt", "2", "rom.ch8", "--trace", "--keys", "F,3", "--ticks", "03"]
    let file : Path → Except Obstacle (List Byte) := fun _ => .ok Run.faultyRom
    let options : Options := { instructionsPerTick := 2, trace := true }
    v.Documented ∧ interleaved ticksBefore "rom.ch8" ticksAfter = argv ∧
      "rom.ch8".toList.head? ≠ some '-' ∧
      file (.ofText "rom.ch8") = .ok Run.faultyRom ∧ Run.faultyRom.length ≤ romCapacity ∧
      Run.SeedFree Run.faultyRom 3 options [15, 3] ∧
      ∀ chosenSeed, ∃ r response, Run.ofRom Run.faultyRom 3 options [15, 3] 7 = .ok r ∧
        respond v argv file chosenSeed = .answer response ∧ response.code = 1 ∧
        response.stdout = "200: 6005\n202: 6106\n204: 6207\n" ++
          (String.join (List.replicate 32 (.ofList (List.replicate 64 '.') ++ "\n")) ++
            "PC=208 I=000 SP=0 DT=0 ST=0 V=[05 06 07 00 00 00 00 00 00 00 00 00 00 00 00 00]\n") ∧
        response.stderr = "error: InvalidOpcode: Invalid opcode: 0x0001 at 0x206 (tick 1)\n" := by
  intro v argv file options
  have hv : v.Documented := Validator.documented_lax none
  have hargv : interleaved ticksBefore "rom.ch8" ticksAfter = argv := by decide
  have hpath : "rom.ch8".toList.head? ≠ some '-' := by decide
  have hfile : file (.ofText "rom.ch8") = .ok Run.faultyRom := rfl
  have hrom : Run.faultyRom.length ≤ romCapacity := by decide
  have hfree := seedFree_faultyRom
  refine ⟨hv, hargv, hpath, hfile, hrom, hfree, fun chosenSeed => ?_⟩
  obtain ⟨r, response, hrun, hrespond, -, hstdout, hend⟩ := respond_interleaved hv ticksBefore
    ticksAfter hpath hfile hrom (by decide) (by decide) (by decide) (.inr hfree) chosenSeed 7
  have hasked : Run.ofRom Run.faultyRom 3 options [15, 3] 7 = .ok r := hrun
  obtain ⟨r', hfaulty, hleft, hticks, hfault, htrace⟩ :=
    Run.ofRom_faultyRom Run.length_faultyRom_le (rfl : options.instructionsPerTick = 2) rfl rfl
      [15, 3] 7
  obtain rfl : r = r' := Except.ok.inj (hasked.symm.trans hfaulty)
  refine ⟨r, response, hasked, hargv ▸ hrespond, ?_⟩
  have htraced : (ticksBefore ++ ticksAfter).any isTrace = true := by decide
  have hpicture := render_blank
  rw [← hleft.screen] at hpicture
  rw [htraced, if_pos rfl, htrace, hpicture, hleft.registers, hleft.pc, hleft.index, hleft.sp,
    hleft.delay, hleft.sound] at hstdout
  rcases hend with ⟨hok, -, -⟩ | ⟨f, -, hfound, -, hcode, hstderr⟩
  · rw [(Run.status_eq_ok_iff r).1 hok] at hfault
    cases hfault
  · obtain rfl : f = ⟨0x0001, 518⟩ := Option.some.inj (hfound.symm.trans hfault)
    rw [hticks] at hstderr
    exact ⟨hcode, hstdout.trans (by rfl), hstderr.trans (by decide)⟩

end ChipEight.CommandLine
