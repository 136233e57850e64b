/-
# `ChipEight.Proofs.CommandLine.Observation` — watching a run does not change it

Two flags are for watching only: one logs what happens, the other one prints the
instructions that completed.  Raised in front of a command line, they change nothing in how
the rest of it is read, checked and run.

A flag in front is seen first, and what follows is read into settings that differ by that
flag.  Nothing that is read later looks at the flags, so this is the only difference in the
end, whether the command line can be read or not; and nor does a check look at them, so the
same plan comes out, to be watched.

**Proved here.**

    the difference is kept as tokens are read         (`consume_observed`)
    a flag in front adds itself to what is asked for  (`read_verbose`, `read_trace`)
    a plan has its path from an argument              (`of_prepare`)
    a watched plan has the same answer, behind a log
    or a trace                                        (`reply_logged`, `reply_traced`)
    so has the command line                           (`respond_observed`)
-/
import ChipEight.Proofs.CommandLine.Log
import ChipEight.Proofs.CommandLine.Reading
import ChipEight.Proofs.CommandLine.RunAnswer

namespace ChipEight.CommandLine

/-! ## Flags in front -/

/-- The settings with some flags raised, if they are not. -/
def Settings.observed (trace verbose : Bool) (s : Settings) : Settings :=
  { s with trace := s.trace || trace, verbose := s.verbose || verbose }

def Demand.observed (trace verbose : Bool) : Demand → Demand
  | .help => .help
  | .run a => .run { a with settings := a.settings.observed trace verbose }

def Reading.observed (trace verbose : Bool) (r : Reading) : Reading :=
  { r with settings := r.settings.observed trace verbose }

section

variable (trace verbose : Bool)

theorem set_observed (s : Settings) (setting : Setting) (value : String) :
    (s.observed trace verbose).set setting value =
      (s.set setting value).map (Settings.observed trace verbose) := by
  cases setting with
  | ticks | perTick | seed =>
      rw [Settings.set, Settings.set]
      cases integerFor _ value <;> rfl
  | keys =>
      rw [Settings.set, Settings.set]
      cases KeyList.parse value.toList <;> rfl

theorem setAttached_observed (s : Settings) (setting : Setting) (value : String) :
    (s.observed trace verbose).setAttached setting value =
      (s.setAttached setting value).map (Settings.observed trace verbose) := by
  rw [Settings.setAttached, Settings.setAttached]
  split
  · cases setting <;> rfl
  · exact set_observed trace verbose s setting value

/-- A flag that is raised twice is raised. -/
theorem raise_observed (flags : List Flag) : ∀ s : Settings,
    (s.observed trace verbose).raise flags =
      (s.raise flags).map (Settings.observed trace verbose) := by
  induction flags with
  | nil => exact fun _ => rfl
  | cons flag flags ih =>
      intro s
      cases flag with
      | help => rfl
      | trace => exact ih { s with trace := true }
      | verbose => exact ih { s with verbose := true }

theorem setAside_observed (r : Reading) (text : String) :
    (r.observed trace verbose).setAside text = (r.setAside text).observed trace verbose := rfl

theorem finish_observed (r : Reading) :
    (r.observed trace verbose).finish = r.finish.map (Demand.observed trace verbose) := by
  obtain ⟨rom, s, surplus⟩ := r
  cases rom with
  | none => rfl
  | some rom => cases surplus <;> rfl

/-- By induction on the tokens, as they are read. -/
theorem consume_observed (r : Reading) (tokens : List Token) :
    (r.observed trace verbose).consume tokens =
      (r.consume tokens).map (Demand.observed trace verbose) := by
  have hrom (r : Reading) : (r.observed trace verbose).rom = r.rom := rfl
  have hsettings (r : Reading) :
      (r.observed trace verbose).settings = r.settings.observed trace verbose := rfl
  fun_induction r.consume tokens with
  | case1 r => exact finish_observed trace verbose r
  -- a word names the ROM, or is set aside, with the double dash next to it
  | case2 r text rest hnone ih | case6 r text rest hnone ih =>
      rw [← ih]
      simp only [Reading.consume, hrom, hnone]
      rfl
  | case4 r text rest hrest hnone ih =>
      rw [← ih]
      simp only [Reading.consume, hrom, hnone]
      rfl
  | case3 r text rest rom hsome ih | case7 r text rest rom hsome ih =>
      simp only [← ih, Reading.consume, hrom, hsome, setAside_observed]
  | case5 r text rest hrest rom hsome ih =>
      simp only [← ih, Reading.consume, hrom, hsome, setAside_observed]
  | case8 r rest hrest ih => simp only [← ih, Reading.consume, setAside_observed]
  | case9 r text rest ih => simp only [← ih, Reading.consume, setAside_observed]
  -- flags
  | case10 r first long attached rest e hcluster =>
      simp only [Reading.consume, hcluster]
      rfl
  | case11 r first long attached rest flags hcluster hraise =>
      simp only [Reading.consume, hcluster, hsettings, raise_observed, hraise]
      rfl
  | case12 r first long attached rest flags hcluster settings hraise ih =>
      rw [← ih]
      simp only [Reading.consume, hcluster, hsettings, raise_observed, hraise]
      rfl
  -- settings with their values
  | case13 r setting long value rest e hset =>
      simp only [Reading.consume, hsettings, setAttached_observed, hset]
      rfl
  | case14 r setting long value rest settings hset ih =>
      rw [← ih]
      simp only [Reading.consume, hsettings, setAttached_observed, hset]
      rfl
  | case15 r setting long value rest e hset =>
      simp only [Reading.consume, hsettings, set_observed, hset]
      rfl
  | case16 r setting long value rest settings hset ih =>
      rw [← ih]
      simp only [Reading.consume, hsettings, set_observed, hset]
      rfl
  | case17 r setting long tail htail =>
      simp only [Reading.consume]
      rfl

/-- A flag in front is the only difference to what is asked for. -/
theorem read_flag {text : String} {flag : Flag} {long : Bool} (argv : List String)
    (hdashes : text ≠ "--") (htoken : classifyOne text = .ok (.switch (.flag flag) long none))
    (hraise : ({} : Settings).raise [flag] = some (Settings.observed trace verbose {})) :
    read (text :: argv) = (read argv).map (Demand.observed trace verbose) := by
  rw [read, read, classify_cons_map hdashes htoken]
  cases classify argv with
  | error e => rfl
  | ok tokens =>
      refine Eq.trans ?_ (consume_observed trace verbose {} tokens)
      show Reading.consume {} (.switch (.flag flag) long none :: tokens) = _
      simp only [Reading.consume, cluster, hraise]
      rfl

theorem read_verbose (argv : List String) :
    read ("-v" :: argv) = (read argv).map (Demand.observed false true) :=
  read_flag false true argv (by decide) rfl rfl

theorem read_trace (argv : List String) :
    read ("--trace" :: argv) = (read argv).map (Demand.observed true false) :=
  read_flag true false argv (by decide) classifyOne_trace rfl

/-! ## Watched plans -/

def Plan.observed (p : Plan) : Plan :=
  { p with
    options := { p.options with trace := p.options.trace || trace }
    verbose := p.verbose || verbose }

variable {ε : Type} {v : Validator ε} (hv : v.Documented)
include hv

/-- The checks do not look at the flags. -/
theorem plan_observed (a : Arguments) :
    ({ a with settings := a.settings.observed trace verbose } : Arguments).plan v =
      (a.plan v).map (Plan.observed trace verbose) := by
  have hfields := ofFields_settings hv a.settings
  have hfields' := ofFields_settings hv (a.settings.observed trace verbose)
  have hperTick : (a.settings.observed trace verbose).perTick = a.settings.perTick := rfl
  have hseed : (a.settings.observed trace verbose).seed = a.settings.seed := rfl
  have hticks : (a.settings.observed trace verbose).ticks = a.settings.ticks := rfl
  rw [hperTick, hseed] at hfields'
  rw [Arguments.plan, Arguments.plan, hfields, hfields', hticks]
  cases v.check (.int (some 1) (some 1000)) a.settings.perTick with
  | error wrong => cases v.check .optionalInt a.settings.seed <;> rfl
  | ok instructionsPerTick =>
      cases v.check .optionalInt a.settings.seed with
      | error wrongSeed => rfl
      | ok seed =>
          cases a.settings.ticks with
          | none => rfl
          | some ticks =>
              by_cases hnegative : ticks < 0
              · simp only [if_pos hnegative]
                rfl
              · simp only [if_neg hnegative]
                rfl

theorem prepare_observed {text : String} {argv : List String}
    (h : read (text :: argv) = (read argv).map (Demand.observed trace verbose)) :
    prepare v (text :: argv) = (prepare v argv).map (Plan.observed trace verbose) := by
  rw [prepare, prepare, h]
  cases read argv with
  | error e => rfl
  | ok demand =>
      cases demand with
      | help => rfl
      | run a => exact plan_observed trace verbose hv a

end

/-- What is known of a plan that a command line asks for. -/
theorem of_prepare {ε : Type} {v : Validator ε} (hv : v.Documented) {argv : List String} {p : Plan}
    (h : prepare v argv = .ok p) :
    (∃ rom ∈ argv, p.path = .ofText rom) ∧ p.options.traceLimit = 10000 := by
  rw [prepare] at h
  cases hread : read argv with
  | error e =>
      rw [hread] at h
      cases h
  | ok demand =>
      rw [hread] at h
      cases demand with
      | help => cases h
      | run a =>
          have hplan : a.plan v = .ok p := h
          rw [Arguments.plan, ofFields_settings hv] at hplan
          split at hplan
          · cases hplan
          · cases hplan
          · next options ticks hoptions hticks =>
              split at hoptions <;> cases hoptions
              split at hplan <;> cases hplan
              exact ⟨⟨a.rom, rom_mem_of_read hread, rfl⟩, rfl⟩

/-! ## Watched runs -/

theorem length_trace_le {rom : List Byte} {ticks : Int} {options : Options} {keys : List Int}
    {chosenSeed : Int} {r : Run} (h : Run.ofRom rom ticks options keys chosenSeed = .ok r) :
    r.trace.toList.length ≤ options.traceLimit.toNat := by
  obtain ⟨m, -, rfl⟩ := Run.ofRom_eq_ok_iff.1 h
  rw [Array.length_toList]
  exact Run.size_trace_le options m ticks.toNat

theorem logged_empty (response : Response) : Plan.logged "" response = response := by
  rw [Plan.logged, String.empty_append]

/-- A plan that is verbose already is not logged twice. -/
theorem reply_logged (p : Plan) (rom : List Byte) (chosenSeed : Int) :
    ∃ records, (records = [] ∨ records = p.records rom (p.run rom chosenSeed)) ∧
      (p.observed false true).reply rom chosenSeed =
        Plan.logged (String.join (records.map LogRecord.line)) (p.reply rom chosenSeed) := by
  have htrace : (p.options.trace || false) = p.options.trace := Bool.or_false _
  have hrun : (p.observed false true).run rom chosenSeed = p.run rom chosenSeed := by
    rw [Plan.run, Plan.observed, htrace]
    rfl
  have hlog : (p.observed false true).log rom = p.log rom := rfl
  have hverbose : (p.observed false true).verbose = true := Bool.or_true _
  have hreply : (p.observed false true).reply rom chosenSeed =
      Plan.logged (p.log rom (p.run rom chosenSeed)) (Plan.answer (p.run rom chosenSeed)) := by
    rw [Plan.reply, hrun, hlog, hverbose]
    rfl
  cases hquiet : p.verbose with
  | true =>
      have hsame : p.reply rom chosenSeed = (p.observed false true).reply rom chosenSeed := by
        rw [hreply, Plan.reply, hquiet]
        rfl
      exact ⟨[], .inl rfl, by rw [← hsame]; exact (logged_empty _).symm⟩
  | false =>
      have hplain : p.reply rom chosenSeed = Plan.answer (p.run rom chosenSeed) := by
        rw [Plan.reply, hquiet]
        rfl
      exact ⟨_, .inr rfl, by rw [← log_eq_records, hplain, hreply]⟩

/-- Puts a trace in front of what is printed. -/
def traced (entries : List Entry) (response : Response) : Response :=
  { response with stdout := String.join (entries.map entryLine) ++ response.stdout }

theorem traced_nil (response : Response) : traced [] response = response := by
  rw [traced, List.map_nil]
  exact congrArg (Response.mk response.code · response.stderr) String.empty_append

/-- What is answered to a run that differs in its trace only. -/
theorem answer_traced {r r' : Run} (hmachine : r'.machine = r.machine) (hticks : r'.ticks = r.ticks)
    (hfault : r'.fault = r.fault) (hnone : r.trace.toList = []) :
    Plan.answer (.ok r') = traced r'.trace.toList (Plan.answer (.ok r)) := by
  have htext : runText r' = String.join (r'.trace.toList.map entryLine) ++ runText r := by
    rw [runText, runText, hmachine, hnone]
    exact congrArg _ String.empty_append.symm
  have hreport : r'.report = r.report := by
    rw [Run.report, Run.report, hfault, hticks]
  simp only [Plan.answer, htext, hreport]
  cases r.report <;> rfl

/-- The traced run is the same run, and its trace is printed in front. -/
theorem reply_traced {p : Plan} (hlimit : p.options.traceLimit = 10000) (rom : List Byte)
    (chosenSeed : Int) :
    ∃ entries : List Entry, entries.length ≤ 10000 ∧
      (p.observed true false).reply rom chosenSeed = traced entries (p.reply rom chosenSeed) := by
  have hverbose : (p.observed true false).verbose = p.verbose := Bool.or_false _
  cases hon : p.options.trace with
  | true =>
      have hsame : p.observed true false = p := by
        have htrace : { p.options with trace := p.options.trace || true } = p.options := by
          rw [Bool.or_true, ← hon]
        rw [Plan.observed, htrace, Bool.or_false]
      exact ⟨[], Nat.zero_le _, by rw [hsame, traced_nil]⟩
  | false =>
      cases hrun : p.run rom chosenSeed with
      | error e =>
          have hrun' : (p.observed true false).run rom chosenSeed = .error e :=
            Run.ofRom_eq_error_iff.2 (Run.ofRom_eq_error_iff.1 hrun)
          exact ⟨[], Nat.zero_le _, by
            simp only [Plan.reply, hrun, hrun', hverbose, traced_nil]; rfl⟩
      | ok r =>
          obtain ⟨r', hrun', hmachine, hticks, hfault⟩ :=
            Run.ofRom_alike hrun (p.observed true false).options rfl rfl
          have hanswer := answer_traced hmachine hticks hfault (trace_of_untraced hrun hon)
          have hlog : (p.observed true false).log rom (.ok r') = p.log rom (.ok r) := by
            rw [Plan.log, Plan.log, hfault, hticks]
            rfl
          have hlength := length_trace_le hrun'
          have hlimit' : (p.observed true false).options.traceLimit = 10000 := hlimit
          rw [hlimit'] at hlength
          refine ⟨r'.trace.toList, hlength, ?_⟩
          have hplanned : (p.observed true false).run rom chosenSeed = .ok r' := hrun'
          simp only [Plan.reply, hrun, hplanned, hverbose, hlog, hanswer]
          split <;> rfl

/-- What is logged before a file is not read is one record, unless it is logged already. -/
theorem logBefore_observed (p : Plan) :
    ∃ records, (records = [] ∨ records = [.running p.path.text p.ticks]) ∧
      (p.observed false true).logBefore =
        String.join (records.map LogRecord.line) ++ p.logBefore := by
  have hverbose : (p.observed false true).logBefore = startLog p.path.text p.ticks :=
    if_pos (Bool.or_true _)
  rw [hverbose, Plan.logBefore]
  cases p.verbose with
  | true => exact ⟨[], .inl rfl, String.empty_append.symm⟩
  | false =>
      refine ⟨_, .inr rfl, ?_⟩
      rw [← String.toList_inj]
      simp [startLog, LogRecord.line, LogRecord.running]

/-! ## Watched command lines -/

section

variable {ε : Type} {v : Validator ε} (hv : v.Documented)
include hv

/-- Either the outcome is the same, or the file is not read, or there is a run. -/
theorem respond_watched (argv : List String) (file : Path → Except Obstacle (List Byte))
    (chosenSeed : Int) :
    (respond v ("-v" :: argv) file chosenSeed = respond v argv file chosenSeed ∧
      respond v ("--trace" :: argv) file chosenSeed = respond v argv file chosenSeed) ∨
    (∃ (log : String) (b : Breakdown) (records : List LogRecord),
      respond v argv file chosenSeed = .breakdown log b ∧
      (∀ record ∈ records, record.Proper argv) ∧
      respond v ("-v" :: argv) file chosenSeed =
        .breakdown (String.join (records.map LogRecord.line) ++ log) b ∧
      respond v ("--trace" :: argv) file chosenSeed = .breakdown log b) ∨
    ∃ (response : Response) (records : List LogRecord) (entries : List Entry),
      respond v argv file chosenSeed = .answer response ∧ response.code ≠ 2 ∧
      read argv ≠ .ok .help ∧ (∀ record ∈ records, record.Proper argv) ∧ entries.length ≤ 10000 ∧
      respond v ("-v" :: argv) file chosenSeed =
        .answer (Plan.logged (String.join (records.map LogRecord.line)) response) ∧
      respond v ("--trace" :: argv) file chosenSeed = .answer (traced entries response) := by
  have hverbose := prepare_observed false true hv (read_verbose argv)
  have htrace := prepare_observed true false hv (read_trace argv)
  cases hprepare : prepare v argv with
  | error outcome =>
      rw [hprepare] at hverbose htrace
      rw [respond_of_error hprepare, respond_of_error hverbose, respond_of_error htrace]
      exact .inl ⟨rfl, rfl⟩
  | ok p =>
      rw [hprepare] at hverbose htrace
      have hsamePath (trace verbose : Bool) : (p.observed trace verbose).path = p.path := rfl
      obtain ⟨⟨path, hpath, hp⟩, hlimit⟩ := of_prepare hv hprepare
      rw [respond_of_prepare hprepare, respond_of_prepare hverbose, respond_of_prepare htrace]
      simp only [hsamePath]
      cases hfile : file p.path with
      | error obstacle =>
          cases obstacle with
          | missing | lookupRefused e => exact .inl ⟨rfl, rfl⟩
          | readRefused e =>
              obtain ⟨records, hrecords, hlogged⟩ := logBefore_observed p
              have hproper : ∀ record ∈ records, record.Proper argv := by
                rcases hrecords with rfl | rfl
                · exact fun _ h => absurd h List.not_mem_nil
                · exact List.forall_mem_singleton.2 (proper_running hpath hp)
              have hquiet : (p.observed true false).logBefore = p.logBefore := by
                rw [Plan.logBefore, Plan.observed, Bool.or_false]
                rfl
              exact .inr (.inl ⟨p.logBefore, .fileRefused e p.path.text, records, rfl, hproper,
                congrArg (Outcome.breakdown · _) hlogged, congrArg (Outcome.breakdown · _) hquiet⟩)
      | ok rom =>
          obtain ⟨records, hrecords, hlogged⟩ := reply_logged p rom chosenSeed
          obtain ⟨entries, hlength, htraced⟩ := reply_traced hlimit rom chosenSeed
          have hhelp : read argv ≠ .ok .help := by
            intro hhelp
            rw [prepare, hhelp] at hprepare
            cases hprepare
          have hproper : ∀ record ∈ records, record.Proper argv := by
            rcases hrecords with rfl | rfl
            · exact fun _ h => absurd h List.not_mem_nil
            · exact proper_records hpath hp rom _
          exact .inr (.inr ⟨p.reply rom chosenSeed, records, entries, rfl,
            code_ne_two p rom chosenSeed, hhelp, hproper, hlength, congrArg Outcome.answer hlogged,
            congrArg Outcome.answer htraced⟩)

/-- Raised in front of a command line, a flag for watching changes nothing else.  If the command line
is answered in the same way whatever seed the host chooses, then with the log it is answered with the
same code and the same printed text, and with records of the log in front of the errors, but for
wrong usage and for help; and with the trace it is answered with the same code and the same errors,
and with a trace, which may be empty, in front of the printed text.  What ends the program without an
answer still does, behind records of the log. -/
theorem respond_observed {argv : List String} {file : Path → Except Obstacle (List Byte)}
    {chosenSeed otherSeed : Int}
    (hsame : respond v argv file otherSeed = respond v argv file chosenSeed) :
    (∀ log b, respond v argv file chosenSeed = .breakdown log b →
      (∃ records : List LogRecord, (∀ record ∈ records, record.Proper argv) ∧
        respond v ("-v" :: argv) file otherSeed =
          .breakdown (String.join (records.map LogRecord.line) ++ log) b) ∧
      respond v ("--trace" :: argv) file otherSeed = .breakdown log b) ∧
    ∀ response, respond v argv file chosenSeed = .answer response →
      (∃ records : List LogRecord, (∀ record ∈ records, record.Proper argv) ∧
        (response.code = 2 ∨ read argv = .ok .help → records = []) ∧
        respond v ("-v" :: argv) file otherSeed = .answer
          { response with
            stderr := String.join (records.map LogRecord.line) ++ response.stderr }) ∧
      ∃ entries : List Entry, entries.length ≤ 10000 ∧
        respond v ("--trace" :: argv) file otherSeed = .answer
          { response with stdout := String.join (entries.map entryLine) ++ response.stdout } := by
  have hnone : ∀ record ∈ ([] : List LogRecord), record.Proper argv :=
    fun _ h => absurd h List.not_mem_nil
  rcases respond_watched hv argv file otherSeed with ⟨hverbose, htrace⟩ |
    ⟨log, b, records, hplain, hproper, hverbose, htrace⟩ |
    ⟨response, records, entries, hplain, hcode, hhelp, hproper, hlength, hverbose, htrace⟩
  · rw [hverbose, htrace, hsame]
    refine ⟨fun log b hb => ⟨⟨[], hnone, ?_⟩, hb⟩,
      fun response hresponse => ⟨⟨[], hnone, fun _ => rfl, ?_⟩, [], Nat.zero_le _, ?_⟩⟩
    · rw [hb]
      exact congrArg (Outcome.breakdown · b) String.empty_append.symm
    · rw [hresponse]
      exact congrArg Outcome.answer (logged_empty response).symm
    · rw [hresponse]
      exact congrArg Outcome.answer (traced_nil response).symm
  · rw [hsame.symm.trans hplain]
    refine ⟨?_, nofun⟩
    rintro _ _ ⟨⟩
    exact ⟨⟨records, hproper, hverbose⟩, htrace⟩
  · rw [hsame.symm.trans hplain]
    refine ⟨nofun, ?_⟩
    rintro _ ⟨⟩
    exact ⟨⟨records, hproper, fun h => (h.elim hcode hhelp).elim, hverbose⟩, entries, hlength, htrace⟩

end

/-- With a seed of its own a command line has one answer, here that of a run that may fault. -/
theorem respond_observed_with_seed :
    let v := Validator.lax none
    let argv := ["--seed", "5", "rom.ch8"]
    let file : Path → Except Obstacle (List Byte) := fun _ => .ok Run.faultyRom
    v.Documented ∧ respond v argv file 2 = respond v argv file 1 ∧
      ∃ response, respond v argv file 1 = .answer response ∧ response.code ≠ 2 ∧
        (∃ records : List LogRecord, (∀ record ∈ records, record.Proper argv) ∧
          respond v ("-v" :: argv) file 2 = .answer
            { response with
              stderr := String.join (records.map LogRecord.line) ++ response.stderr }) ∧
        ∃ entries : List Entry, entries.length ≤ 10000 ∧
          respond v ("--trace" :: argv) file 2 = .answer
            { response with stdout := String.join (entries.map entryLine) ++ response.stdout } := by
  intro v argv file
  let p : Plan :=
    { path := .ofText "rom.ch8", ticks := 60, options := { seed := some 5 }, keys := [],
      verbose := false }
  have hv : v.Documented := Validator.documented_lax none
  have hprepare : prepare v argv = .ok p := by rfl
  have hanswer (chosenSeed : Int) :
      respond v argv file chosenSeed = .answer (p.reply Run.faultyRom chosenSeed) :=
    respond_of_prepare hprepare file chosenSeed
  have hrun : p.run Run.faultyRom 2 = p.run Run.faultyRom 1 := by
    rw [Plan.run, Plan.run, Run.ofRom, Run.ofRom, Run.start, Run.start]
    rfl
  have hsame : respond v argv file 2 = respond v argv file 1 := by
    rw [hanswer, hanswer, Plan.reply, Plan.reply, hrun]
  obtain ⟨-, hwatched⟩ := respond_observed hv hsame
  obtain ⟨⟨records, hproper, -, hverbose⟩, htrace⟩ := hwatched _ (hanswer 1)
  exact ⟨hv, hsame, _, hanswer 1, code_ne_two p _ 1, ⟨records, hproper, hverbose⟩, htrace⟩

end ChipEight.CommandLine
