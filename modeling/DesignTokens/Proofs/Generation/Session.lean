import DesignTokens.Proofs.Command.Console
import DesignTokens.Proofs.File.Writing

/-!
# Sessions

In a session documents are validated, themes are built, modules are generated, and command lines are
run, in any order and on the files that earlier steps have left.  Only a call of the generator
changes files, and so does the log file of a command line.  If the call succeeds it writes its module
and makes the directories on the way; if it fails it leaves at most such directories, and none if its
output is plain.  A file that exists is not overwritten unasked, except through a path with double
dots; a log file grows.
-/

namespace DesignTokens

open Generation

/-! ## Calls -/

namespace Generation.Call

/-- A call has succeeded: the file of its document has been read, validated and made into a theme,
and the module for that theme has been written. -/
structure Succeeded (call : Call) (files after : FileTree) (here : Location)
    (generation : Generation) : Prop where
  theme : ∃ bytes document, files.bytes? here call.input = some bytes ∧
    Document.ofBytes call.input.text bytes = .ok document ∧
    (themeOf call.settings document).Gives generation.theme
  content : generation.content = Preset.text call.settings generation.theme call.input.name
  written : ∃ location, FileTree.Written here call.output (Text.Utf8.encode generation.content)
    location files after ∧
    (call.force = false → ".." ∉ call.output.names → files.entry? location = none)

variable {call : Call} {files after : FileTree} {here : Location}

theorem exists_document_of_theme {theme : Theme} (made : call.theme files here = .ok theme) :
    ∃ bytes document, files.bytes? here call.input = some bytes ∧
      Document.ofBytes call.input.text bytes = .ok document ∧
      (themeOf call.settings document).Gives theme := by
  unfold Call.theme at made
  rcases Theme.inFile_cases call.settings call.input files here with
    ⟨fault, -, failed⟩ | ⟨path, reason, -, failed⟩ | ⟨document, read, valid, walked⟩
  · exact absurd (made.symm.trans failed) nofun
  · exact absurd (made.symm.trans failed) nofun
  · obtain ⟨bytes, found, decoded⟩ := Document.exists_bytes_of_inFile read
    rw [Verdict.inFile, read] at valid
    obtain rfl := Except.ok.inj (made.symm.trans walked)
    exact ⟨bytes, document, found, decoded, themeOf_gives call.settings valid⟩

theorem Comes.succeeded {generation : Generation}
    (comes : call.Comes files here (.ok generation) after) (closed : files.Closed)
    (standing : files.entry? here = some .directory) :
    call.Succeeded files after here generation := by
  cases comes with
  | written admitted made written =>
      obtain ⟨location, written⟩ := FileTree.exists_written_of_writeWithin written
      refine ⟨exists_document_of_theme made, rfl, location, written, ?_⟩
      intro unforced straight
      apply written.free straight closed standing
      rw [← Bool.not_eq_true]
      exact fun present => absurd (unforced.symm.trans (admitted.asked present)) nofun

/-- A call that fails leaves at most directories on the way of its output, and none if that is
plain. -/
theorem Comes.failed {fault : Fault} (comes : call.Comes files here (.error fault) after)
    (closed : files.Closed) (standing : files.entry? here = some .directory) :
    FileTree.Prepared here call.output.parent files after ∧
      (call.output.Plain → after = files) := by
  cases comes with
  | unseen => exact ⟨.refl files, fun _ => rfl⟩
  | refused => exact ⟨.refl files, fun _ => rfl⟩
  | unmade => exact ⟨.refl files, fun _ => rfl⟩
  | unwritten admitted made unwritten =>
      refine ⟨FileTree.prepared_of_writeWithin unwritten, fun plain => ?_⟩
      have fits := FileTree.fits_of_look plain admitted.looked
      rcases FileTree.writeWithin_of_plain closed standing fits plain (call.bytes _) with
        ⟨_, kept, -⟩ | ⟨_, wrote⟩
      · exact (congrArg Prod.snd (unwritten.symm.trans kept))
      · exact absurd (unwritten.symm.trans wrote) nofun

/-- A call leaves a sound world. -/
theorem sound_run (call : Call) {world : World} (sound : world.Sound) :
    (call.run world).2.Sound := by
  obtain ⟨outcome, after, later, ran, comes⟩ := call.exists_run world
  rw [ran]
  cases outcome with
  | error fault =>
      have prepared := (comes.failed sound.closed sound.standing).1
      exact ⟨prepared.closed sound.closed sound.standing, prepared.directory sound.standing⟩
  | ok generation =>
      obtain ⟨location, written, -⟩ := (comes.succeeded sound.closed sound.standing).written
      exact ⟨written.closed sound.closed sound.standing, written.directory sound.standing⟩

end Generation.Call

/-! ## Steps -/

/-- A step of a session. -/
inductive SessionStep
  /-- Generate a module. -/
  | generate (call : Call)
  /-- Build the theme of a document. -/
  | buildTheme (settings : Settings) (input : FilePath)
  /-- Validate a document. -/
  | validateFile (input : FilePath)
  /-- Run a command line. -/
  | command (arguments : List String)

namespace SessionStep

/-- The log file of a step, if it has one. -/
def logFile? (shell : Shell) : SessionStep → Option FilePath
  | command arguments => shell.logFile? arguments
  | _ => none

/-- The shell in which a step does what it is about, unless its log file cannot be made ready. -/
def ready? (shell : Shell) : SessionStep → Option Shell
  | command arguments =>
      match shell.ready arguments with
      | (.ok (), ready) => some ready
      | (.error _, _) => none
  | _ => some shell

/-- How a step ends, if it runs a command line, and the shell behind it, its log file aside. -/
def act (shell : Shell) : SessionStep → Option Ending × Shell
  | generate call => (none, (shell.carryOut call.run).2)
  | buildTheme settings input => (none, (shell.carryOut (themeOfFile settings input)).2)
  | validateFile input => (none, (shell.carryOut (Generation.validateFile input)).2)
  | command arguments =>
      let (result, after) := shell.run arguments
      (some result.ending, after)

/-- How a step ends, if it runs a command line, and the shell behind it. -/
def perform (shell : Shell) : SessionStep → Option Ending × Shell
  | command arguments =>
      let (result, after) := shell.runAtConsole arguments
      (some result.ending, after)
  | step => step.act shell

/-- The call of the generator that a step makes, if it makes one. -/
def call? (shell : Shell) : SessionStep → Option Call
  | generate call => some call
  | command arguments => shell.call? arguments
  | _ => none

variable {shell ready : Shell} {step : SessionStep}

/-! ### Log files aside -/

theorem act_of_call {call : Call} (calls : step.call? shell = some call) :
    (step.act shell).2.world = (call.run shell.world).2 := by
  cases step with
  | generate made =>
      obtain rfl := Option.some.inj calls
      rfl
  | command arguments => exact (Shell.run_of_call calls).1
  | _ => exact absurd calls nofun

theorem act_of_idle (idle : step.call? shell = none) :
    (step.act shell).2.world.files = shell.world.files ∧
    (step.act shell).2.world.here = shell.world.here := by
  cases step with
  | generate call => exact absurd idle nofun
  | buildTheme settings input =>
      obtain ⟨later, ended⟩ := exists_themeOfFile_eq settings input shell.world
      have left : (shell.carryOut (themeOfFile settings input)).2.world =
          (themeOfFile settings input shell.world).2 := rfl
      rw [act, left, ended]
      exact ⟨rfl, rfl⟩
  | validateFile input =>
      obtain ⟨later, ended⟩ := exists_validateFile_eq input shell.world
      have left : (shell.carryOut (Generation.validateFile input)).2.world =
          (Generation.validateFile input shell.world).2 := rfl
      rw [act, left, ended]
      exact ⟨rfl, rfl⟩
  | command arguments => exact Shell.run_of_idle idle

theorem here_act (shell : Shell) (step : SessionStep) :
    (step.act shell).2.world.here = shell.world.here := by
  cases calls : step.call? shell with
  | none => exact (act_of_idle calls).2
  | some call =>
      obtain ⟨outcome, after, later, ran, -⟩ := call.exists_run shell.world
      rw [act_of_call calls, ran]

theorem sound_act (sound : shell.world.Sound) : (step.act shell).2.world.Sound := by
  cases calls : step.call? shell with
  | some call => exact act_of_call calls ▸ call.sound_run sound
  | none =>
      obtain ⟨files, here⟩ := act_of_idle calls
      exact ⟨files ▸ sound.closed, by rw [files, here, sound.standing]⟩

/-- What a step may do to the world of a shell, its log file aside. -/
structure Lawful (shell : Shell) (step : SessionStep) : Prop where
  idle : step.call? shell = none → (step.act shell).2.world.files = shell.world.files
  refused : ∀ call, step.call? shell = some call → call.force = false →
    shell.world.files.hasEntry shell.world.here call.output = true →
    call.run shell.world =
      (.error (.failure (.outputExists call.output.text)), shell.world)
  failed : ∀ call fault, step.call? shell = some call →
    (call.run shell.world).1 = .error fault →
    FileTree.Prepared shell.world.here call.output.parent shell.world.files
        (step.act shell).2.world.files ∧
      (call.output.Plain → (step.act shell).2.world.files = shell.world.files)
  succeeded : ∀ call generation, step.call? shell = some call →
    (call.run shell.world).1 = .ok generation →
    call.Succeeded shell.world.files (step.act shell).2.world.files shell.world.here generation
  straight : ∀ arguments call, step = .command arguments → step.call? shell = some call →
    ".." ∉ call.output.names
  told : ∀ arguments input output force level, step = .command arguments →
    Command.parse arguments = .ok ⟨.convert input output force, level⟩ →
    ((step.act shell).1 = some (.returned 0) ↔ ∃ call generation,
      step.call? shell = some call ∧ (call.run shell.world).1 = .ok generation) ∧
    ((step.act shell).1 = some (.returned 1) ↔ ∃ call failure,
      step.call? shell = some call ∧ (call.run shell.world).1 = .error (.failure failure))

theorem lawful (step : SessionStep) (sound : shell.world.Sound) : Lawful shell step := by
  refine ⟨fun idle => (act_of_idle idle).1, ?_, ?_, ?_, ?_, ?_⟩
  · exact fun call _ unforced present =>
      Call.run_of_present (FileTree.look_of_hasEntry present) present unforced
  · intro call fault calls ended
    obtain ⟨outcome, after, later, ran, comes⟩ := call.exists_run shell.world
    rw [act_of_call calls]
    rw [ran] at ended ⊢
    obtain rfl : outcome = .error fault := ended
    exact comes.failed sound.closed sound.standing
  · intro call generation calls ended
    obtain ⟨outcome, after, later, ran, comes⟩ := call.exists_run shell.world
    rw [act_of_call calls]
    rw [ran] at ended ⊢
    obtain rfl : outcome = .ok generation := ended
    exact comes.succeeded sound.closed sound.standing
  · rintro arguments call rfl calls
    exact Shell.straight_of_call? calls
  · rintro arguments input output force level rfl parsed
    simpa only [act, call?, Option.some.injEq] using Shell.ending_of_convert parsed

/-! ### Log files -/

/-- How a step is performed from what it does without its log file. -/
inductive Performed (shell : Shell) (step : SessionStep) : Prop
  /-- There is no log file. -/
  | silent (silent : step.logFile? shell = none) (begins : step.ready? shell = some shell)
      (same : step.perform shell = step.act shell)
  /-- The log file cannot be made ready, and nothing else is done. -/
  | stopped {path : FilePath} {fault : Fault} (named : step.logFile? shell = some path)
      (unready : step.ready? shell = none) (ends : (step.perform shell).1 = some (.failed fault))
      (logged : FileTree.Logged shell.world.here path shell.world.files
        (step.perform shell).2.world.files)
      (stays : (step.perform shell).2.world.here = shell.world.here)
  /-- The log file is made ready, the step makes the same call and ends as it does without a log
  file, and the log file is continued. -/
  | begun {path : FilePath} {ready : Shell} (named : step.logFile? shell = some path)
      (begins : step.ready? shell = some ready) (here : ready.world.here = shell.world.here)
      (before : FileTree.Logged shell.world.here path shell.world.files ready.world.files)
      (calls : step.call? ready = step.call? shell)
      (ends : (step.perform shell).1 = (step.act ready).1)
      (behind : FileTree.Logged shell.world.here path (step.act ready).2.world.files
        (step.perform shell).2.world.files)
      (stays : (step.perform shell).2.world.here = shell.world.here)

theorem performed_command (shell : Shell) (arguments : List String) :
    Performed shell (.command arguments) := by
  cases named : shell.logFile? arguments with
  | none =>
      refine .silent named ?_ ?_
      · rw [ready?, Shell.ready_of_silent named]
      · rw [perform, act, Shell.runAtConsole_of_silent named]
  | some path =>
      have readied := Shell.readied named
      rcases begun : shell.ready arguments with ⟨outcome, ready⟩
      rw [begun] at readied
      cases outcome with
      | error fault =>
          have unready : ready? shell (.command arguments) = none := by rw [ready?, begun]
          have stopped : perform shell (.command arguments) = (some (.failed fault), ready) := by
            rw [perform, Shell.runAtConsole_of_stopped (congrArg Prod.fst begun), begun]
            rfl
          exact .stopped named unready (congrArg Prod.fst stopped) (stopped ▸ readied.logged)
            (stopped ▸ readied.here)
      | ok =>
          obtain ⟨ends, logged, stays⟩ := Shell.runAtConsole_of_ready named begun
          have begins : ready? shell (.command arguments) = some ready := by rw [ready?, begun]
          exact .begun named begins readied.here readied.logged readied.calls (congrArg some ends)
            logged stays

theorem performed (shell : Shell) (step : SessionStep) : Performed shell step := by
  cases step with
  | generate call => exact .silent rfl rfl rfl
  | buildTheme settings input => exact .silent rfl rfl rfl
  | validateFile input => exact .silent rfl rfl rfl
  | command arguments => exact performed_command shell arguments

theorem sound_ready (sound : shell.world.Sound) (begins : step.ready? shell = some ready) :
    ready.world.Sound := by
  cases performed shell step with
  | silent _ itself => exact Option.some.inj (itself.symm.trans begins) ▸ sound
  | stopped _ unready => exact absurd (unready.symm.trans begins) nofun
  | begun _ also here before =>
      obtain rfl := Option.some.inj (also.symm.trans begins)
      exact sound.of_logged before here

theorem sound_perform (sound : shell.world.Sound) : (step.perform shell).2.world.Sound := by
  cases performed shell step with
  | silent _ _ same => exact same ▸ sound_act sound
  | stopped _ _ _ logged stays => exact sound.of_logged logged stays
  | @begun path ready _ begins here _ _ _ behind stays =>
      have acted := (here_act ready step).trans here
      exact (sound_act (sound_ready sound begins)).of_logged (acted ▸ behind)
        (stays.trans acted.symm)

/-- A step writes its module to a location, as it has been asked to or through an output with double
dots. -/
def Overwrites (shell : Shell) (location : Location) (step : SessionStep) : Prop :=
  ∃ ready call generation, step.ready? shell = some ready ∧ step.call? ready = some call ∧
    (call.run ready.world).1 = .ok generation ∧
    (step.act ready).2.world.files.locate ready.world.here call.output = .ok location ∧
    (call.force = true ∨ ".." ∈ call.output.names)

/-- The log file of a step is at a location. -/
def LogsTo (shell : Shell) (location : Location) (step : SessionStep) : Prop :=
  ∃ path, step.logFile? shell = some path ∧ location = LogFile.location shell.world.here path

/-- Its log file aside, a step keeps the bytes of a file, or it makes a call that succeeds in writing
to that file, and that asks for overwriting or has an output with double dots. -/
theorem kept_or_targeted (sound : shell.world.Sound) (begins : step.ready? shell = some ready)
    {location : Location} {bytes : List UInt8}
    (file : ready.world.files.entry? location = some (.file bytes)) :
    FileTree.entry? (step.act ready).2.world.files location = some (.file bytes) ∨
    step.Overwrites shell location := by
  have laws := lawful step (sound_ready sound begins)
  have present : ready.world.files.entry? location ≠ none := file ▸ nofun
  cases calls : step.call? ready with
  | none => exact .inl (by rw [laws.idle calls, file])
  | some call =>
      cases ended : (call.run ready.world).1 with
      | error fault =>
          have kept := (laws.failed call fault calls ended).1.kept location present
          exact .inl (by rw [kept, file])
      | ok generation =>
          obtain ⟨target, written, fresh⟩ :=
            (laws.succeeded call generation calls ended).written
          by_cases same : location = target
          · subst same
            refine .inr ⟨ready, call, generation, begins, calls, ended, written.located, ?_⟩
            by_contra unasked
            rw [not_or, Bool.not_eq_true] at unasked
            exact present (fresh unasked.1 unasked.2)
          · exact .inl (by rw [written.kept location same present, file])

/-- A step keeps the bytes of a file, or it overwrites the file, or the file is its log file. -/
theorem kept_or_changed (step : SessionStep) (sound : shell.world.Sound) {location : Location}
    {bytes : List UInt8} (file : shell.world.files.entry? location = some (.file bytes)) :
    FileTree.entry? (step.perform shell).2.world.files location = some (.file bytes) ∨
    step.Overwrites shell location ∨ step.LogsTo shell location := by
  have present : shell.world.files.entry? location ≠ none := file ▸ nofun
  cases performed shell step with
  | silent _ begins same =>
      rw [same]
      exact (kept_or_targeted sound begins file).imp_right .inl
  | @stopped path _ named _ _ logged _ =>
      by_cases place : location = LogFile.location shell.world.here path
      · exact .inr (.inr ⟨path, named, place⟩)
      · exact .inl (by rw [logged.kept_of_ne place present, file])
  | @begun path ready named begins _ before _ _ behind _ =>
      by_cases place : location = LogFile.location shell.world.here path
      · exact .inr (.inr ⟨path, named, place⟩)
      · have found := (before.kept_of_ne place present).trans file
        rcases kept_or_targeted sound begins found with kept | overwrites
        · exact .inl (by rw [behind.kept_of_ne place (kept ▸ nofun), kept])
        · exact .inr (.inl overwrites)

/-- The log file that a step opens, if it can be made ready. -/
def opens (shell : Shell) (step : SessionStep) : List Location :=
  match step.ready? shell, step.logFile? shell with
  | some _, some path => [LogFile.location shell.world.here path]
  | _, _ => []

theorem logsTo_of_mem_opens {location : Location} (opened : location ∈ step.opens shell) :
    step.LogsTo shell location := by
  unfold opens at opened
  split at opened
  · rename_i path _ named
    exact ⟨path, named, List.mem_singleton.mp opened⟩
  · exact absurd opened List.not_mem_nil

end SessionStep

/-! ## Whole sessions -/

namespace Shell

open SessionStep

/-- The shell with a file of some bytes. -/
def withFile (shell : Shell) (location : Location) (bytes : List UInt8) : Shell :=
  let files := shell.world.files.set location (.file bytes)
  { shell with world := { shell.world with files } }

/-- A session that begins in a shell: its steps, each with the shell in which it begins, the shell
behind them, and where its log files are.  A log file stays open, and anything may be added to it at
any time. -/
inductive Session (shell : Shell) : List (Shell × SessionStep) → Shell → List Location → Prop
  | start : Session shell [] shell []
  | step {begun : List (Shell × SessionStep)} {between : Shell} {logs : List Location}
      (session : Session shell begun between logs) (step : SessionStep) :
      Session shell (begun ++ [(between, step)]) (step.perform between).2
        (logs ++ step.opens between)
  | more {begun : List (Shell × SessionStep)} {between : Shell} {logs : List Location}
      (session : Session shell begun between logs) {location : Location} (logged : location ∈ logs)
      {bytes : List UInt8} (file : between.world.files.entry? location = some (.file bytes))
      (added : List UInt8) :
      Session shell begun (between.withFile location (bytes ++ added)) logs

variable {shell after : Shell} {begun : List (Shell × SessionStep)} {logs : List Location}
  {location : Location}

namespace Session

/-- Any steps make a session. -/
theorem exists_of_steps (shell : Shell) (steps : List SessionStep) :
    ∃ begun after logs, begun.map Prod.snd = steps ∧ Session shell begun after logs := by
  induction steps using List.reverseRecOn with
  | nil => exact ⟨[], shell, [], rfl, .start⟩
  | append_singleton steps step ih =>
      obtain ⟨begun, between, logs, rfl, session⟩ := ih
      exact ⟨_, _, _, List.map_append, session.step step⟩

theorem sound_behind (session : Session shell begun after logs) (sound : shell.world.Sound) :
    after.world.Sound := by
  induction session with
  | start => exact sound
  | step _ step ih => exact sound_perform ih
  | @more _ between _ _ location _ bytes file added ih =>
      have free : between.world.files.entry? location ≠ some .directory := file ▸ nofun
      refine ⟨ih.closed.set (ih.closed location (file ▸ nofun)) free _, ?_⟩
      by_cases same : location = between.world.here
      · exact absurd (same ▸ ih.standing) free
      · exact (FileTree.entry?_set_of_ne free same _).trans ih.standing

theorem sound_of_mem (session : Session shell begun after logs) (sound : shell.world.Sound)
    {between : Shell} {step : SessionStep} (begins : (between, step) ∈ begun) :
    between.world.Sound := by
  induction session with
  | start => exact absurd begins List.not_mem_nil
  | more _ _ _ _ ih => exact ih begins
  | step session _ ih =>
      rcases List.mem_append.mp begins with earlier | last
      · exact ih earlier
      · obtain ⟨rfl, -⟩ := Prod.mk.inj (List.mem_singleton.mp last)
        exact session.sound_behind sound

theorem exists_logsTo (session : Session shell begun after logs) (logged : location ∈ logs) :
    ∃ between step, (between, step) ∈ begun ∧ step.LogsTo between location := by
  induction session with
  | start => exact absurd logged List.not_mem_nil
  | more _ _ _ _ ih => exact ih logged
  | @step begun between logs session step ih =>
      rcases List.mem_append.mp logged with earlier | opened
      · obtain ⟨before, first, begins, logs⟩ := ih earlier
        exact ⟨before, first, List.mem_append_left _ begins, logs⟩
      · exact ⟨between, step, by simp, logsTo_of_mem_opens opened⟩

/-- A session keeps the bytes of a file unless one of its steps overwrites it or has it for a log
file. -/
theorem kept_or_changed (session : Session shell begun after logs) (sound : shell.world.Sound)
    {bytes : List UInt8} (file : shell.world.files.entry? location = some (.file bytes)) :
    after.world.files.entry? location = some (.file bytes) ∨
    ∃ between step, (between, step) ∈ begun ∧
      (step.Overwrites between location ∨ step.LogsTo between location) := by
  induction session with
  | start => exact .inl file
  | @step begun between logs session step ih =>
      rcases ih with kept | ⟨before, first, begins, changes⟩
      · refine (SessionStep.kept_or_changed step (session.sound_behind sound) kept).imp_right ?_
        exact fun changes => ⟨between, step, by simp, changes⟩
      · exact .inr ⟨before, first, List.mem_append_left _ begins, changes⟩
  | @more begun between logs session other logged old longer added ih =>
      -- Between the steps nothing but a log file grows.
      by_cases same : other = location
      · obtain ⟨before, first, begins, logs⟩ := session.exists_logsTo (same ▸ logged)
        exact .inr ⟨before, first, begins, .inr logs⟩
      · refine ih.imp_left fun kept => ?_
        exact (FileTree.entry?_set_of_ne (longer ▸ nofun) same _).trans kept

end Session

/-- In a session, every step obeys the laws of a step.  Its log file aside, no step but a call
changes files, a call that fails leaves no more than directories on the way of its output and nothing
if that is plain, one that succeeds writes the module for the document that it has read, and an
output that exists is refused before anything else is looked at.  Before and after that a step with a
log file makes directories on the way of the log file and lengthens it, and if the log file cannot be
made ready the step does nothing else.  In the whole session, a file that exists is overwritten only
by a call that succeeds in writing to it, and that asks for overwriting or has an output with double
dots, unless it is a log file. -/
theorem session_overwrites_as_asked (sound : shell.world.Sound)
    (session : Session shell begun after logs) :
    (∀ between step, (between, step) ∈ begun → Performed between step ∧
      ∀ ready, step.ready? between = some ready → Lawful ready step) ∧
    ∀ location bytes, shell.world.files.entry? location = some (.file bytes) →
      after.world.files.entry? location = some (.file bytes) ∨
      ∃ between step, (between, step) ∈ begun ∧
        (step.Overwrites between location ∨ step.LogsTo between location) := by
  refine ⟨?_, fun location bytes file => session.kept_or_changed sound file⟩
  intro between step begins
  refine ⟨performed between step, fun ready readies => lawful step ?_⟩
  exact sound_ready (session.sound_of_mem sound begins) readies

/-- A shell whose world has an empty document. -/
def withDocument : Shell := ⟨emptyDocument, [], none⟩

/-- A document that has been validated is not overwritten by a module of its own unless that is
asked for, but it is if the path of the module leads out of a new directory. -/
theorem document_is_kept_and_overwritten_through_new_directory :
    withDocument.world.Sound ∧
    ∃ settings, Settings.ofEntries [] = .ok settings ∧
      (∃ validated,
        Session withDocument [(withDocument, .validateFile ⟨.root, ["t.json"]⟩)] validated [] ∧
        (Call.fromRoot settings ["t.json"] ["t.json"]).run validated.world =
          (.error (.failure (.outputExists "/t.json")), validated.world)) ∧
      ∃ generation after,
        (Call.fromRoot settings ["t.json"] ["new", "..", "t.json"]).run withDocument.world =
          (.ok generation, after) ∧
        after.files.entry? ["t.json"] = some (.file (Text.Utf8.encode generation.content)) := by
  have sound : withDocument.world.Sound := World.sole_sound _ _
  have document : FilePath.PlainName "t.json" := ⟨by decide, by simp, by decide⟩
  have directory : FilePath.PlainName "new" := ⟨by decide, by simp, by decide⟩
  obtain ⟨settings, loaded⟩ : ∃ settings, Settings.ofEntries [] = .ok settings := ⟨_, rfl⟩
  have session : Session withDocument [(withDocument, .validateFile ⟨.root, ["t.json"]⟩)] _ [] :=
    .step .start _
  refine ⟨sound, settings, loaded, ⟨_, session, ?_⟩, ?_⟩
  · have longer := session.step (.generate (.fromRoot settings ["t.json"] ["t.json"]))
    have laws := (session_overwrites_as_asked sound longer).1 _ _ List.mem_concat_self
    apply (laws.2 _ rfl).refused _ rfl rfl
    have idle : (SessionStep.validateFile ⟨.root, ["t.json"]⟩).call? withDocument = none := rfl
    obtain ⟨files, here⟩ := act_of_idle idle
    have acts : ((SessionStep.validateFile ⟨.root, ["t.json"]⟩).perform withDocument).2 =
        ((SessionStep.validateFile ⟨.root, ["t.json"]⟩).act withDocument).2 := rfl
    rw [acts, files, here]
    exact FileTree.hasEntry_of_locate (FileTree.locate_of_name _ _ document) nofun
  · obtain ⟨theme, made⟩ := Theme.exists_inFile_of_valid settings inFile_emptyDocument
    have fits : FilePath.Fits ⟨.root, ["new", "..", "t.json"]⟩ := ⟨by simp, by decide⟩
    have missing : emptyDocument.files.locate [] ⟨.root, ["new", "..", "t.json"]⟩ =
        .error .missing := FileTree.locate_of_vacant directory rfl fits []
    have written : ∀ bytes, withDocument.world.files.writeWithin withDocument.world.here
        ⟨.root, ["new", "..", "t.json"]⟩ bytes =
          (.ok (), ⟨[(["t.json"], .file bytes), (["new"], .directory)]⟩) :=
      FileTree.writeWithin_through directory document rfl (by decide) (by decide) fits _
    have admitted : (Call.fromRoot settings ["t.json"] ["new", "..", "t.json"]).Admitted
        withDocument.world.files withDocument.world.here :=
      Call.admitted_of_absent (FileTree.look_of_ne_long (missing ▸ nofun))
        (FileTree.hasEntry_of_missing missing)
    obtain ⟨later, ran⟩ := (Call.Comes.written admitted made (written _)).exists_run
    exact ⟨_, _, ran, rfl⟩

end Shell
end DesignTokens
