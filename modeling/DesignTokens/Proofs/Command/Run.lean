import DesignTokens.Command.Console
import DesignTokens.Proofs.Generation.Outcome

/-!
# What commands come to

A conversion is a call of the generator with paths from the root and without double dots; its exit
code tells how the call ends.  No other command changes files.
-/

namespace DesignTokens

namespace Command

open Generation

/-! ## Failures -/

/-- What the user is told about an outcome. -/
def told : Except Fault Told → Except Fault Told
  | .error (.failure failure) => .ok (1, "Error: " ++ failure.message ++ "\n")
  | outcome => outcome

theorem tellFailure_eq (program : Program Told) (world : World) :
    tellFailure program world = (told (program world).1, (program world).2) := by
  cases ended : program world with
  | mk outcome after =>
      simp only [tellFailure, tryCatch, tryCatchThe, MonadExceptOf.tryCatch, ExceptT.tryCatch,
        ExceptT.mk, bind, StateT.bind, ended]
      cases outcome with
      | ok value => rfl
      | error fault => cases fault <;> rfl

theorem tellFailure_bind {α : Type} {next : α → Program Told} {value : α → Told}
    (computes : ∀ a world, next a world = (.ok (value a), world)) (program : Program α)
    (world : World) :
    tellFailure (program >>= next) world =
      (told ((program world).1.map value), (program world).2) := by
  rw [tellFailure_eq, Program.bind_of_pure computes]

/-! ## Conversion -/

/-- Whether the system refuses a path for a character in it. -/
def hasNul (path : FilePath) : Bool := path.names.any fun name => name.contains '\x00'

theorem resolvePath_of_nul {path : FilePath} (nul : hasNul path = true) (here : Location)
    (world : World) : resolvePath here path world = (.error .nulInPath, world) :=
  congrFun (if_pos nul) world

theorem resolvePath_of_nulFree {path : FilePath} (nulFree : hasNul path = false) (here : Location)
    (world : World) :
    resolvePath here path world = (.ok (.absolute ⟨.root, here⟩ path), world) :=
  congrFun (if_neg (Bool.not_eq_true _ ▸ nulFree)) world

/-- The call that a conversion makes, unless one of its paths is refused. -/
def callOf? (settings : Settings) (here : Location) (input : String) (output : Option String)
    (force : Bool) : Option Call :=
  if hasNul (.ofText input) || hasNul (outputPath settings output) then none
  else
    some {
      settings := settings
      input := .absolute ⟨.root, here⟩ (.ofText input)
      output := .absolute ⟨.root, here⟩ (outputPath settings output)
      force := force }

/-- What the user is told about a generation. -/
def success (generation : Generation) : Told :=
  (0, "✓ Theme tokens generated at " ++ generation.output.text ++ "\n" ++
    "  Primitive groups: " ++ toString generation.theme.primitive.length ++ "\n" ++
    "  Semantic groups: " ++ toString generation.theme.semantic.length ++ "\n")

variable {settings : Settings} {input : String} {output : Option String} {force : Bool}
  {world : World}

/-- A conversion goes to an output without double dots. -/
theorem straight_of_callOf? {here : Location} {call : Call}
    (calls : callOf? settings here input output force = some call) :
    ".." ∉ call.output.names := by
  unfold callOf? at calls
  split at calls
  · exact absurd calls nofun
  · obtain rfl := Option.some.inj calls
    exact FilePath.not_mem_absolute _ _

theorem runConvert_of_refused (refused : callOf? settings world.here input output force = none) :
    runConvert settings input output force world = (.error .nulInPath, world) := by
  have here : (get : Program World) world = (.ok world, world) := rfl
  rw [runConvert, Program.bind_of_ok here]
  cases first : hasNul (.ofText input) with
  | true => exact Program.bind_of_error (resolvePath_of_nul first _ _) _
  | false =>
      rw [Program.bind_of_ok (resolvePath_of_nulFree first _ _)]
      cases second : hasNul (outputPath settings output) with
      | true => exact Program.bind_of_error (resolvePath_of_nul second _ _) _
      | false =>
          rw [callOf?, first, second] at refused
          exact absurd refused nofun

theorem runConvert_of_call {call : Call}
    (calls : callOf? settings world.here input output force = some call) :
    runConvert settings input output force world =
      (told ((call.run world).1.map success), (call.run world).2) := by
  unfold callOf? at calls
  split at calls
  · exact absurd calls nofun
  · rename_i nulFree
    obtain rfl := Option.some.inj calls
    rw [Bool.or_eq_true, not_or, Bool.not_eq_true, Bool.not_eq_true] at nulFree
    have here : (get : Program World) world = (.ok world, world) := rfl
    rw [runConvert, Program.bind_of_ok here,
      Program.bind_of_ok (resolvePath_of_nulFree nulFree.1 _ _),
      Program.bind_of_ok (resolvePath_of_nulFree nulFree.2 _ _)]
    exact tellFailure_bind (fun _ _ => rfl) _ world

/-! ## Validation -/

/-- What the user is told about a verdict. -/
def judgement (path : FilePath) : Verdict → Told
  | .valid => (0, "✓ " ++ path.text ++ " is a valid token document\n")
  | .invalid location reason =>
      (1, "✗ Invalid token structure at " ++ TokenPath.location location ++ ": " ++ reason ++ "\n")

theorem runValidate_eq (input : String) (world : World) :
    runValidate input world =
      (told ((validateFile (.ofText input) world).1.map (judgement (.ofText input))),
        (validateFile (.ofText input) world).2) := by
  refine tellFailure_bind ?_ _ world
  intro verdict world
  cases verdict <;> rfl

end Command

namespace Shell

open Generation

/-- The call of the generator that a command line makes, if it makes one. -/
def call? (shell : Shell) (arguments : List String) : Option Call :=
  match shell.settingsFor? arguments with
  | some (.convert input output force, settings) =>
      Command.callOf? settings shell.world.here input output force
  | _ => none

end Shell

namespace Ending

/-- How a performance ends. -/
def ofTold : Except Fault Command.Told → Ending
  | .ok told => .returned told.1
  | .error fault => .failed fault

/-- How a conversion ends, told by how its call ends. -/
def ofCall : Except Fault Generation → Ending
  | .ok _ => .returned 0
  | .error (.failure _) => .returned 1
  | .error fault => .failed fault

theorem ofTold_told (outcome : Except Fault Generation) :
    ofTold (Command.told (outcome.map Command.success)) = ofCall outcome := by
  cases outcome with
  | ok generation => rfl
  | error fault => cases fault <;> rfl

end Ending

namespace Shell

open Generation

variable {shell loaded : Shell} {arguments : List String} {settings : Settings}

theorem straight_of_call? {call : Call} (calls : shell.call? arguments = some call) :
    ".." ∉ call.output.names := by
  unfold call? at calls
  split at calls
  · exact Command.straight_of_callOf? calls
  · exact absurd calls nofun

theorem world_of_loadSettings (loads : shell.loadSettings = .ok (settings, loaded)) :
    loaded.world = shell.world := by
  unfold loadSettings at loads
  split at loads
  · obtain ⟨-, rfl⟩ := Prod.mk.inj (Except.ok.inj loads)
    rfl
  · cases read : settingsFrom shell.world shell.environment [] with
    | error fault => exact absurd (read ▸ loads) nofun
    | ok settings =>
        rw [read] at loads
        obtain ⟨-, rfl⟩ := Prod.mk.inj (Except.ok.inj loads)
        rfl

theorem run_of_parse {invocation : Invocation}
    (parsed : Command.parse arguments = .ok invocation) (works : invocation.command ≠ .overview) :
    shell.run arguments =
      match shell.loadSettings with
      | .error fault => (⟨.failed fault, "", shell.warningText, []⟩, shell)
      | .ok (settings, loaded) => loaded.perform settings shell.warningText invocation := by
  obtain ⟨command, level⟩ := invocation
  unfold run
  rw [parsed]
  cases command with
  | overview => exact absurd rfl works
  | _ => rfl

theorem settingsFor?_of_parse {invocation : Invocation}
    (parsed : Command.parse arguments = .ok invocation) (works : invocation.command ≠ .overview) :
    shell.settingsFor? arguments =
      shell.loadSettings.toOption.map fun loaded => (invocation.command, loaded.1) := by
  obtain ⟨command, level⟩ := invocation
  unfold settingsFor?
  rw [parsed]
  cases command with
  | overview => exact absurd rfl works
  | _ => rfl

/-- A command line performs its command in the same world, or it does nothing and ends otherwise
than with a success of its command. -/
theorem run_cases (shell : Shell) (arguments : List String) :
    (∃ command settings level, ∃ loaded : Shell,
      shell.settingsFor? arguments = some (command, settings) ∧ loaded.world = shell.world ∧
      shell.run arguments = loaded.perform settings shell.warningText ⟨command, level⟩) ∨
    (shell.settingsFor? arguments = none ∧ (shell.run arguments).2 = shell) := by
  cases parsed : Command.parse arguments with
  | error early =>
      refine .inr ⟨?_, ?_⟩
      · rw [settingsFor?, parsed]
      · rw [run, parsed]
  | ok invocation =>
      by_cases works : invocation.command ≠ .overview
      · rw [settingsFor?_of_parse parsed works, run_of_parse parsed works]
        cases loads : shell.loadSettings with
        | error fault => exact .inr ⟨rfl, rfl⟩
        | ok pair =>
            obtain ⟨settings, loaded⟩ := pair
            exact .inl ⟨invocation.command, settings, invocation.logLevel, loaded, rfl,
              world_of_loadSettings loads, rfl⟩
      · obtain ⟨command, level⟩ := invocation
        obtain rfl : command = .overview := not_not.mp works
        refine .inr ⟨?_, ?_⟩
        · rw [settingsFor?, parsed]
        · rw [run, parsed]

theorem perform_of_outcome (invocation : Invocation) {outcome : Except Fault Command.Told}
    {after : World}
    (ended : invocation.command.perform settings shell.world = (outcome, after))
    (errors : String) :
    (shell.perform settings errors invocation).2 = { shell with world := after } ∧
    (shell.perform settings errors invocation).1.ending = .ofTold outcome := by
  have ended : (invocation.command.perform settings).run shell.world = (outcome, after) := ended
  unfold perform
  rw [ended]
  cases outcome <;> exact ⟨rfl, rfl⟩

/-- A command line that makes a call leaves what the call leaves, and ends as the call tells. -/
theorem run_of_call {call : Call} (calls : shell.call? arguments = some call) :
    (shell.run arguments).2.world = (call.run shell.world).2 ∧
    (shell.run arguments).1.ending = .ofCall (call.run shell.world).1 := by
  unfold call? at calls
  split at calls
  · rename_i input output force settings needs
    -- The call is made in the world of the shell whose settings have been loaded, which is the same.
    rcases shell.run_cases arguments with
      ⟨command, found, level, loaded, needsAlso, same, ran⟩ | ⟨idle, -⟩
    · obtain ⟨rfl, rfl⟩ := Prod.mk.inj (Option.some.inj (needs.symm.trans needsAlso))
      rw [← same] at calls ⊢
      have ended : (Command.convert input output force).perform settings loaded.world =
          (Command.told ((call.run loaded.world).1.map Command.success),
            (call.run loaded.world).2) := Command.runConvert_of_call calls
      obtain ⟨left, ending⟩ := perform_of_outcome ⟨_, level⟩ ended shell.warningText
      rw [ran, left, ending]
      exact ⟨rfl, Ending.ofTold_told _⟩
    · exact absurd (idle.symm.trans needs) nofun
  · exact absurd calls nofun

/-- No command but a conversion that makes a call changes files. -/
theorem exists_perform_of_idle {command : Command}
    (idle : ∀ input output force, command = .convert input output force →
      Command.callOf? settings shell.world.here input output force = none) :
    ∃ outcome later, command.perform settings shell.world =
      (outcome, { shell.world with journal := later }) := by
  cases command with
  | overview => exact ⟨_, shell.world.journal, rfl⟩
  | version => exact ⟨_, shell.world.journal, rfl⟩
  | convert input output force =>
      exact ⟨_, shell.world.journal, Command.runConvert_of_refused (idle _ _ _ rfl)⟩
  | validate input =>
      obtain ⟨later, ended⟩ := exists_validateFile_eq (.ofText input) shell.world
      have ran := Command.runValidate_eq input shell.world
      rw [ended] at ran
      exact ⟨_, later, ran⟩

/-- A command line that makes no call leaves all files as they are. -/
theorem run_of_idle (idle : shell.call? arguments = none) :
    (shell.run arguments).2.world.files = shell.world.files ∧
    (shell.run arguments).2.world.here = shell.world.here := by
  rcases shell.run_cases arguments with
    ⟨command, settings, level, loaded, needs, same, ran⟩ | ⟨-, kept⟩
  · unfold call? at idle
    rw [needs] at idle
    have silent : ∀ input output force, command = .convert input output force →
        Command.callOf? settings loaded.world.here input output force = none := by
      rintro input output force rfl
      rw [same]
      exact idle
    obtain ⟨outcome, later, ended⟩ := exists_perform_of_idle silent
    obtain ⟨left, -⟩ := perform_of_outcome ⟨_, level⟩ ended shell.warningText
    rw [ran, left, ← same]
    exact ⟨rfl, rfl⟩
  · rw [kept]
    exact ⟨rfl, rfl⟩

/-- A conversion that makes no call ends with a fault. -/
theorem ending_of_idle {input : String} {output : Option String} {force : Bool}
    {level : Option Level}
    (parsed : Command.parse arguments = .ok ⟨.convert input output force, level⟩)
    (idle : shell.call? arguments = none) :
    ∃ fault, (shell.run arguments).1.ending = .failed fault := by
  rw [run_of_parse parsed nofun]
  unfold call? at idle
  rw [settingsFor?_of_parse parsed nofun] at idle
  cases loads : shell.loadSettings with
  | error fault => exact ⟨fault, rfl⟩
  | ok pair =>
      obtain ⟨settings, loaded⟩ := pair
      rw [loads] at idle
      have same := world_of_loadSettings loads
      have refused : Command.callOf? settings loaded.world.here input output force = none :=
        same ▸ idle
      obtain ⟨-, ending⟩ := perform_of_outcome ⟨.convert input output force, level⟩
        (Command.runConvert_of_refused refused) shell.warningText
      exact ⟨.nulInPath, ending⟩

/-- The exit code of a conversion is zero exactly if its call succeeds, and one exactly if its call
fails. -/
theorem ending_of_convert {input : String} {output : Option String} {force : Bool}
    {level : Option Level}
    (parsed : Command.parse arguments = .ok ⟨.convert input output force, level⟩) :
    ((shell.run arguments).1.ending = .returned 0 ↔ ∃ call generation,
      shell.call? arguments = some call ∧ (call.run shell.world).1 = .ok generation) ∧
    ((shell.run arguments).1.ending = .returned 1 ↔ ∃ call failure,
      shell.call? arguments = some call ∧ (call.run shell.world).1 = .error (.failure failure)) := by
  cases calls : shell.call? arguments with
  | none =>
      obtain ⟨fault, ending⟩ := ending_of_idle parsed calls
      simp [ending]
  | some call =>
      rw [(run_of_call calls).2]
      cases ended : (call.run shell.world).1 with
      | ok generation => simp [Ending.ofCall, ended]
      | error fault => cases fault <;> simp [Ending.ofCall, ended]

end Shell
end DesignTokens
