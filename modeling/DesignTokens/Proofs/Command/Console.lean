import DesignTokens.Proofs.Command.Run
import DesignTokens.Proofs.Log.File

/-!
# What a run at a console comes to

Without a log file, a run at a console is the run of its command line.  With one, the command makes
the same call, in a world where the log file is ready, and ends as it does there; or it does not
begin.  Before and after the command, nothing is done but to keep the log file.
-/

namespace DesignTokens
namespace Shell

open Generation

variable {shell ready : Shell} {arguments : List String} {path : FilePath}

/-! ## Settings that have been loaded -/

theorem loadSettings_of_settings {settings : Settings} (had : shell.settings = some settings) :
    shell.loadSettings = .ok (settings, shell) := by
  unfold loadSettings
  rw [had]

theorem settings_of_loadSettings {settings : Settings} {loaded : Shell}
    (loads : shell.loadSettings = .ok (settings, loaded)) : loaded.settings = some settings := by
  unfold loadSettings at loads
  split at loads
  · rename_i had
    obtain ⟨rfl, rfl⟩ := Prod.mk.inj (Except.ok.inj loads)
    exact had
  · cases read : settingsFrom shell.world shell.environment [] with
    | error fault => exact absurd (read ▸ loads) nofun
    | ok settings =>
        rw [read] at loads
        obtain ⟨rfl, rfl⟩ := Prod.mk.inj (Except.ok.inj loads)
        rfl

/-- A command line needs settings in every shell, or in none. -/
theorem settingsFor?_cases (arguments : List String) :
    (∃ command, ∀ shell : Shell, shell.settingsFor? arguments =
      shell.loadSettings.toOption.map fun loaded => (command, loaded.1)) ∨
    ∀ shell : Shell, shell.settingsFor? arguments = none := by
  cases parsed : Command.parse arguments with
  | error early => exact .inr fun shell => by rw [settingsFor?, parsed]
  | ok invocation =>
      by_cases works : invocation.command ≠ .overview
      · exact .inl ⟨invocation.command, fun shell => settingsFor?_of_parse parsed works⟩
      · obtain ⟨command, level⟩ := invocation
        obtain rfl : command = .overview := not_not.mp works
        exact .inr fun shell => by rw [settingsFor?, parsed]

theorem settingsFor?_congr {other : Shell}
    (same : shell.loadSettings.toOption.map Prod.fst = other.loadSettings.toOption.map Prod.fst)
    (arguments : List String) : shell.settingsFor? arguments = other.settingsFor? arguments := by
  rcases settingsFor?_cases arguments with ⟨command, needs⟩ | idle
  · rw [needs, needs]
    have paired := congrArg (Option.map fun settings => (command, settings)) same
    simpa only [Option.map_map, Function.comp_def] using paired
  · rw [idle, idle]

/-- Where there is a log file, the settings can be loaded. -/
theorem exists_loadSettings (named : shell.logFile? arguments = some path) :
    ∃ settings, shell.loadSettings = .ok (settings, shell.loaded) := by
  cases loads : shell.loadSettings with
  | ok pair =>
      obtain ⟨settings, loaded⟩ := pair
      exact ⟨settings, by rw [Shell.loaded, loads]⟩
  | error fault =>
      have idle : shell.settingsFor? arguments = none := by
        rcases settingsFor?_cases arguments with ⟨command, needs⟩ | idle
        · rw [needs, loads]
          rfl
        · exact idle shell
      rw [logFile?, idle] at named
      exact absurd named nofun

/-! ## Before the command -/

/-- In a shell that is ready nothing has been done but to keep the log file, and a command line makes
the same call there. -/
structure Readied (shell : Shell) (arguments : List String) (path : FilePath) (ready : Shell) :
    Prop where
  logged : FileTree.Logged shell.world.here path shell.world.files ready.world.files
  here : ready.world.here = shell.world.here
  calls : ready.call? arguments = shell.call? arguments

theorem ready_of_silent (silent : shell.logFile? arguments = none) :
    shell.ready arguments = (.ok (), shell) := by
  rw [Shell.ready, silent]

theorem readied (named : shell.logFile? arguments = some path) :
    Readied shell arguments path (shell.ready arguments).2 := by
  obtain ⟨settings, loads⟩ := exists_loadSettings named
  obtain ⟨logged, here⟩ := LogFile.keeps_prepare path shell.world
  obtain ⟨ready, left⟩ : ∃ ready : Shell, ready =
      { shell.loaded with world := (LogFile.prepare path shell.world).2 } := ⟨_, rfl⟩
  have ends : (shell.ready arguments).2 = ready := by
    rw [Shell.ready, named, left, ← world_of_loadSettings loads]
    rfl
  have cached : shell.loaded.settings = some settings := settings_of_loadSettings loads
  have had : ready.settings = some settings := by
    rw [left]
    exact cached
  have same : ready.settingsFor? arguments = shell.settingsFor? arguments := by
    apply settingsFor?_congr
    rw [loadSettings_of_settings had, loads]
    rfl
  have stays : ready.world.here = shell.world.here := left ▸ here
  rw [ends]
  refine ⟨left ▸ logged, stays, ?_⟩
  rw [call?, call?, same, stays]

/-! ## The run as a whole -/

theorem here_run (shell : Shell) (arguments : List String) :
    (shell.run arguments).2.world.here = shell.world.here := by
  cases calls : shell.call? arguments with
  | none => exact (run_of_idle calls).2
  | some call =>
      obtain ⟨outcome, after, later, ran, -⟩ := call.exists_run shell.world
      rw [(run_of_call calls).1, ran]

theorem runAtConsole_of_silent (silent : shell.logFile? arguments = none) :
    shell.runAtConsole arguments = shell.run arguments := by
  rw [runAtConsole, ready_of_silent silent, silent]

theorem runAtConsole_of_stopped {fault : Fault}
    (stopped : (shell.ready arguments).1 = .error fault) :
    shell.runAtConsole arguments =
      (.ofFault shell.warningText fault, (shell.ready arguments).2) := by
  rw [runAtConsole]
  rcases begun : shell.ready arguments with ⟨outcome, ready⟩
  rw [begun] at stopped
  obtain rfl : outcome = .error fault := stopped
  rfl

/-- With a log file that is ready, a run ends as its command does, and behind the command nothing is
done but to keep the log file. -/
theorem runAtConsole_of_ready (named : shell.logFile? arguments = some path)
    (begun : shell.ready arguments = (.ok (), ready)) :
    (shell.runAtConsole arguments).1.ending = (ready.run arguments).1.ending ∧
    FileTree.Logged shell.world.here path (ready.run arguments).2.world.files
      (shell.runAtConsole arguments).2.world.files ∧
    (shell.runAtConsole arguments).2.world.here = shell.world.here := by
  have here : (ready.run arguments).2.world.here = shell.world.here := by
    rw [here_run, ← (readied named).here, begun]
  have left : ∃ lines, (shell.runAtConsole arguments).2.world =
      (LogFile.add path lines (ready.run arguments).2.world).2 := by
    rw [runAtConsole, begun, named]
    exact ⟨_, rfl⟩
  obtain ⟨lines, left⟩ := left
  obtain ⟨logged, stays⟩ := LogFile.keeps_add path lines (ready.run arguments).2.world
  rw [left, stays]
  refine ⟨?_, here ▸ logged, here⟩
  rw [runAtConsole, begun, named]

end Shell
end DesignTokens
