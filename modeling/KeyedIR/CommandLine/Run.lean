import KeyedIR.CommandLine.Arguments
import KeyedIR.CommandLine.Report
import KeyedIR.Listing.Render
import KeyedIR.Storage.ModuleFile
/-! # Running a command

A command reads a module and prints or writes it. If anything fails, nothing is printed, the
failure is the last event, and the exit code is 1; arguments that make no sense give 2.
-/

namespace KeyedIR.CommandLine

set_option autoImplicit false

/-- What a run leaves behind, the files apart. -/
structure Outcome where
  code : Nat
  output : String := ""
  report : String := ""
  deriving DecidableEq

def versionText : String := "oilcan " ++ Record.version ++ "\n"

def helpText : String :=
  "Usage: oilcan [OPTIONS] <COMMAND>\n\n" ++
  "Commands:\n" ++
  "  show <FILE>              Load a saved module and print it as C-like source\n" ++
  "  rewrite <INPUT> <OUTPUT> Load a saved module and write it back out with freshly " ++
  "generated names\n\n" ++
  "Options:\n" ++
  "      --verbose   Log every function and record as it is read or written\n" ++
  "      --no-color  Print without ANSI colors\n" ++
  "  -h, --help      Print help\n" ++
  "  -V, --version   Print version\n"

def Flags.threshold (flags : Flags) : Level := if flags.verbose then .debug else .info

/-- The report of those events that matter enough. -/
def Flags.report (flags : Flags) (events : List Event) : String :=
  CommandLine.report (events.filter fun e => e.level.shownAt flags.threshold)

section

variable {m : Type → Type} [Monad m] [FileStore m]

def Command.run (colors : Bool) : Command → m (Logged StorageError String)
  | .listing file => do
    let loaded ← Module.ofFile file
    return loaded >>= fun p => pure (p.listing.text colors)
  | .relabel source target => do
    let loaded ← Module.ofFile source
    match loaded.result with
    | .error e => return ⟨loaded.events, .error e⟩
    | .ok p =>
      let saved ← p.toFile target
      return ⟨loaded.events, .ok ()⟩ >>= fun _ => saved >>= fun _ => do
        Logged.note (.relabelled p.name source target)
        return ""

def Outcome.ofLogged (flags : Flags) (done : Logged StorageError String) : Outcome :=
  match done.result with
  | .ok output => { code := 0, output, report := flags.report done.events }
  | .error e => { code := 1, report := flags.report (done.events ++ [.failed e.message]) }

/-- Runs the program. Colours are on if the terminal has them and they are not switched off. -/
def run (colors : Bool) (arguments : List String) : m Outcome :=
  match parse arguments with
  | .error e => return { code := 2, report := e.message ++ "\n" }
  | .ok .version => return { code := 0, output := versionText }
  | .ok .help => return { code := 0, output := helpText }
  | .ok (.run flags command) => do
    return .ofLogged flags (← command.run (colors && !flags.noColor))

end

end KeyedIR.CommandLine
