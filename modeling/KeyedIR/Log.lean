import KeyedIR.Label
import KeyedIR.Record.Format
/-! # Log events

What saving, loading and the command line tell about their work. An event is a fact; its level,
its source and its message follow from it.
-/

namespace KeyedIR

set_option autoImplicit false

inductive Level where
  | error | warn | info | debug | trace
  deriving DecidableEq

namespace Level

def name : Level → String
  | error => "ERROR"
  | warn => "WARN"
  | info => "INFO"
  | debug => "DEBUG"
  | trace => "TRACE"

/-- The place of a level in the order; a larger number matters less. -/
def verbosity : Level → Nat
  | error => 0
  | warn => 1
  | info => 2
  | debug => 3
  | trace => 4

/-- Events of a level are shown where events up to `threshold` are. -/
def shownAt (level threshold : Level) : Bool := decide (level.verbosity ≤ threshold.verbosity)

end Level

/-- The facts that are logged. -/
inductive Event where
  | versionDiffers (found : String)
  | versionMissing
  | readingFunction (name : String) (path : Path)
  /-- All parameters and locals of a function are known. -/
  | namesInScope (count : Nat) (path : Path)
  | readingStatement (tag : StmtTag) (path : Path)
  | unsupportedStatement (tag : String) (path : Path)
  | unsupportedExpression (tag : String) (path : Path)
  | readModule (name : String) (functions : Nat)
  /-- A declaration has no label to be stored under. -/
  | unlabelled (cls : DeclClass) (name : String)
  | writingFunction (name : String) (label : Label)
  | writingStatement (path : Path)
  | missingTarget (path : Path)
  | missingReference (path : Path)
  | loadingFile (file : String)
  | savingFile (file : String)
  | relabelled (name source target : String)
  | failed (message : String)
  deriving DecidableEq

namespace Event

def level : Event → Level
  | versionDiffers _ | versionMissing => .warn
  | readingFunction .. | readModule .. => .debug
  | namesInScope .. | readingStatement .. => .trace
  | unsupportedStatement .. | unsupportedExpression .. => .warn
  | unlabelled .. => .warn
  | writingFunction .. => .debug
  | writingStatement _ => .trace
  | missingTarget _ | missingReference _ => .warn
  | loadingFile _ | savingFile _ => .debug
  | relabelled .. => .info
  | failed _ => .error

def source : Event → String
  | versionDiffers _ | versionMissing | readingFunction .. | namesInScope ..
  | readingStatement .. | unsupportedStatement .. | unsupportedExpression .. | readModule .. =>
    "oilcan::codec::reader"
  | unlabelled .. | writingFunction .. | writingStatement _ | missingTarget _
  | missingReference _ =>
    "oilcan::codec::writer"
  | loadingFile _ | savingFile _ => "oilcan::container::key_tree"
  | relabelled .. | failed _ => "oilcan"

def message : Event → String
  | versionDiffers found =>
    s!"Container was written as version {found}, reading it as {Record.version}"
  | versionMissing => s!"Container has no usable `{Record.versionPath.text}` stamp"
  | readingFunction name path => s!"Reading function `{name}` from {path.text}"
  | namesInScope count path =>
    s!"{count} parameter and local names in scope for {path.text}"
  | readingStatement tag path => s!"Reading {tag.word} at {path.text}"
  | unsupportedStatement tag path =>
    s!"Skipping statement of unsupported type `{tag}` at {path.text}"
  | unsupportedExpression tag path =>
    s!"Skipping expression of unsupported type `{tag}` at {path.text}"
  | readModule name functions => s!"Read module `{name}` with {functions} functions"
  | unlabelled cls name => s!"Skipping unnamed {cls.noun} `{name}`"
  | writingFunction name label => s!"Writing function `{name}` as {label.text}"
  | writingStatement path => s!"Writing statement at {path.text}"
  | missingTarget path => s!"Skipping initialization of a missing variable at {path.text}"
  | missingReference path => s!"Skipping reference to a missing declaration at {path.text}"
  | loadingFile file => s!"Loading key tree from {file}"
  | savingFile file => s!"Saving key tree to {file}"
  | relabelled name source target => s!"Rewrote module `{name}` from {source} to {target}"
  | failed message => s!"Error: {message}"

def line (e : Event) : String := e.level.name ++ " " ++ e.message

end Event

end KeyedIR
