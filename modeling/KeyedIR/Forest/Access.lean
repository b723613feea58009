import KeyedIR.Forest.Basic
/-! # Typed access

Reading a value that has to be there, perhaps of a given kind. The path in an error is the path
that was asked for.
-/

namespace KeyedIR

set_option autoImplicit false

inductive AccessError where
  | missingKey (path : Path)
  | wrongKind (path : Path) (expected found : Kind)
  deriving DecidableEq

def AccessError.message : AccessError → String
  | missingKey path => s!"missing key `{path.text}`"
  | wrongKind path expected found =>
    s!"key `{path.text}` holds a {found.name} value, expected a {expected.name}"

namespace Entry

/-- The value of an entry, which stands at `path`. -/
def valueAt (e : Entry) (path : Path) : Except AccessError Value :=
  match e.value with
  | some value => .ok value
  | none => .error (.missingKey path)

def stringAt (e : Entry) (path : Path) : Except AccessError String :=
  match e.valueAt path with
  | .ok (.string s) => .ok s
  | .ok other => .error (.wrongKind path .string other.kind)
  | .error fault => .error fault

def intAt (e : Entry) (path : Path) : Except AccessError Int64 :=
  match e.valueAt path with
  | .ok (.integer n) => .ok n
  | .ok other => .error (.wrongKind path .integer other.kind)
  | .error fault => .error fault

def floatAt (e : Entry) (path : Path) : Except AccessError Binary64 :=
  match e.valueAt path with
  | .ok (.float x) => .ok x
  | .ok other => .error (.wrongKind path .float other.kind)
  | .error fault => .error fault

end Entry

namespace Forest

def valueAt (t : Forest) (path : Path) : Except AccessError Value := (t.entry path).valueAt path

def stringAt (t : Forest) (path : Path) : Except AccessError String :=
  (t.entry path).stringAt path

def intAt (t : Forest) (path : Path) : Except AccessError Int64 := (t.entry path).intAt path

def floatAt (t : Forest) (path : Path) : Except AccessError Binary64 :=
  (t.entry path).floatAt path

end Forest

end KeyedIR
