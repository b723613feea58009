import KeyedIR.Forest.Access
import KeyedIR.Logged
import KeyedIR.Program.Operator
import KeyedIR.Text.Visible
/-! # Faults of records

Why a forest does not hold a module, and computations that read one: they log events and end in a
result or in such a fault.
-/

namespace KeyedIR

set_option autoImplicit false

inductive ResolutionFault where
  | unknownClass
  | unbound
  | notAVariable
  deriving DecidableEq

def ResolutionFault.message : ResolutionFault → String
  | unknownClass => "the name does not start with a referenceable class prefix"
  | unbound => "no declaration with that name is in scope"
  | notAVariable => "the declaration is not a variable"

inductive RecordFault where
  | access (fault : AccessError)
  | unresolved (path : Path) (name : String) (reason : ResolutionFault)
  /-- A list of statements has a value that is not the marker, or the marker and children. -/
  | invalidStatementList (path : Path) (found : Value)
  | unknownOperator (path : Path) (family : OperatorFamily) (name : String)
  | integerOutOfRange (path : Path) (value : Int64)
  deriving DecidableEq

def Value.describe : Value → String
  | string s => "String(" ++ Text.visible s ++ ")"
  | integer n => "Integer(" ++ String.ofList (Value.integer n).text ++ ")"
  | float x => "Float(" ++ String.ofList (Value.float x).text ++ ")"

def RecordFault.message : RecordFault → String
  | access fault => fault.message
  | unresolved path name reason =>
    s!"unresolved reference `{name}` at `{path.text}`: {reason.message}"
  | invalidStatementList path found =>
    s!"statement list at `{path.text}` holds the value {found.describe}"
  | unknownOperator path family name =>
    s!"unknown {family.name} operator `{name}` at `{path.text}`"
  | integerOutOfRange path value =>
    s!"integer constant {String.ofList (Value.integer value).text} at `{path.text}` does not " ++
      "fit in 32 bits"

abbrev Loading := Logged RecordFault

namespace Loading

variable {α : Type}

def ofAccess (r : Except AccessError α) : Loading α := .ofExcept (r.mapError .access)

/-- A computation that takes place only if there is something to read. -/
def whenPresent (present : Bool) (c : Loading (Option α)) : Loading (Option α) :=
  if present then c else pure none

end Loading

end KeyedIR
