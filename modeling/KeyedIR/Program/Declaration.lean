import KeyedIR.Program.Syntax
/-! # Declarations

What a reference leads to. A reference to a parameter or a local leads somewhere only inside a
function.
-/

namespace KeyedIR

set_option autoImplicit false

inductive Declaration where
  | type (t : TypeName)
  | var (v : Variable)
  | parameter (p : Parameter)
  | function (f : Function)

namespace Declaration

/-- The name that the program gives to a declaration. -/
def name : Declaration → String
  | type t => t.name
  | var v => v.name
  | parameter p => p.name
  | function f => f.name

def label : Declaration → Option Label
  | type t => t.label
  | var v => v.label
  | parameter p => p.label
  | function f => f.label

end Declaration

/-- The declaration that a reference leads to, from inside a function or from outside all. -/
def Module.target? (m : Module) (inside : Option Function) : Ref → Option Declaration
  | .global id => (m.globals.get? id).map .var
  | .function id => (m.functions.get? id).map .function
  | .parameter id => inside.bind fun f => (f.parameters.get? id).map .parameter
  | .localVar id => inside.bind fun f => (f.locals.get? id).map .var

end KeyedIR
