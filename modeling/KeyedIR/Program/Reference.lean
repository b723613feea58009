import KeyedIR.Arena
/-! # References

An expression refers to a declaration by its class and id. A parameter or a local is one of the
function in which the reference stands.
-/

namespace KeyedIR

set_option autoImplicit false

/-- A reference to a declaration that is not a type. -/
inductive Ref where
  | global (id : Id .global)
  | function (id : Id .function)
  | parameter (id : Id .parameter)
  | localVar (id : Id .localVar)
  deriving DecidableEq

inductive VarRef where
  | global (id : Id .global)
  | localVar (id : Id .localVar)
  deriving DecidableEq

def VarRef.toRef : VarRef → Ref
  | global id => .global id
  | localVar id => .localVar id

/-- A reference as a reference to a variable, which a global and a local are. -/
def Ref.toVarRef? : Ref → Option VarRef
  | global id => some (.global id)
  | localVar id => some (.localVar id)
  | function _ | parameter _ => none

theorem Ref.toVarRef?_eq_some_iff {r : Ref} {v : VarRef} : r.toVarRef? = some v ↔ r = v.toRef := by
  cases r <;> cases v <;> simp [Ref.toVarRef?, VarRef.toRef]

def DeclClass.idName : DeclClass → String
  | type => "TypeDeclId"
  | global => "GlobalId"
  | function => "FunctionId"
  | parameter => "ParamId"
  | localVar => "LocalId"

def Id.text {cls : DeclClass} (i : Id cls) : String := s!"{cls.idName}({i.toNat})"

def Ref.text : Ref → String
  | global id => s!"Global({id.text})"
  | function id => s!"Function({id.text})"
  | parameter id => s!"Parameter({id.text})"
  | localVar id => s!"Local({id.text})"

def VarRef.text (v : VarRef) : String := v.toRef.text

end KeyedIR
