import KeyedIR.Binary64.Basic
import KeyedIR.Program.Operator
import KeyedIR.Program.Reference
/-! # Programs

A small C-like intermediate language. A module owns its types, globals and functions, and a
function its parameters and locals; expressions refer to them by id. Types are known by name
only. Nothing here requires that a reference leads somewhere or that an operator has the number
of operands it takes.
-/

namespace KeyedIR

set_option autoImplicit false

/-- Expressions. An operator of the arithmetic family may stand with one operand or with two. -/
inductive Expr where
  | ref (target : Ref)
  | int (n : Int32)
  | float (x : Binary64)
  | unary (op : ArithmeticOp) (operand : Expr)
  | binary (op : ArithmeticOp) (lhs rhs : Expr)
  | compare (op : ComparisonOp) (lhs rhs : Expr)
  | assign (op : AssignmentOp) (lhs rhs : Expr)
  deriving DecidableEq

/-- Statements. A loop has a list of statements and three expressions in its head; nothing is
said about when they are run. -/
inductive Stmt where
  | init (target : VarRef) (value : Expr)
  | eval (e : Expr)
  | loop (start : List Stmt) (cond test step : Option Expr) (body : List Stmt)
  | ret (value : Option Expr)

structure TypeName where
  name : String
  label : Option Label := none
  deriving DecidableEq

structure Variable where
  name : String
  type : TypeName
  init : Option Expr := none
  label : Option Label := none
  deriving DecidableEq

structure Parameter where
  name : String
  type : TypeName
  label : Option Label := none
  deriving DecidableEq

structure Function where
  name : String
  returns : TypeName
  parameters : Arena .parameter Parameter := {}
  isVariadic : Bool := false
  locals : Arena .localVar Variable := {}
  body : List Stmt := []
  isInline : Bool := false
  label : Option Label := none

structure Module where
  name : String
  types : Arena .type TypeName := {}
  globals : Arena .global Variable := {}
  functions : Arena .function Function := {}

end KeyedIR
