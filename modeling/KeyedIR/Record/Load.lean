import KeyedIR.Program.Syntax
import KeyedIR.Record.Fault
import KeyedIR.Record.Scope
/-! # Loading

Rebuilds a module from the record below `module`. Names become visible in the order of the
declarations: a global after its first value, a function before its body, parameters and locals
after they are read. A statement or an expression of an unknown kind is left out with a warning,
and so is whatever cannot do without it; every other fault ends the loading.

Reading goes down the forest, and the path is carried along for events and errors. An expression
or a statement is read from the forest of its children; its kind is missing if that is empty.
-/

namespace KeyedIR

set_option autoImplicit false

open Logged Loading

/-! ## Names -/

/-- The declaration that a name stands for. Its first character tells which scope is searched; the
names of types are never looked up. -/
def Scopes.target? (scopes : Scopes) (name : String) : Except ResolutionFault Ref :=
  match name.toList.head?.bind DeclClass.ofLetter? with
  | none | some .type => .error .unknownClass
  | some cls =>
    match (if cls.isModuleWide then scopes.globals else scopes.locals).lookup name with
    | some target => .ok target
    | none => .error .unbound

def Scopes.variable? (scopes : Scopes) (name : String) : Except ResolutionFault VarRef :=
  match scopes.target? name with
  | .ok target =>
    match target.toVarRef? with
    | some v => .ok v
    | none => .error .notAVariable
  | .error reason => .error reason

namespace Load

/-! ## Values -/

def string (path : Path) (children : Forest) (key : String) : Loading String :=
  ofAccess ((children.child key).stringAt (path ++ [key]))

def reference {α : Type} (find : String → Except ResolutionFault α) (path : Path)
    (children : Forest) (key : String) : Loading α := do
  let name ← string path children key
  match find name with
  | .ok target => return target
  | .error reason => fail (.unresolved (path ++ [key]) name reason)

def operator {α : Type} (family : OperatorFamily) (ofWord? : String → Option α) (path : Path)
    (children : Forest) : Loading α := do
  let word ← string path children "op"
  match ofWord? word with
  | some op => return op
  | none => fail (.unknownOperator (path ++ ["op"]) family word)

/-- The flag at a key, which is not set if nothing is stored there. -/
def flag (path : Path) (children : Forest) (key : String) : Loading Bool :=
  let e := children.child key
  if e.value.isNone then return false
  else return (← ofAccess (e.intAt (path ++ [key]))) != 0

/-- The constant at `val`, which has to fit in 32 bits. -/
def int32 (path : Path) (children : Forest) : Loading Int32 := do
  let n ← ofAccess ((children.child "val").intAt (path ++ ["val"]))
  if Int32.minValue.toInt ≤ n.toInt ∧ n.toInt ≤ Int32.maxValue.toInt then
    return Int32.ofInt n.toInt
  else fail (.integerOutOfRange (path ++ ["val"]) n)

/-! ## Expressions and statements -/

/-- Reads the expression whose record has the given children. Nothing comes back for a kind that
is not known, also for that of an operand which the expression needs. -/
def expr (scopes : Scopes) (path : Path) (children : Forest) : Loading (Option Expr) :=
  if _h : children = .nil then fail (.access (.missingKey (path ++ ["type"])))
  else do
    let word ← string path children "type"
    match ExprTag.ofWord? word with
    | none =>
      note (.unsupportedExpression word path)
      return none
    | some .ref => return some (.ref (← reference scopes.target? path children "ref"))
    | some .int => return some (.int (← int32 path children))
    | some .float =>
      let x ← ofAccess ((children.child "val").floatAt (path ++ ["val"]))
      return some (.float x)
    | some .arithmetic =>
      let op ← operator .arithmetic ArithmeticOp.ofWord? path children
      let some lhs ← expr scopes (path ++ ["lhs"]) (children.child "lhs").children
        | return none
      if op.isUnary then
        let rhs ← whenPresent (children.child "rhs").isPresent
          (expr scopes (path ++ ["rhs"]) (children.child "rhs").children)
        match rhs with
        | some rhs => return some (.binary op lhs rhs)
        | none => return some (.unary op lhs)
      else
        let rhs ← expr scopes (path ++ ["rhs"]) (children.child "rhs").children
        return rhs.map (.binary op lhs)
    | some .compare =>
      let op ← operator .comparison ComparisonOp.ofWord? path children
      let lhs ← expr scopes (path ++ ["lhs"]) (children.child "lhs").children
      let rhs ← expr scopes (path ++ ["rhs"]) (children.child "rhs").children
      return lhs.bind fun lhs => rhs.map (.compare op lhs)
    | some .assign =>
      let op ← operator .assignment AssignmentOp.ofWord? path children
      let lhs ← expr scopes (path ++ ["lhs"]) (children.child "lhs").children
      let rhs ← expr scopes (path ++ ["rhs"]) (children.child "rhs").children
      return lhs.bind fun lhs => rhs.map (.assign op lhs)
termination_by children.size
decreasing_by all_goals exact Forest.size_child_lt (by assumption) _

def slot (scopes : Scopes) (path : Path) (children : Forest) (key : String) :
    Loading (Option Expr) :=
  whenPresent (children.child key).isPresent
    (expr scopes (path ++ [key]) (children.child key).children)

mutual

/-- Reads the statement whose record has the given children. Nothing comes back for a kind that is
not known, or if an expression that it needs is left out. -/
def stmt (scopes : Scopes) (path : Path) (children : Forest) : Loading (Option Stmt) :=
  if _h : children = .nil then fail (.access (.missingKey (path ++ ["type"])))
  else do
    let word ← string path children "type"
    match StmtTag.ofWord? word with
    | none =>
      note (.unsupportedStatement word path)
      return none
    | some tag =>
      note (.readingStatement tag path)
      match tag with
      | .init =>
        let target ← reference scopes.variable? path children "var"
        let value ← expr scopes (path ++ ["expr"]) (children.child "expr").children
        return value.map (.init target)
      | .eval =>
        let e ← expr scopes (path ++ ["expr"]) (children.child "expr").children
        return e.map .eval
      | .loop =>
        let start ← stmts scopes (path ++ ["decl1"]) (children.child "decl1")
        let cond ← slot scopes path children "expr1"
        let test ← slot scopes path children "expr2"
        let step ← slot scopes path children "expr3"
        let body ← stmts scopes (path ++ ["body"]) (children.child "body")
        return some (.loop start cond test step body)
      | .ret => return some (.ret (← slot scopes path children "expr"))
termination_by 2 * children.size
decreasing_by
  all_goals
    have smaller := Forest.size_child_lt ‹¬children = .nil›
    grind

/-- Reads the list of statements stored at an entry: the marker of the empty list, or one
statement for each key. -/
def stmts (scopes : Scopes) (path : Path) (e : Entry) : Loading (List Stmt) :=
  if _h : e.children = .nil then
    match e.value with
    | some (.string s) =>
      if s = Record.emptyList then return []
      else fail (.invalidStatementList path (.string s))
    | some found => fail (.invalidStatementList path found)
    | none => fail (.access (.missingKey path))
  else
    match e.value with
    | some found => fail (.invalidStatementList path found)
    | none => do
      let read ← e.children.keys.mapM fun key =>
        stmt scopes (path ++ [key]) (e.children.child key).children
      return read.reduceOption
termination_by 2 * e.children.size + 1
decreasing_by
  have smaller := Forest.size_child_lt ‹¬e.children = .nil›
  grind

end

/-! ## Declarations -/

/-- Reads the variable whose record has the given children. Its own name is not visible yet in its
first value. -/
def var (scopes : Scopes) (path : Path) (children : Forest) : Loading Variable := do
  let name ← string path children "name"
  let type ← string path children "type"
  let init ← slot scopes path children "init"
  return { name, type := { name := type }, init }

def typeName (path : Path) (types : Forest) (key : String) : Loading TypeName := do
  return { name := ← string (path ++ [key]) (types.child key).children "name" }

def parameter (path : Path) (parameters : Forest) (known : Arena .parameter Parameter × Scope)
    (key : String) : Loading (Arena .parameter Parameter × Scope) := do
  let children := (parameters.child key).children
  let name ← string (path ++ [key]) children "name"
  let type ← string (path ++ [key]) children "type"
  return (known.1.push { name, type := { name := type } },
    known.2.bind key (.parameter known.1.nextId))

/-- Reads the local at a key and then binds its key. -/
def localVar (globals : Scope) (path : Path) (locals : Forest)
    (known : Arena .localVar Variable × Scope) (key : String) :
    Loading (Arena .localVar Variable × Scope) := do
  let v ← var ⟨globals, known.2⟩ (path ++ [key]) (locals.child key).children
  return (known.1.push v, known.2.bind key (.localVar known.1.nextId))

def function (globals : Scope) (path : Path) (children : Forest) : Loading Function := do
  let name ← string path children "name"
  let returns ← string path children "return-type"
  note (.readingFunction name path)
  let isVariadic ← flag path children "variadic"
  let isInline ← flag path children "inline"
  let stored := (children.child "params").children
  let (parameters, scope) ← stored.keys.foldlM (parameter (path ++ ["params"]) stored) ({}, {})
  let stored := (children.child "locals").children
  let (locals, scope) ← stored.keys.foldlM (localVar globals (path ++ ["locals"]) stored)
    ({}, scope)
  note (.namesInScope scope.size path)
  let body ← stmts ⟨globals, scope⟩ (path ++ ["body"]) (children.child "body")
  return { name, returns := { name := returns }, parameters, isVariadic, locals, body, isInline }

def global (path : Path) (globals : Forest) (known : Arena .global Variable × Scope)
    (key : String) : Loading (Arena .global Variable × Scope) := do
  let v ← var ⟨known.2, {}⟩ (path ++ [key]) (globals.child key).children
  return (known.1.push v, known.2.bind key (.global known.1.nextId))

/-- Binds the key of a function and then reads the function, which can refer to itself. -/
def functionAt (path : Path) (functions : Forest) (known : Arena .function Function × Scope)
    (key : String) : Loading (Arena .function Function × Scope) := do
  let scope := known.2.bind key (.function known.1.nextId)
  let f ← function scope (path ++ [key]) (functions.child key).children
  return (known.1.push f, scope)

/-- Warns if the stored version is not the version of the format. -/
def noteVersion (t : Forest) : Loading Unit :=
  match t.value? Record.versionPath with
  | some (.string found) =>
    if found = Record.version then return else note (.versionDiffers found)
  | _ => note .versionMissing

/-- Reads the module whose record has the given children. -/
def module (children : Forest) : Loading Module := do
  let path : Path := [Record.moduleKey]
  let name ← string path children "name"
  let kept := (children.child "typedefs").children
  let types ← kept.keys.mapM (typeName (path ++ ["typedefs"]) kept)
  let kept := (children.child "globals").children
  let (globals, scope) ← kept.keys.foldlM (global (path ++ ["globals"]) kept) ({}, {})
  let kept := (children.child "funcs").children
  let (functions, _) ← kept.keys.foldlM (functionAt (path ++ ["funcs"]) kept) ({}, scope)
  note (.readModule name functions.size)
  return { name, types := ⟨types.toArray⟩, globals, functions }

end Load

def Module.load (t : Forest) : Loading Module := do
  Load.noteVersion t
  Load.module (t.child Record.moduleKey).children

end KeyedIR
