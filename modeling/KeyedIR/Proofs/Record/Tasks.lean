import KeyedIR.Proofs.Record.Readings
/-! # What loading reads

Loading reads the first values of variables and the bodies of functions, and from there it goes down
to the parts of expressions and statements (`Load.VisitsAt`). Whatever it comes to stands in the
forest at the path that is carried along (`Load.Visits.standsIn`) and is read as a fragment of the
program, or as nothing (`Load.Task.read`).
-/

namespace KeyedIR

set_option autoImplicit false

open Logged Loading

/-! ## Fragments -/

/-- A part of a program: an expression, an expression that need not be there, a statement, or a list
of statements. -/
inductive Fragment where
  | expr (e : Expr)
  | slot (e : Option Expr)
  | stmt (s : Stmt)
  | stmts (l : List Stmt)

/-- What an expression consists of. The second operand of an operator that takes one need not be
there. -/
def Expr.fragments : Expr → List Fragment
  | .ref _ | .int _ | .float _ => []
  | .unary _ operand => [.expr operand, .slot none]
  | .binary op lhs rhs => [.expr lhs, if op.isUnary then .slot (some rhs) else .expr rhs]
  | .compare _ lhs rhs | .assign _ lhs rhs => [.expr lhs, .expr rhs]

def Stmt.fragments : Stmt → List Fragment
  | .init _ value => [.expr value]
  | .eval e => [.expr e]
  | .loop start cond test step body =>
    [.stmts start, .slot cond, .slot test, .slot step, .stmts body]
  | .ret value => [.slot value]

/-- The fragment consists of the given ones, in their order. Expressions and statements need all of
them; a list, or an expression that need not be there, has those that there are. -/
def Fragment.IsMadeOf (parts : List (Option Fragment)) : Fragment → Prop
  | .expr e => parts = e.fragments.map some
  | .slot e => parts.reduceOption = (e.map .expr).toList
  | .stmt s => parts = s.fragments.map some
  | .stmts l => parts.reduceOption = l.map .stmt

theorem Fragment.made_some {xs : List (Option Fragment)} {fragment : Fragment}
    (h : fragment.IsMadeOf xs) : ∀ found, some fragment = some found → found.IsMadeOf xs := by
  intro found hfound
  cases hfound
  exact h

namespace Load

/-! ## Tasks -/

def exprTag? (path : Path) (children : Forest) : Option ExprTag :=
  (string path children "type").result.toOption.bind ExprTag.ofWord?

def stmtTag? (path : Path) (children : Forest) : Option StmtTag :=
  (string path children "type").result.toOption.bind StmtTag.ofWord?

/-- Something to read: the record of an expression or a statement, an expression that need not be
there, or a list of statements. -/
inductive Task where
  | expr (scopes : Scopes) (path : Path) (children : Forest)
  | slot (scopes : Scopes) (path : Path) (children : Forest) (key : String)
  | stmt (scopes : Scopes) (path : Path) (children : Forest)
  | stmts (scopes : Scopes) (path : Path) (e : Entry)

namespace Task

/-- The record of an expression below a key. -/
abbrev operand (scopes : Scopes) (path : Path) (children : Forest) (key : String) : Task :=
  expr scopes (path ++ [key]) (children.child key).children

/-- What reading a task goes on to read, as long as nothing fails. In the arithmetic family the
second operand is read only if the first one is not left out. -/
def parts : Task → List Task
  | expr scopes path children =>
    match exprTag? path children with
    | some .arithmetic =>
      match (operator .arithmetic ArithmeticOp.ofWord? path children).result,
        (Load.expr scopes (path ++ ["lhs"]) (children.child "lhs").children).result with
      | .ok op, .ok (some _) => [operand scopes path children "lhs",
        if op.isUnary then slot scopes path children "rhs" else operand scopes path children "rhs"]
      | _, _ => [operand scopes path children "lhs"]
    | some .compare | some .assign =>
      [operand scopes path children "lhs", operand scopes path children "rhs"]
    | _ => []
  | slot scopes path children key =>
    if (children.child key).isPresent then [operand scopes path children key] else []
  | stmt scopes path children =>
    match stmtTag? path children with
    | some .init | some .eval => [operand scopes path children "expr"]
    | some .loop =>
      [stmts scopes (path ++ ["decl1"]) (children.child "decl1"),
        slot scopes path children "expr1", slot scopes path children "expr2",
        slot scopes path children "expr3", stmts scopes (path ++ ["body"]) (children.child "body")]
    | some .ret => [slot scopes path children "expr"]
    | none => []
  | stmts scopes path e =>
    e.children.keys.map fun key => stmt scopes (path ++ [key]) (e.children.child key).children

/-- What the task is read as. Nothing comes back for a record that is left out. -/
def read : Task → Except RecordFault (Option Fragment)
  | expr scopes path children => (Option.map .expr) <$> (Load.expr scopes path children).result
  | slot scopes path children key =>
    (fun e => some (.slot e)) <$> (Load.slot scopes path children key).result
  | stmt scopes path children => (Option.map .stmt) <$> (Load.stmt scopes path children).result
  | stmts scopes path e => (fun l => some (.stmts l)) <$> (Load.stmts scopes path e).result

/-- Reading the task has a result. -/
def Done (task : Task) : Prop := ∃ x, task.read = .ok x

/-- A record is read as nothing. -/
def Dropped (task : Task) : Prop := task.read = .ok none

/-- The fragment that the task is read as, if there is one. -/
def fragment? (task : Task) : Option Fragment := task.read.toOption.join

/-- Reading one task comes to another one. -/
def ComesTo : Task → Task → Prop := Relation.ReflTransGen fun task part => part ∈ task.parts

end Task

/-! ## Declarations -/

/-- The first thing to read of a local of a function, or of its body. -/
inductive FunctionStarts (globals : Scope) (path : Path) (children : Forest) :
    Option Nat → Task → Prop
  | localVar {j : Nat} {key : String} {parameters : Arena .parameter Parameter × Scope}
      {locals : Arena .localVar Variable × Scope}
      (hparameters : (parametersOf path children).result = .ok parameters)
      (hkey : (children.child "locals").children.keys[j]? = some key)
      (hlocals : (localsAt globals parameters.2 path children
        ((children.child "locals").children.keys.take j)).result = .ok locals) :
      FunctionStarts globals path children (some j) (.slot ⟨globals, locals.2⟩
        (path ++ ["locals"] ++ [key]) ((children.child "locals").children.child key).children
        "init")
  | body {parameters : Arena .parameter Parameter × Scope}
      {locals : Arena .localVar Variable × Scope}
      (hparameters : (parametersOf path children).result = .ok parameters)
      (hlocals : (localsAt globals parameters.2 path children
        (children.child "locals").children.keys).result = .ok locals) :
      FunctionStarts globals path children none
        (.stmts ⟨globals, locals.2⟩ (path ++ ["body"]) (children.child "body"))

/-- The first thing to read at a place. -/
inductive Starts (t : Forest) : Place → Task → Prop
  | global {i : Nat} {key : String} {known : Arena .global Variable × Scope}
      (hkey : t.globalKeys[i]? = some key)
      (hknown : (globalsAt t (t.globalKeys.take i)).result = .ok known) :
      Starts t (.global i) (.slot ⟨known.2, {}⟩ (globalsPath ++ [key])
        ((t.entry globalsPath).children.child key).children "init")
  | function {k : Nat} {key : String} {globals : Arena .global Variable × Scope}
      {known : Arena .function Function × Scope} {part : Option Nat} {task : Task}
      (hglobals : (globalsAt t t.globalKeys).result = .ok globals)
      (hkey : t.functionKeys[k]? = some key)
      (hknown : (functionsAt t globals.2 (t.functionKeys.take k)).result = .ok known)
      (h : FunctionStarts (known.2.bind key (.function known.1.nextId)) (functionsPath ++ [key])
        ((t.entry functionsPath).children.child key).children part task) :
      Starts t (.inFunction k part) task

/-- Loading comes to a task at a place. -/
def VisitsAt (t : Forest) (place : Place) (task : Task) : Prop :=
  ∃ start, Starts t place start ∧ start.ComesTo task

/-- Loading comes to a task. -/
def Visits (t : Forest) (task : Task) : Prop := ∃ place, VisitsAt t place task

theorem VisitsAt.part {t : Forest} {place : Place} {task part : Task} (h : VisitsAt t place task)
    (hpart : part ∈ task.parts) : VisitsAt t place part := by
  obtain ⟨start, hstart, hcomes⟩ := h
  exact ⟨start, hstart, hcomes.tail hpart⟩

/-! ## What tasks are read as -/

namespace Task

theorem fragment?_of_read {task : Task} {x : Option Fragment} (h : task.read = .ok x) :
    task.fragment? = x := by
  rw [fragment?, h]
  rfl

theorem read_of_fragment? {task : Task} {fragment : Fragment}
    (h : task.fragment? = some fragment) : task.read = .ok (some fragment) := by
  rw [fragment?] at h
  cases hread : task.read with
  | error e => rw [hread] at h; cases h
  | ok x => rw [hread] at h; exact congrArg Except.ok h

section

variable {scopes : Scopes} {path : Path} {children : Forest}

theorem read_expr {x : Option Expr} (h : (Load.expr scopes path children).result = .ok x) :
    (expr scopes path children).read = .ok (x.map .expr) := by
  rw [read, h]
  rfl

theorem read_slot {key : String} {e : Option Expr}
    (h : (Load.slot scopes path children key).result = .ok e) :
    (slot scopes path children key).read = .ok (some (.slot e)) := by
  rw [read, h]
  rfl

theorem read_stmt {x : Option Stmt} (h : (Load.stmt scopes path children).result = .ok x) :
    (stmt scopes path children).read = .ok (x.map .stmt) := by
  rw [read, h]
  rfl

theorem read_stmts {e : Entry} {l : List Stmt} (h : (Load.stmts scopes path e).result = .ok l) :
    (stmts scopes path e).read = .ok (some (.stmts l)) := by
  rw [read, h]
  rfl

end

theorem exists_of_map_ok {α β : Type} {f : α → β} {r : Except RecordFault α} {y : β}
    (h : f <$> r = .ok y) : ∃ x, r = .ok x ∧ f x = y := by
  cases r with
  | error e => cases h
  | ok x => exact ⟨x, rfl, Except.ok.inj h⟩

end Task

/-! ## Where the tasks stand -/

theorem entry_concat (t : Forest) (path : Path) (key : String) :
    t.entry (path ++ [key]) = (t.entry path).children.child key := by
  rw [Forest.entry, Entry.descend, List.foldl_append]
  rfl

/-- The task is about what is stored at its path. -/
def Task.StandsIn (t : Forest) : Task → Prop
  | expr _ path children | slot _ path children _ | stmt _ path children =>
    children = (t.entry path).children
  | stmts _ path e => e = t.entry path

/-- The part is about what is stored below a key of a record. -/
def Task.IsBelow (scopes : Scopes) (path : Path) (children : Forest) (part : Task) : Prop :=
  ∃ key, part = operand scopes path children key ∨ part = slot scopes path children key ∨
    part = stmts scopes (path ++ [key]) (children.child key)

theorem Task.isBelow_of_expr {scopes : Scopes} {path : Path} {children : Forest} {part : Task}
    (h : part ∈ (expr scopes path children).parts) : part.IsBelow scopes path children := by
  simp only [parts] at h
  unfold IsBelow
  grind

theorem Task.isBelow_of_slot {scopes : Scopes} {path : Path} {children : Forest} {key : String}
    {part : Task} (h : part ∈ (slot scopes path children key).parts) :
    part.IsBelow scopes path children := by
  simp only [parts] at h
  unfold IsBelow
  grind

theorem Task.isBelow_of_stmt {scopes : Scopes} {path : Path} {children : Forest} {part : Task}
    (h : part ∈ (stmt scopes path children).parts) : part.IsBelow scopes path children := by
  simp only [parts] at h
  split at h
  case h_1 | h_2 =>
    rw [List.mem_singleton.1 h]
    exact ⟨"expr", .inl rfl⟩
  case h_3 =>
    simp only [List.mem_cons, List.not_mem_nil, or_false] at h
    rcases h with rfl | rfl | rfl | rfl | rfl
    · exact ⟨"decl1", .inr (.inr rfl)⟩
    · exact ⟨"expr1", .inr (.inl rfl)⟩
    · exact ⟨"expr2", .inr (.inl rfl)⟩
    · exact ⟨"expr3", .inr (.inl rfl)⟩
    · exact ⟨"body", .inr (.inr rfl)⟩
  case h_4 =>
    rw [List.mem_singleton.1 h]
    exact ⟨"expr", .inr (.inl rfl)⟩
  case h_5 => cases h

theorem Task.IsBelow.standsIn {t : Forest} {scopes : Scopes} {path : Path} {part : Task}
    (h : part.IsBelow scopes path (t.entry path).children) : part.StandsIn t := by
  obtain ⟨key, rfl | rfl | rfl⟩ := h
  · exact congrArg Entry.children (entry_concat t path key).symm
  · exact rfl
  · exact (entry_concat t path key).symm

theorem Task.StandsIn.part {t : Forest} {task part : Task} (h : task.StandsIn t)
    (hpart : part ∈ task.parts) : part.StandsIn t := by
  cases task with
  | expr =>
    cases h
    exact (isBelow_of_expr hpart).standsIn
  | slot =>
    cases h
    exact (isBelow_of_slot hpart).standsIn
  | stmt =>
    cases h
    exact (isBelow_of_stmt hpart).standsIn
  | stmts scopes path e =>
    cases h
    obtain ⟨key, -, rfl⟩ := List.mem_map.1 hpart
    exact congrArg Entry.children (entry_concat t path key).symm

theorem Visits.standsIn {t : Forest} {task : Task} (h : Visits t task) : task.StandsIn t := by
  obtain ⟨place, start, hstart, hcomes⟩ := h
  induction hcomes with
  | refl =>
    cases hstart with
    | global => rfl
    | function _ _ _ h => cases h <;> rfl
  | tail _ hpart ih => exact ih.part hpart

end Load

end KeyedIR
