import KeyedIR.Forest.Build
import KeyedIR.Log
import KeyedIR.Program.Declaration
import KeyedIR.Program.Labelling
/-! # Saving

The record of a module is the forest that is stored below `module`. Saving labels the module,
erases what was stored there before, and stores the values of the record one by one.

A reference is stored as the label of its declaration. One that leads nowhere leaves nothing at
its place, and a first value for such a variable is left out as a whole. A declaration without a
label has no key and is left out too, which never happens after labelling. Each is logged.
-/

namespace KeyedIR

set_option autoImplicit false

/-! ## Records -/

def Forest.string (key s : String) : Forest := .leaf key (.string s)

def Record.tag (word : String) : Forest := .string "type" word

def Expr.record (labelOf : Ref → Option Label) : Expr → Forest
  | .ref target =>
    match labelOf target with
    | some label => Record.tag ExprTag.ref.word ++ .string "ref" label.text
    | none => .nil
  | .int n => Record.tag ExprTag.int.word ++ .leaf "val" (.integer n.toInt64)
  | .float x => Record.tag ExprTag.float.word ++ .leaf "val" (.float x)
  | .unary op operand =>
    Record.tag ExprTag.arithmetic.word ++ .branch "lhs" (operand.record labelOf) ++
      .string "op" op.word
  | .binary op lhs rhs =>
    Record.tag ExprTag.arithmetic.word ++ .branch "lhs" (lhs.record labelOf) ++
      .string "op" op.word ++ .branch "rhs" (rhs.record labelOf)
  | .compare op lhs rhs =>
    Record.tag ExprTag.compare.word ++ .branch "lhs" (lhs.record labelOf) ++
      .string "op" op.word ++ .branch "rhs" (rhs.record labelOf)
  | .assign op lhs rhs =>
    Record.tag ExprTag.assign.word ++ .branch "lhs" (lhs.record labelOf) ++
      .string "op" op.word ++ .branch "rhs" (rhs.record labelOf)

def Record.slot (labelOf : Ref → Option Label) (key : String) (e : Option Expr) : Forest :=
  match e with
  | some e => .branch key (e.record labelOf)
  | none => .nil

/-- A list of statements below a key: the marker if there are none, else their records. -/
def Record.block (key : String) (statements : List Stmt) (records : Forest) : Forest :=
  if statements.isEmpty then .string key Record.emptyList else .branch key records

mutual

def Stmt.record (labelOf : Ref → Option Label) : Stmt → Forest
  | .init target value =>
    match labelOf target.toRef with
    | some label =>
      Record.tag StmtTag.init.word ++ .string "var" label.text ++
        .branch "expr" (value.record labelOf)
    | none => .nil
  | .eval e => Record.tag StmtTag.eval.word ++ .branch "expr" (e.record labelOf)
  | .loop start cond test step body =>
    Record.tag StmtTag.loop.word ++
      Record.block "decl1" start (Stmt.listRecord labelOf 0 start) ++
      Record.slot labelOf "expr1" cond ++ Record.slot labelOf "expr2" test ++
      Record.slot labelOf "expr3" step ++
      Record.block "body" body (Stmt.listRecord labelOf 0 body)
  | .ret value => Record.tag StmtTag.ret.word ++ Record.slot labelOf "expr" value

/-- The records of statements from a position on. A statement that is left out leaves its position
unused. -/
def Stmt.listRecord (labelOf : Ref → Option Label) (position : Nat) : List Stmt → Forest
  | [] => .nil
  | s :: rest =>
    .branch (Record.statementKey position) (s.record labelOf) ++
      Stmt.listRecord labelOf (position + 1) rest

end

def Variable.record (labelOf : Ref → Option Label) (v : Variable) : Forest :=
  .string "name" v.name ++ .string "type" v.type.name ++ Record.slot labelOf "init" v.init

def Parameter.record (p : Parameter) : Forest :=
  .string "name" p.name ++ .string "type" p.type.name

/-- A flag at a key, which is stored only if it is set. -/
def Record.flag (key : String) (isSet : Bool) : Forest :=
  if isSet then .leaf key (.integer 1) else .nil

/-- The records of the items that have labels, each below its label. -/
def Record.labelled {α : Type} (label : α → Option Label) (record : α → Forest) :
    List α → Forest
  | [] => .nil
  | x :: rest =>
    match label x with
    | some l => .branch l.text (record x) ++ Record.labelled label record rest
    | none => Record.labelled label record rest

def Module.labelOf (m : Module) (inside : Option Function) (r : Ref) : Option Label :=
  (m.target? inside r).bind Declaration.label

def Function.record (m : Module) (f : Function) : Forest :=
  let labelOf := m.labelOf (some f)
  .string "name" f.name ++ .string "return-type" f.returns.name ++
    Record.flag "variadic" f.isVariadic ++ Record.flag "inline" f.isInline ++
    .branch "params" (Record.labelled (·.label) (·.record) f.parameters.toList) ++
    .branch "locals" (Record.labelled (·.label) (·.record labelOf) f.locals.toList) ++
    Record.block "body" f.body (Stmt.listRecord labelOf 0 f.body)

def Module.record (m : Module) : Forest :=
  .string "name" m.name ++
    .branch "typedefs" (Record.labelled (·.label) (fun t => .string "name" t.name)
      m.types.toList) ++
    .branch "globals" (Record.labelled (·.label) (·.record (m.labelOf none))
      m.globals.toList) ++
    .branch "funcs" (Record.labelled (·.label) (·.record m) m.functions.toList)

/-! ## Events -/

/-- What is logged while an expression is stored at a path. -/
def Expr.events (labelOf : Ref → Option Label) (path : Path) : Expr → List Event
  | .ref target => if (labelOf target).isSome then [] else [.missingReference path]
  | .int _ | .float _ => []
  | .unary _ operand => operand.events labelOf (path ++ ["lhs"])
  | .binary _ lhs rhs | .compare _ lhs rhs | .assign _ lhs rhs =>
    lhs.events labelOf (path ++ ["lhs"]) ++ rhs.events labelOf (path ++ ["rhs"])

def Record.slotEvents (labelOf : Ref → Option Label) (path : Path) (e : Option Expr) :
    List Event :=
  match e with
  | some e => e.events labelOf path
  | none => []

mutual

def Stmt.events (labelOf : Ref → Option Label) (path : Path) : Stmt → List Event
  | .init target value =>
    .writingStatement path ::
      if (labelOf target.toRef).isSome then value.events labelOf (path ++ ["expr"])
      else [.missingTarget path]
  | .eval e => .writingStatement path :: e.events labelOf (path ++ ["expr"])
  | .loop start cond test step body =>
    .writingStatement path ::
      (Stmt.listEvents labelOf (path ++ ["decl1"]) 0 start ++
        Record.slotEvents labelOf (path ++ ["expr1"]) cond ++
        Record.slotEvents labelOf (path ++ ["expr2"]) test ++
        Record.slotEvents labelOf (path ++ ["expr3"]) step ++
        Stmt.listEvents labelOf (path ++ ["body"]) 0 body)
  | .ret value =>
    .writingStatement path :: Record.slotEvents labelOf (path ++ ["expr"]) value

def Stmt.listEvents (labelOf : Ref → Option Label) (path : Path) (position : Nat) :
    List Stmt → List Event
  | [] => []
  | s :: rest =>
    s.events labelOf (path ++ [Record.statementKey position]) ++
      Stmt.listEvents labelOf path (position + 1) rest

end

/-- What is logged of declarations that go below their labels. One without a label has no key: there
is a warning and nothing of it is stored. -/
def Record.labelledEvents {cls : DeclClass} {α : Type} (name : α → String)
    (label : α → Option Label) (events : α → Label → List Event) (a : Arena cls α) : List Event :=
  a.toList.flatMap fun x =>
    match label x with
    | some l => events x l
    | none => [.unlabelled cls (name x)]

def Variable.events (labelOf : Ref → Option Label) (path : Path) (v : Variable) (label : Label) :
    List Event :=
  Record.slotEvents labelOf (path ++ [label.text, "init"]) v.init

def Function.events (m : Module) (f : Function) (label : Label) : List Event :=
  let labelOf := m.labelOf (some f)
  let path := [Record.moduleKey, "funcs", label.text]
  .writingFunction f.name label ::
    (Record.labelledEvents (·.name) (·.label) (fun _ _ => []) f.parameters ++
      Record.labelledEvents (·.name) (·.label) (·.events labelOf (path ++ ["locals"])) f.locals ++
      Stmt.listEvents labelOf (path ++ ["body"]) 0 f.body)

def Module.events (m : Module) : List Event :=
  Record.labelledEvents (·.name) (·.label) (fun _ _ => []) m.types ++
    Record.labelledEvents (·.name) (·.label)
      (·.events (m.labelOf none) [Record.moduleKey, "globals"]) m.globals ++
    Record.labelledEvents (·.name) (·.label) (·.events m) m.functions

/-! ## Saving -/

/-- The changes that replace the stored module by another: the version and the module from before
are removed, the version is stored, and then each value of the record. -/
def Module.saveEdits (m : Module) : List Edit :=
  .remove Record.versionPath :: .remove [Record.moduleKey] ::
    .set Record.versionPath (.string Record.version) ::
    m.labelled.record.assignments [Record.moduleKey]

def Module.saveEvents (m : Module) : List Event := m.labelled.events

def Module.save (m : Module) (t : Forest) : Forest := t.editAll m.saveEdits

end KeyedIR
