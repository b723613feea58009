import KeyedIR.Proofs.Forest.Fields
import KeyedIR.Record.Save
/-! # Records field by field

The record of each part of a program as a list of fields. All kinds of operators have one form of
record, in which the second operand may be empty; and the declarations of a class and the
statements of a list are numbered records. All records are tidy, also those of modules with
references that lead nowhere.
-/

namespace KeyedIR

set_option autoImplicit false

open Forest

namespace Record

def text (s : String) : Entry := ⟨some (.string s), nil⟩

def below (children : Forest) : Entry := ⟨none, children⟩

@[simp] theorem children_text (s : String) : (text s).children = nil := rfl

@[simp] theorem children_below (children : Forest) : (below children).children = children := rfl

/-- The record of an operator with one or two operands. -/
def operation (tag op : String) (lhs rhs : Forest) : Forest :=
  ofFields [("type", text tag), ("lhs", below lhs), ("op", text op), ("rhs", below rhs)]

def optional (labelOf : Ref → Option Label) (e : Option Expr) : Forest :=
  match e with
  | some e => e.record labelOf
  | none => nil

def blockEntry (statements : List Stmt) (records : Forest) : Entry :=
  if statements.isEmpty then text emptyList else below records

def flagEntry (isSet : Bool) : Entry := if isSet then ⟨some (.integer 1), nil⟩ else {}

theorem string_eq (key s : String) : Forest.string key s = ofFields [(key, text s)] := rfl

theorem slot_eq (labelOf : Ref → Option Label) (key : String) (e : Option Expr) :
    slot labelOf key e = ofFields [(key, below (optional labelOf e))] := by
  cases e with
  | none => rfl
  | some e => exact branch_eq key _

theorem block_eq (key : String) (statements : List Stmt) (records : Forest) :
    block key statements records = ofFields [(key, blockEntry statements records)] := by
  cases statements with
  | nil => rfl
  | cons s rest => exact branch_eq key records

theorem flag_eq (key : String) (isSet : Bool) :
    flag key isSet = ofFields [(key, flagEntry isSet)] := by
  cases isSet <;> rfl

end Record

open Record

/-! ## Expressions and statements -/

section

variable (labelOf : Ref → Option Label)

theorem Expr.record_ref {target : Ref} {label : Label} (h : labelOf target = some label) :
    (ref target).record labelOf =
      ofFields [("type", text ExprTag.ref.word), ("ref", text label.text)] := by
  rw [record, h]
  rfl

theorem Expr.record_int (n : Int32) : (int n).record labelOf =
    ofFields [("type", text ExprTag.int.word), ("val", ⟨some (.integer n.toInt64), nil⟩)] := rfl

theorem Expr.record_float (x : Binary64) : (float x).record labelOf =
    ofFields [("type", text ExprTag.float.word), ("val", ⟨some (.float x), nil⟩)] := rfl

theorem Expr.record_unary (op : ArithmeticOp) (operand : Expr) :
    (unary op operand).record labelOf =
      operation ExprTag.arithmetic.word op.word (operand.record labelOf) nil := by
  simp only [record, tag, string_eq, branch_eq, ← ofFields_append]
  rfl

theorem Expr.record_binary (op : ArithmeticOp) (lhs rhs : Expr) :
    (binary op lhs rhs).record labelOf =
      operation ExprTag.arithmetic.word op.word (lhs.record labelOf) (rhs.record labelOf) := by
  simp only [record, tag, string_eq, branch_eq, ← ofFields_append]
  rfl

theorem Expr.record_compare (op : ComparisonOp) (lhs rhs : Expr) :
    (compare op lhs rhs).record labelOf =
      operation ExprTag.compare.word op.word (lhs.record labelOf) (rhs.record labelOf) := by
  simp only [record, tag, string_eq, branch_eq, ← ofFields_append]
  rfl

theorem Expr.record_assign (op : AssignmentOp) (lhs rhs : Expr) :
    (assign op lhs rhs).record labelOf =
      operation ExprTag.assign.word op.word (lhs.record labelOf) (rhs.record labelOf) := by
  simp only [record, tag, string_eq, branch_eq, ← ofFields_append]
  rfl

theorem Stmt.record_init {target : VarRef} {label : Label}
    (h : labelOf target.toRef = some label) (value : Expr) :
    (init target value).record labelOf =
      ofFields [("type", text StmtTag.init.word), ("var", text label.text),
        ("expr", below (value.record labelOf))] := by
  simp only [record, h, tag, string_eq, branch_eq, ← ofFields_append]
  rfl

theorem Stmt.record_eval (e : Expr) :
    (eval e).record labelOf =
      ofFields [("type", text StmtTag.eval.word), ("expr", below (e.record labelOf))] := by
  simp only [record, tag, string_eq, branch_eq, ← ofFields_append]
  rfl

theorem Stmt.record_loop (start : List Stmt) (cond test step : Option Expr) (body : List Stmt) :
    (loop start cond test step body).record labelOf =
      ofFields [("type", text StmtTag.loop.word),
        ("decl1", blockEntry start (Stmt.listRecord labelOf 0 start)),
        ("expr1", below (optional labelOf cond)), ("expr2", below (optional labelOf test)),
        ("expr3", below (optional labelOf step)),
        ("body", blockEntry body (Stmt.listRecord labelOf 0 body))] := by
  simp only [record, tag, string_eq, slot_eq, block_eq, ← ofFields_append]
  rfl

theorem Stmt.record_ret (value : Option Expr) :
    (ret value).record labelOf =
      ofFields [("type", text StmtTag.ret.word), ("expr", below (optional labelOf value))] := by
  simp only [record, tag, string_eq, slot_eq, ← ofFields_append]
  rfl

theorem Stmt.listRecord_from (n : Nat) (l : List Stmt) :
    Stmt.listRecord labelOf n l =
      numbered (fun i => statementKey (n + i)) (l.map (·.record labelOf)) := by
  induction l generalizing n with
  | nil => rfl
  | cons s rest ih =>
    have hkey : (fun i => statementKey (n + (i + 1))) = fun i => statementKey (n + 1 + i) := by
      funext i
      exact congrArg statementKey (by omega)
    rw [Stmt.listRecord, ih, List.map_cons, numbered_cons, hkey]
    rfl

theorem Stmt.listRecord_eq (l : List Stmt) :
    Stmt.listRecord labelOf 0 l = numbered statementKey (l.map (·.record labelOf)) := by
  simpa using Stmt.listRecord_from labelOf 0 l

end

/-! ## Declarations -/

def Record.labelKey (cls : DeclClass) (i : Nat) : String := (Label.mk cls i).text

/-- Items that have been labelled by their positions have numbered records. -/
theorem Record.labelled_from {α β : Type} {cls : DeclClass} {label : β → Option Label}
    {record : β → Forest} {f : Nat → α → β} {plain : α → Forest}
    (hrecord : ∀ i x, record (f i x) = plain x) (n : Nat)
    (hlabel : ∀ i x, label (f i x) = some ⟨cls, n + i⟩) (items : List α) :
    Record.labelled label record (items.mapIdx f) =
      numbered (fun i => labelKey cls (n + i)) (items.map plain) := by
  induction items generalizing f n with
  | nil => rfl
  | cons x rest ih =>
    have hkey : (fun i => labelKey cls (n + (i + 1))) = fun i => labelKey cls (n + 1 + i) := by
      funext i
      exact congrArg (labelKey cls) (by omega)
    have hnext : ∀ i x, label (f (i + 1) x) = some ⟨cls, n + 1 + i⟩ := by
      intro i x
      rw [hlabel]
      exact congrArg (fun k => some (Label.mk cls k)) (by omega)
    rw [List.mapIdx_cons, Record.labelled, hlabel, ih (fun i x => hrecord (i + 1) x) (n + 1) hnext,
      List.map_cons, numbered_cons, hkey, hrecord]
    rfl

theorem Record.labelled_eq {α β : Type} {cls : DeclClass} {label : β → Option Label}
    {record : β → Forest} {f : Nat → α → β} {plain : α → Forest}
    (hlabel : ∀ i x, label (f i x) = some ⟨cls, i⟩) (hrecord : ∀ i x, record (f i x) = plain x)
    (a : Arena cls α) :
    Record.labelled label record (a.mapIdx f).toList =
      numbered (labelKey cls) (a.toList.map plain) := by
  rw [Arena.toList_mapIdx]
  simpa using Record.labelled_from hrecord 0 (by simpa using hlabel) a.toList

theorem Variable.record_eq (labelOf : Ref → Option Label) (v : Variable) :
    v.record labelOf = ofFields [("name", text v.name), ("type", text v.type.name),
      ("init", below (optional labelOf v.init))] := by
  simp only [record, string_eq, slot_eq, ← ofFields_append]
  rfl

theorem Parameter.record_eq (p : Parameter) :
    p.record = ofFields [("name", text p.name), ("type", text p.type.name)] := rfl

theorem Variable.record_ne_nil (labelOf : Ref → Option Label) (v : Variable) :
    v.record labelOf ≠ nil := by
  rw [Variable.record_eq]
  nofun

theorem Parameter.record_ne_nil (p : Parameter) : p.record ≠ nil := nofun

theorem Function.record_labelled (m : Module) (f : Function) :
    f.labelled.record m =
      ofFields [("name", text f.name), ("return-type", text f.returns.name),
        ("variadic", flagEntry f.isVariadic), ("inline", flagEntry f.isInline),
        ("params", below (numbered (labelKey .parameter) (f.parameters.toList.map (·.record)))),
        ("locals", below (numbered (labelKey .localVar)
          (f.locals.toList.map (·.record (m.labelOf (some f.labelled)))))),
        ("body", blockEntry f.body
          (Stmt.listRecord (m.labelOf (some f.labelled)) 0 f.body))] := by
  have hparameters : Record.labelled (·.label) (·.record) f.labelled.parameters.toList =
      numbered (labelKey .parameter) (f.parameters.toList.map (·.record)) :=
    Record.labelled_eq (by intros; rfl) (by intros; rfl) f.parameters
  have hlocals : Record.labelled (·.label) (·.record (m.labelOf (some f.labelled)))
      f.labelled.locals.toList = numbered (labelKey .localVar)
        (f.locals.toList.map (·.record (m.labelOf (some f.labelled)))) :=
    Record.labelled_eq (by intros; rfl) (by intros; rfl) f.locals
  simp only [record, hparameters, hlocals, string_eq, flag_eq, branch_eq,
    block_eq, ← ofFields_append]
  rfl

theorem Function.record_labelled_ne_nil (m : Module) (f : Function) :
    f.labelled.record m ≠ nil := by
  rw [Function.record_labelled]
  nofun

theorem Module.record_labelled (m : Module) :
    m.labelled.record =
      ofFields [("name", text m.name),
        ("typedefs", below (numbered (labelKey .type)
          (m.types.toList.map fun t => .string "name" t.name))),
        ("globals", below (numbered (labelKey .global)
          (m.globals.toList.map (·.record (m.labelled.labelOf none))))),
        ("funcs", below (numbered (labelKey .function)
          (m.functions.toList.map (·.labelled.record m.labelled))))] := by
  have htypes : Record.labelled (·.label) (fun t => .string "name" t.name)
      m.labelled.types.toList = numbered (labelKey .type)
        (m.types.toList.map fun t => .string "name" t.name) :=
    Record.labelled_eq (by intros; rfl) (by intros; rfl) m.types
  have hglobals : Record.labelled (·.label) (·.record (m.labelled.labelOf none))
      m.labelled.globals.toList = numbered (labelKey .global)
        (m.globals.toList.map (·.record (m.labelled.labelOf none))) :=
    Record.labelled_eq (by intros; rfl) (by intros; rfl) m.globals
  have hfunctions : Record.labelled (·.label) (·.record m.labelled)
      m.labelled.functions.toList = numbered (labelKey .function)
        (m.functions.toList.map (·.labelled.record m.labelled)) :=
    Record.labelled_eq (by intros; rfl) (by intros; rfl) m.functions
  rw [record, htypes, hglobals, hfunctions, string_eq, branch_eq, branch_eq, branch_eq,
    ← ofFields_append, ← ofFields_append, ← ofFields_append]
  rfl

/-! ## Records are tidy -/

/-- A record with plain field names is tidy if what is below it is. -/
theorem Record.tidy_of_names {fields : List (String × Entry)} (names : List String)
    (hnames : fields.map Prod.fst = names)
    (hplain : names.Nodup ∧ ∀ name ∈ names, IsPlainKey name)
    (hbelow : ∀ field ∈ fields, field.2.children.Tidy) : (ofFields fields).Tidy := by
  subst hnames
  apply tidy_ofFields hplain.1 _ hbelow
  intro field hfield
  exact hplain.2 field.1 (List.mem_map_of_mem hfield)

theorem Record.isPlainKey_numbered {letter : Char}
    (hletter : IsPlainKey (String.ofList [letter])) (n : Nat) :
    IsPlainKey (String.ofList (letter :: Nat.toDigits 10 n)) := by
  refine ⟨fun h => by simpa using congrArg String.toList h, ?_⟩
  intro c hc
  rw [String.toList_ofList] at hc
  rcases List.mem_cons.1 hc with rfl | hc
  · exact hletter.2 c (by simp)
  · have hdigit : c.isDigit = true := Decimal.isDigit_of_mem_toDigits hc
    have hblank : Text.isBlank c = false := Value.isBlank_of_isTextChar (by
      simp [Binary64.isTextChar, Decimal.isTextChar, hdigit])
    refine ⟨?_, ?_, ?_, ?_, hblank⟩ <;> rintro rfl <;> cases hdigit

theorem Record.isPlainKey_labelKey (cls : DeclClass) (i : Nat) : IsPlainKey (labelKey cls i) := by
  have hletter : IsPlainKey (String.ofList [cls.letter]) := by cases cls <;> decide
  exact isPlainKey_numbered hletter i

theorem Record.isPlainKey_statementKey (i : Nat) : IsPlainKey (statementKey i) :=
  isPlainKey_numbered (by decide) i

theorem Record.labelKey_injective (cls : DeclClass) (i j : Nat)
    (h : labelKey cls i = labelKey cls j) : i = j :=
  congrArg Label.ordinal (Label.text_injective h)

theorem Record.tidy_operation {tag op : String} {lhs rhs : Forest} (hl : lhs.Tidy)
    (hr : rhs.Tidy) : (operation tag op lhs rhs).Tidy := by
  refine tidy_of_names ["type", "lhs", "op", "rhs"] rfl (by decide) ?_
  simp [hl, hr]

section

variable (labelOf : Ref → Option Label)

theorem Expr.tidy_record (e : Expr) : (e.record labelOf).Tidy := by
  induction e with
  | ref target =>
    cases hlabel : labelOf target with
    | none => simp [record, hlabel]
    | some label =>
      rw [record_ref labelOf hlabel]
      exact tidy_of_names ["type", "ref"] rfl (by decide) (by simp)
  | int n =>
    rw [record_int]
    exact tidy_of_names ["type", "val"] rfl (by decide) (by simp)
  | float x =>
    rw [record_float]
    exact tidy_of_names ["type", "val"] rfl (by decide) (by simp)
  | unary op operand ih => rw [record_unary]; exact tidy_operation ih trivial
  | binary op l r ihl ihr => rw [record_binary]; exact tidy_operation ihl ihr
  | compare op l r ihl ihr => rw [record_compare]; exact tidy_operation ihl ihr
  | assign op l r ihl ihr => rw [record_assign]; exact tidy_operation ihl ihr

theorem Record.tidy_optional (e : Option Expr) : (optional labelOf e).Tidy := by
  cases e with
  | none => exact trivial
  | some e => exact e.tidy_record labelOf

theorem Record.tidy_block (l : List Stmt)
    (h : ∀ record ∈ l.map (·.record labelOf), record.Tidy) :
    (blockEntry l (Stmt.listRecord labelOf 0 l)).children.Tidy := by
  unfold blockEntry
  split
  · exact trivial
  · rw [Stmt.listRecord_eq]
    exact tidy_numbered (fun _ _ => statementKey_injective) isPlainKey_statementKey h

mutual

theorem Stmt.tidy_record (s : Stmt) : (s.record labelOf).Tidy := by
  match s with
  | .init target value =>
    cases hlabel : labelOf target.toRef with
    | none => simp [Stmt.record, hlabel]
    | some label =>
      rw [Stmt.record_init labelOf hlabel]
      refine tidy_of_names ["type", "var", "expr"] rfl (by decide) ?_
      simp [value.tidy_record labelOf]
  | .eval e =>
    rw [Stmt.record_eval]
    refine tidy_of_names ["type", "expr"] rfl (by decide) ?_
    simp [e.tidy_record labelOf]
  | .loop start cond test step body =>
    rw [Stmt.record_loop]
    refine tidy_of_names ["type", "decl1", "expr1", "expr2", "expr3", "body"] rfl (by decide) ?_
    simp [tidy_optional labelOf,
      tidy_block labelOf start (Stmt.tidy_records start),
      tidy_block labelOf body (Stmt.tidy_records body)]
  | .ret value =>
    rw [Stmt.record_ret]
    refine tidy_of_names ["type", "expr"] rfl (by decide) ?_
    simp [tidy_optional labelOf]

theorem Stmt.tidy_records (l : List Stmt) :
    ∀ record ∈ l.map (·.record labelOf), record.Tidy := by
  match l with
  | [] => exact nofun
  | s :: rest => exact List.forall_mem_cons.2 ⟨Stmt.tidy_record s, Stmt.tidy_records rest⟩

end

theorem Variable.tidy_record (v : Variable) : (v.record labelOf).Tidy := by
  rw [Variable.record_eq]
  refine tidy_of_names ["name", "type", "init"] rfl (by decide) ?_
  simp [tidy_optional labelOf]

end

theorem Parameter.tidy_record (p : Parameter) : p.record.Tidy := by
  rw [Parameter.record_eq]
  exact tidy_of_names ["name", "type"] rfl (by decide) (by simp)

theorem Record.tidy_labelled {α : Type} (cls : DeclClass) {record : α → Forest}
    (h : ∀ x, (record x).Tidy) (items : List α) :
    (numbered (labelKey cls) (items.map record)).Tidy := by
  apply tidy_numbered (labelKey_injective cls) (isPlainKey_labelKey cls)
  intro r hr
  obtain ⟨x, -, rfl⟩ := List.mem_map.1 hr
  exact h x

theorem Function.tidy_record (m : Module) (f : Function) : (f.labelled.record m).Tidy := by
  rw [Function.record_labelled]
  refine tidy_of_names ["name", "return-type", "variadic", "inline", "params", "locals", "body"]
    rfl (by decide) ?_
  have hflag (isSet : Bool) : (flagEntry isSet).children.Tidy := by cases isSet <;> exact trivial
  simp [hflag, tidy_labelled .parameter Parameter.tidy_record,
    tidy_labelled .localVar (Variable.tidy_record (m.labelOf (some f.labelled))),
    tidy_block (m.labelOf (some f.labelled)) f.body
      (Stmt.tidy_records (m.labelOf (some f.labelled)) f.body)]

theorem Module.tidy_record (m : Module) : m.labelled.record.Tidy := by
  rw [Module.record_labelled]
  refine tidy_of_names ["name", "typedefs", "globals", "funcs"] rfl (by decide) ?_
  have htype (t : TypeName) : (Forest.string "name" t.name).Tidy := by
    rw [string_eq]
    exact tidy_of_names ["name"] rfl (by decide) (by simp)
  simp [tidy_labelled .type htype,
    tidy_labelled .global (Variable.tidy_record (m.labelled.labelOf none)),
    tidy_labelled .function (Function.tidy_record m.labelled)]

end KeyedIR
