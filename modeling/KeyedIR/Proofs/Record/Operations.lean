import KeyedIR.Proofs.Record.Readings
/-! # Operations with two operands

Comparisons and assignments read both of their operands, one after the other. An arithmetic
operation reads the second operand only if the first one is not left out. So the three families come
to the same from the same operands, unless the first operand is left out and the second one cannot
be read (`Load.same_outcome_iff`).
-/

namespace KeyedIR

set_option autoImplicit false

open Logged Loading

namespace Load

/-- A record of an operation: the tag of its family, the word of its operator and the records of its
operands. What else it holds does not matter. -/
structure IsOperation (tag : ExprTag) (word : String) (lhs rhs record : Forest) : Prop where
  tag : (record.child "type").value = some (.string tag.word)
  word : (record.child "op").value = some (.string word)
  lhs : (record.child "lhs").children = lhs
  rhs : (record.child "rhs").children = rhs

/-! ## Outcomes -/

/-- What reading an operation comes to: a node with two operands, nothing or a fault. -/
inductive Outcome where
  | node (lhs rhs : Expr)
  | skipped
  | failed (fault : RecordFault)

namespace Outcome

/-- The result that an outcome is for an operator, given by its nodes. -/
def result (make : Expr → Expr → Expr) : Outcome → Except RecordFault (Option Expr)
  | node lhs rhs => .ok (some (make lhs rhs))
  | skipped => .ok none
  | failed fault => .error fault

theorem result_injective {make : Expr → Expr → Expr} (hmake : Function.Injective2 make) :
    Function.Injective (result make) := by
  intro o o' h
  cases o with
  | node lhs rhs =>
    cases o' with
    | node lhs' rhs' =>
      obtain ⟨rfl, rfl⟩ := hmake (Option.some.inj (Except.ok.inj h))
      rfl
    | skipped | failed => cases h
  | skipped =>
    cases o' with
    | skipped => rfl
    | node | failed => cases h
  | failed fault =>
    cases o' with
    | failed fault' => exact congrArg failed (Except.error.inj h)
    | node | skipped => cases h

variable (left right : Except RecordFault (Option Expr))

/-- The outcome where both operands are read. -/
def ofBoth : Outcome :=
  match left, right with
  | .error fault, _ | .ok _, .error fault => failed fault
  | .ok (some lhs), .ok (some rhs) => node lhs rhs
  | .ok _, .ok _ => skipped

/-- The outcome where the second operand is read only if the first one is not left out. -/
def ofFirst : Outcome :=
  match left with
  | .ok none => skipped
  | _ => ofBoth left right

theorem ofFirst_eq_ofBoth_iff : ofFirst left right = ofBoth left right ↔
    ¬(left = .ok none ∧ ∃ fault, right = .error fault) := by
  cases left with
  | error fault => simp [ofFirst]
  | ok l =>
    cases l with
    | some lhs => simp [ofFirst]
    | none => cases right <;> simp [ofFirst, ofBoth]

end Outcome

/-! ## Readings -/

section

variable {scopes : Scopes} {path : Path} {lhs rhs record : Forest} {tag : ExprTag} {word : String}

theorem string_of_value {key s : String} (h : (record.child key).value = some (.string s))
    (path : Path) : (string path record key).result = .ok s := by
  rw [string, Entry.stringAt, Entry.valueAt, h]
  rfl

theorem IsOperation.operator {α : Type} (h : IsOperation tag word lhs rhs record)
    (family : OperatorFamily) {ofWord? : String → Option α} {op : α}
    (hop : ofWord? word = some op) : (operator family ofWord? path record).result = .ok op := by
  rw [Load.operator, bind_of_ok (string_of_value h.word path), hop]
  rfl

theorem result_both (make : Expr → Expr → Expr) (left right : Loading (Option Expr)) :
    (do
      let lhs ← left
      let rhs ← right
      return lhs.bind fun lhs => rhs.map (make lhs)).result =
        (Outcome.ofBoth left.result right.result).result make := by
  rw [result_bind]
  cases left.result with
  | error fault => rfl
  | ok l =>
    show (right >>= _).result = _
    rw [result_bind]
    cases right.result with
    | error fault => cases l <;> rfl
    | ok r => cases l <;> cases r <;> rfl

theorem result_compare {op : ComparisonOp} (h : IsOperation .compare op.word lhs rhs record) :
    (expr scopes path record).result =
      (Outcome.ofBoth (expr scopes (path ++ ["lhs"]) lhs).result
        (expr scopes (path ++ ["rhs"]) rhs).result).result (.compare op) := by
  have htag := string_of_value h.tag path
  rw [expr.eq_def scopes path record, dif_neg (ne_nil_of_string htag), bind_of_ok htag]
  simp only [ExprTag.ofWord?_word]
  rw [bind_of_ok (h.operator _ (ComparisonOp.ofWord?_word op)), h.lhs, h.rhs]
  exact result_both (.compare op) _ _

theorem result_assign {op : AssignmentOp} (h : IsOperation .assign op.word lhs rhs record) :
    (expr scopes path record).result =
      (Outcome.ofBoth (expr scopes (path ++ ["lhs"]) lhs).result
        (expr scopes (path ++ ["rhs"]) rhs).result).result (.assign op) := by
  have htag := string_of_value h.tag path
  rw [expr.eq_def scopes path record, dif_neg (ne_nil_of_string htag), bind_of_ok htag]
  simp only [ExprTag.ofWord?_word]
  rw [bind_of_ok (h.operator _ (AssignmentOp.ofWord?_word op)), h.lhs, h.rhs]
  exact result_both (.assign op) _ _

theorem result_arithmetic {op : ArithmeticOp} (hop : op.isUnary = false)
    (h : IsOperation .arithmetic op.word lhs rhs record) :
    (expr scopes path record).result =
      (Outcome.ofFirst (expr scopes (path ++ ["lhs"]) lhs).result
        (expr scopes (path ++ ["rhs"]) rhs).result).result (.binary op) := by
  have htag := string_of_value h.tag path
  rw [expr.eq_def scopes path record, dif_neg (ne_nil_of_string htag), bind_of_ok htag]
  simp only [ExprTag.ofWord?_word]
  rw [bind_of_ok (h.operator _ (ArithmeticOp.ofWord?_word op)), h.lhs, h.rhs, result_bind]
  cases (expr scopes (path ++ ["lhs"]) lhs).result with
  | error fault => rfl
  | ok l =>
    cases l with
    | none => rfl
    | some l =>
      show (if op.isUnary = true then _ else _ : Loading (Option Expr)).result = _
      rw [if_neg (by simp [hop]), result_bind]
      cases (expr scopes (path ++ ["rhs"]) rhs).result with
      | error fault => rfl
      | ok r => cases r <;> rfl

/-- Operations of the three families with the same operands. A comparison and an assignment always
have the outcome of reading both operands, and all three have one outcome unless the first operand
is left out and the second one ends in a fault. In that case the fault ends the reading of the
comparison and of the assignment, while the arithmetic operation is left out. -/
theorem same_outcome_iff (scopes : Scopes) (path : Path) (aop : ArithmeticOp) (cop : ComparisonOp)
    (sop : AssignmentOp) {lhs rhs arithmetic comparison assignment : Forest}
    (hbinary : aop.isUnary = false)
    (harithmetic : IsOperation .arithmetic aop.word lhs rhs arithmetic)
    (hcomparison : IsOperation .compare cop.word lhs rhs comparison)
    (hassignment : IsOperation .assign sop.word lhs rhs assignment) :
    let read (record : Forest) := (expr scopes path record).result
    let left := (expr scopes (path ++ ["lhs"]) lhs).result
    let right := (expr scopes (path ++ ["rhs"]) rhs).result
    (read comparison = (Outcome.ofBoth left right).result (.compare cop) ∧
      read assignment = (Outcome.ofBoth left right).result (.assign sop)) ∧
    ((∃ o : Outcome, read arithmetic = o.result (.binary aop) ∧
        read comparison = o.result (.compare cop) ∧ read assignment = o.result (.assign sop)) ↔
      ¬(left = .ok none ∧ ∃ fault, right = .error fault)) ∧
    ∀ fault, left = .ok none → right = .error fault →
      read arithmetic = .ok none ∧ read comparison = .error fault ∧
        read assignment = .error fault := by
  intro read left right
  have ha : read arithmetic = (Outcome.ofFirst left right).result (.binary aop) :=
    result_arithmetic hbinary harithmetic
  have hc : read comparison = (Outcome.ofBoth left right).result (.compare cop) :=
    result_compare hcomparison
  have hs : read assignment = (Outcome.ofBoth left right).result (.assign sop) :=
    result_assign hassignment
  refine ⟨⟨hc, hs⟩, ?_, ?_⟩
  · rw [← Outcome.ofFirst_eq_ofBoth_iff]
    constructor
    · rintro ⟨o, ho, ho', -⟩
      have hfirst : Outcome.ofFirst left right = o :=
        Outcome.result_injective (fun _ _ _ _ h => (Expr.binary.inj h).2) (ha.symm.trans ho)
      have hboth : Outcome.ofBoth left right = o :=
        Outcome.result_injective (fun _ _ _ _ h => (Expr.compare.inj h).2) (hc.symm.trans ho')
      rw [hfirst, hboth]
    · intro h
      rw [h] at ha
      exact ⟨_, ha, hc, hs⟩
  · intro fault hleft hright
    rw [ha, hc, hs, hleft, hright]
    exact ⟨rfl, rfl, rfl⟩

/-- The first operand is of an unknown kind and the second one refers to nothing. A module is loaded
without the addition, but not with the comparison or the assignment in its place. -/
theorem outcomes_differ_of_unknown_operand :
    let field (key word : String) := Forest.leaf key (.string word)
    let lhs := field "type" "call-expr"
    let rhs := field "type" "ident-expr" ++ field "ref" "x"
    let record (tag word : String) :=
      field "type" tag ++ .branch "lhs" lhs ++ field "op" word ++ .branch "rhs" rhs
    let addition := record "arith-expr" "add"
    let comparison := record "comp-expr" "lessthan"
    let assignment := record "assign-expr" "addequal"
    let t (record : Forest) := Forest.branch "module" (field "name" "m" ++ .branch "funcs"
      (.branch "f0" (field "name" "f" ++ field "return-type" "void" ++ .branch "body"
        (.branch "s0" (field "type" "expr-stmt" ++ .branch "expr" record)))))
    let path : Path := ["module", "funcs", "f0", "body", "s0", "expr"]
    let fault := RecordFault.unresolved (path ++ ["rhs", "ref"]) "x" .unknownClass
    ((expr {} path addition).result = .ok none ∧ (expr {} path comparison).result = .error fault ∧
      (expr {} path assignment).result = .error fault) ∧
    (Module.load (t addition)).result = .ok { name := "m", functions := ⟨#[
      { name := "f", returns := { name := "void" } }]⟩ } ∧
    (Module.load (t comparison)).result = .error fault ∧
    (Module.load (t assignment)).result = .error fault := by
  intro field lhs rhs record addition comparison assignment t path fault
  have haddition : IsOperation .arithmetic ArithmeticOp.add.word lhs rhs addition :=
    ⟨rfl, rfl, rfl, rfl⟩
  have hcomparison : IsOperation .compare ComparisonOp.less.word lhs rhs comparison :=
    ⟨rfl, rfl, rfl, rfl⟩
  have hassignment : IsOperation .assign AssignmentOp.add.word lhs rhs assignment :=
    ⟨rfl, rfl, rfl, rfl⟩
  have hleft : (expr {} (path ++ ["lhs"]) lhs).result = .ok none := by cbv
  have hright : (expr {} (path ++ ["rhs"]) rhs).result = .error fault := by cbv
  have h := same_outcome_iff {} path .add .less .add rfl haddition hcomparison hassignment
  exact ⟨h.2.2 fault hleft hright, by cbv, by cbv, by cbv⟩

end

end Load

end KeyedIR
