import KeyedIR.Proofs.Record.Tasks
/-! # Where names are looked up

Each name that is read is looked up by one of the tasks that loading comes to
(`Load.Reads.lookedUp`). What that task is read as refers to the declaration that was found for the
name (`Load.Task.LooksUp.refersTo`).
-/

namespace KeyedIR

set_option autoImplicit false

open Logged Loading

/-- The fragment is a reference to the declaration, or gives it its first value. -/
def Fragment.RefersTo (target : Ref) : Fragment → Prop
  | .expr e => e = .ref target
  | .stmt s => ∃ v value, s = .init v value ∧ v.toRef = target
  | .slot _ | .stmts _ => False

namespace Load

/-- The record of the task has the name, as the target of an expression or as the variable that gets
its first value. -/
def Task.LooksUp (r : Reading) : Task → Prop
  | expr scopes path children => ∃ name, ExprKind path children .ref ∧
    (string path children "ref").result = .ok name ∧
    r = ⟨path ++ ["ref"], name, .reference, scopes.resolve .reference name⟩
  | stmt scopes path children => ∃ name, StmtKind path children .init ∧
    (string path children "var").result = .ok name ∧
    r = ⟨path ++ ["var"], name, .target, scopes.resolve .target name⟩
  | slot .. | stmts .. => False

theorem find_of_string {α : Type} {find : String → Except ResolutionFault α} {path : Path}
    {children : Forest} {key name : String} {target : α}
    (hname : (string path children key).result = .ok name)
    (hread : (reference find path children key).result = .ok target) : find name = .ok target := by
  obtain ⟨name', hname', hread⟩ := bind_ok_iff.1 hread
  cases hname.symm.trans hname'
  split at hread <;> cases hread
  assumption

theorem Task.LooksUp.refersTo {task : Task} {r : Reading} {fragment : Fragment} {target : Ref}
    (h : task.LooksUp r) (hread : task.read = .ok (some fragment)) (hfound : r.found = .ok target) :
    fragment.RefersTo target := by
  cases task with
  | expr scopes path children =>
    obtain ⟨name, ⟨word, hword, htag⟩, hname, rfl⟩ := h
    obtain ⟨x, hx, hfragment⟩ := exists_of_map_ok hread
    obtain ⟨e, rfl, rfl⟩ := Option.map_eq_some_iff.1 hfragment
    unfold Load.expr at hx
    rw [dif_neg (ne_nil_of_string hword), bind_of_ok hword, htag] at hx
    obtain ⟨target', htarget, hx⟩ := bind_ok_iff.1 hx
    cases hx
    cases (find_of_string hname htarget).symm.trans hfound
    rfl
  | stmt scopes path children =>
    obtain ⟨name, ⟨word, hword, htag⟩, hname, rfl⟩ := h
    obtain ⟨x, hx, hfragment⟩ := exists_of_map_ok hread
    obtain ⟨s, rfl, rfl⟩ := Option.map_eq_some_iff.1 hfragment
    unfold Load.stmt at hx
    rw [dif_neg (ne_nil_of_string hword), bind_of_ok hword, htag] at hx
    obtain ⟨-, -, hx⟩ := bind_ok_iff.1 hx
    obtain ⟨v, hv, hx⟩ := bind_ok_iff.1 hx
    obtain ⟨value, -, hx⟩ := bind_ok_iff.1 hx
    obtain ⟨value, -, rfl⟩ := Option.map_eq_some_iff.1 (Except.ok.inj hx)
    have hresolve : VarRef.toRef <$> scopes.variable? name = .ok target := hfound
    rw [find_of_string hname hv] at hresolve
    exact ⟨v, value, rfl, Except.ok.inj hresolve⟩
  | slot | stmts => exact h.elim

/-! ## Expressions and statements -/

section

variable {scopes : Scopes} {path : Path} {children : Forest} {r : Reading}

theorem ExprKind.exprTag?_eq {tag : ExprTag} (h : ExprKind path children tag) :
    exprTag? path children = some tag := by
  obtain ⟨word, hword, htag⟩ := h
  rw [exprTag?, hword]
  exact htag

theorem StmtKind.stmtTag?_eq {tag : StmtTag} (h : StmtKind path children tag) :
    stmtTag? path children = some tag := by
  obtain ⟨word, hword, htag⟩ := h
  rw [stmtTag?, hword]
  exact htag

/-- Reading the first operand is part of reading an expression with an operator. -/
theorem OperatorRead.lhs_mem_parts {needsFirst : Bool} (h : OperatorRead path children needsFirst) :
    Task.operand scopes path children "lhs" ∈ (Task.expr scopes path children).parts := by
  cases h with
  | arithmetic htag hop =>
    simp only [Task.parts, htag.exprTag?_eq]
    split <;> exact List.mem_cons_self
  | compare htag | assign htag =>
    simp only [Task.parts, htag.exprTag?_eq]
    exact List.mem_cons_self

theorem ExprReads.slot_comesTo {key : String}
    (h : ExprReads scopes (path ++ [key]) (children.child key).children r) :
    (Task.slot scopes path children key).ComesTo (.operand scopes path children key) := by
  refine .single ?_
  rw [Task.parts, if_pos h.isPresent]
  exact List.mem_singleton_self _

/-- Reading the second operand too, if the first one is not left out. -/
theorem OperatorRead.comesTo_rhs {needsFirst : Bool} {lhs : Option Expr}
    (h : OperatorRead path children needsFirst)
    (hlhs : (Load.expr scopes (path ++ ["lhs"]) (children.child "lhs").children).result = .ok lhs)
    (hfirst : needsFirst = true → lhs ≠ none)
    (hr : ExprReads scopes (path ++ ["rhs"]) (children.child "rhs").children r) :
    (Task.expr scopes path children).ComesTo (.operand scopes path children "rhs") := by
  cases h with
  | @arithmetic op htag hop =>
    obtain ⟨lhs, rfl⟩ := Option.ne_none_iff_exists'.1 (hfirst rfl)
    have hparts : (Task.expr scopes path children).parts =
        [Task.operand scopes path children "lhs", if op.isUnary
          then .slot scopes path children "rhs" else .operand scopes path children "rhs"] := by
      simp only [Task.parts, htag.exprTag?_eq, hop, hlhs]
    by_cases hunary : op.isUnary = true
    · refine .head ?_ hr.slot_comesTo
      rw [hparts, if_pos hunary]
      exact List.mem_cons_of_mem _ List.mem_cons_self
    · refine .single ?_
      rw [hparts, if_neg hunary]
      exact List.mem_cons_of_mem _ List.mem_cons_self
  | compare htag | assign htag =>
    refine .single ?_
    simp only [Task.parts, htag.exprTag?_eq]
    exact List.mem_cons_of_mem _ List.mem_cons_self

theorem ExprReads.lookedUp (h : ExprReads scopes path children r) :
    ∃ task, (Task.expr scopes path children).ComesTo task ∧ task.LooksUp r := by
  induction h with
  | reference htag hname => exact ⟨_, .refl, _, htag, hname, rfl⟩
  | lhs hop _ ih =>
    obtain ⟨task, hcomes, hlooks⟩ := ih
    exact ⟨task, hcomes.head hop.lhs_mem_parts, hlooks⟩
  | rhs hop hlhs hfirst h ih =>
    obtain ⟨task, hcomes, hlooks⟩ := ih
    exact ⟨task, (hop.comesTo_rhs hlhs hfirst h).trans hcomes, hlooks⟩

theorem ExprReads.lookedUp_slot {key : String}
    (h : ExprReads scopes (path ++ [key]) (children.child key).children r) :
    ∃ task, (Task.slot scopes path children key).ComesTo task ∧ task.LooksUp r := by
  obtain ⟨task, hcomes, hlooks⟩ := h.lookedUp
  exact ⟨task, h.slot_comesTo.trans hcomes, hlooks⟩

theorem ReachesStmt.mem_parts {e : Entry} {key : String} (h : ReachesStmt scopes path e key) :
    Task.stmt scopes (path ++ [key]) (e.children.child key).children ∈
      (Task.stmts scopes path e).parts := by
  obtain ⟨-, before, after, hkeys, -⟩ := h
  refine List.mem_map.2 ⟨key, ?_, rfl⟩
  rw [hkeys]
  exact List.mem_append_right _ List.mem_cons_self

theorem StmtReads.lookedUp (h : StmtReads scopes path children r) :
    ∃ task, (Task.stmt scopes path children).ComesTo task ∧ task.LooksUp r := by
  induction h with
  | target htag hname => exact ⟨_, .refl, _, htag, hname, rfl⟩
  | @value path children r v htag _ h | @eval path children r htag h =>
    obtain ⟨task, hcomes, hlooks⟩ := h.lookedUp
    refine ⟨task, hcomes.head ?_, hlooks⟩
    simp only [Task.parts, htag.stmtTag?_eq, List.mem_singleton]
  | start htag hkey _ ih =>
    obtain ⟨task, hcomes, hlooks⟩ := ih
    refine ⟨task, .head ?_ (hcomes.head hkey.mem_parts), hlooks⟩
    simp [Task.parts, htag.stmtTag?_eq]
  | @slot path children r key earlier later htag _ hkey _ h =>
    obtain ⟨task, hcomes, hlooks⟩ := h.lookedUp_slot
    refine ⟨task, hcomes.head ?_, hlooks⟩
    have hmem : key ∈ ["expr1", "expr2", "expr3"] := by simp [hkey]
    simp only [List.mem_cons, List.not_mem_nil, or_false] at hmem
    rcases hmem with rfl | rfl | rfl <;> simp [Task.parts, htag.stmtTag?_eq]
  | body htag _ _ hkey _ ih =>
    obtain ⟨task, hcomes, hlooks⟩ := ih
    refine ⟨task, .head ?_ (hcomes.head hkey.mem_parts), hlooks⟩
    simp [Task.parts, htag.stmtTag?_eq]
  | ret htag h =>
    obtain ⟨task, hcomes, hlooks⟩ := h.lookedUp_slot
    refine ⟨task, hcomes.head ?_, hlooks⟩
    simp only [Task.parts, htag.stmtTag?_eq, List.mem_singleton]

end

/-! ## Modules -/

theorem FunctionReads.lookedUp {globals : Scope} {path : Path} {children : Forest}
    {part : Option Nat} {r : Reading} (h : FunctionReads globals path children part r) :
    ∃ start, FunctionStarts globals path children part start ∧
      ∃ task, start.ComesTo task ∧ task.LooksUp r := by
  cases h with
  | localVar _ hparameters hkey hlocals h =>
    exact ⟨_, .localVar hparameters hkey hlocals, h.init.lookedUp_slot⟩
  | body _ hparameters hlocals h =>
    obtain ⟨key, hkey, h⟩ := h
    obtain ⟨task, hcomes, hlooks⟩ := h.lookedUp
    exact ⟨_, .body hparameters hlocals, task, hcomes.head hkey.mem_parts, hlooks⟩

theorem Reads.lookedUp {t : Forest} {place : Place} {r : Reading} (h : Reads t place r) :
    ∃ task, VisitsAt t place task ∧ task.LooksUp r := by
  cases h with
  | global _ hkey hknown h =>
    obtain ⟨task, hcomes, hlooks⟩ := h.init.lookedUp_slot
    exact ⟨task, ⟨_, .global hkey hknown, hcomes⟩, hlooks⟩
  | function _ hglobals hkey hknown h =>
    obtain ⟨start, hstart, task, hcomes, hlooks⟩ := h.lookedUp
    exact ⟨task, ⟨start, .function hglobals hkey hknown hstart, hcomes⟩, hlooks⟩

end Load

end KeyedIR
