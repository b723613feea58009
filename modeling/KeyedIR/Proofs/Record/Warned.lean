import KeyedIR.Proofs.Record.Logs
import KeyedIR.Proofs.Record.Tasks
/-! # Warnings of what is left out

A record of an unknown kind is read as nothing, and so is one that cannot do without it. This ends
at a list of statements, which gets shorter, or at an expression that need not be there. So reading
a record warns that something is skipped exactly if the record is read as nothing or something below
it is not read in full. What is read consists of what its parts are read as (`Load.settled`).
-/

namespace KeyedIR

set_option autoImplicit false

open Logged Loading

/-- A warning that something is skipped. -/
def Event.Skips (e : Event) : Prop := e.level = .warn ∧ "Skipping".toList <+: e.message.toList

namespace Load

namespace Task

/-- Reading the task warns that something is skipped. -/
def Warns : Task → Prop
  | expr scopes path children => Tells Event.Skips (Load.expr scopes path children)
  | slot scopes path children key => Tells Event.Skips (Load.slot scopes path children key)
  | stmt scopes path children => Tells Event.Skips (Load.stmt scopes path children)
  | stmts scopes path e => Tells Event.Skips (Load.stmts scopes path e)

/-- Something is stored but not read: an expression that is there is read as empty, or a list has
fewer statements than keys. -/
def LeavesOut : Task → Prop
  | slot scopes path children key => (children.child key).isPresent = true ∧
    (Load.slot scopes path children key).result = .ok none
  | stmts scopes path e => ∃ l, (Load.stmts scopes path e).result = .ok l ∧
    l.length < e.children.keys.length
  | expr .. | stmt .. => False

def Loses (task : Task) : Prop := ∃ reached, task.ComesTo reached ∧ reached.LeavesOut

theorem loses_iff (task : Task) :
    task.Loses ↔ task.LeavesOut ∨ ∃ part ∈ task.parts, part.Loses := by
  constructor
  · rintro ⟨reached, hreached, hleaves⟩
    rcases Relation.ReflTransGen.cases_head hreached with rfl | ⟨part, hpart, hreached⟩
    · exact .inl hleaves
    · exact .inr ⟨part, hpart, reached, hreached, hleaves⟩
  · rintro (hleaves | ⟨part, hpart, reached, hreached, hleaves⟩)
    · exact ⟨task, .refl, hleaves⟩
    · exact ⟨reached, .head hpart hreached, hleaves⟩

/-- How the result of reading a task is related to its parts: there was a warning exactly if the
result is nothing or the task comes to something that is not read in full; the parts have results;
and a fragment consists of theirs. -/
structure Settles (task : Task) (warned : Prop) (x : Option Fragment) : Prop where
  warns : warned ↔ x = none ∨ task.Loses
  done : ∀ part ∈ task.parts, part.Done
  made : ∀ fragment, x = some fragment → fragment.IsMadeOf (task.parts.map fragment?)

def Settled (task : Task) : Prop := ∀ x, task.read = .ok x → task.Settles task.Warns x

end Task

/-! ## Computations that warn -/

/-- A result of the computation stands in a relation to whether there was a warning, by it or by
what came before it. -/
def Reports {α : Type} (warned : Prop) (c : Loading α) (post : α → Prop → Prop) : Prop :=
  ∀ x, c.result = .ok x → post x (warned ∨ Tells Event.Skips c)

section

variable {α β : Type} {warned : Prop} {post : β → Prop → Prop}

theorem Reports.pure {x : β} (h : post x warned) : Reports warned (pure x) post := by
  intro y hy
  cases hy
  rwa [eq_false (not_tells_pure x), or_false]

theorem Reports.fail (e : RecordFault) : Reports warned (fail e) post := nofun

theorem Reports.bind {c : Loading α} {next : α → Loading β} (q : α → Prop)
    (hc : ∀ x, c.result = .ok x → (Tells Event.Skips c ↔ q x))
    (hnext : ∀ x, c.result = .ok x → Reports (warned ∨ q x) (next x) post) :
    Reports warned (c >>= next) post := by
  intro y hy
  obtain ⟨x, hx, hy⟩ := bind_ok_iff.1 hy
  rw [tells_bind hx, hc x hx, ← or_assoc]
  exact hnext x hx y hy

theorem Reports.then_pure {q : α → Prop → Prop} {c : Loading α} {f : α → β}
    (h : Reports False c q) (hpost : ∀ x warned, q x warned → post (f x) warned) :
    Reports False (c >>= fun x => Pure.pure (f x)) post := by
  intro y hy
  obtain ⟨x, hx, hy⟩ := bind_ok_iff.1 hy
  cases hy
  rw [tells_bind hx, or_iff_left (not_tells_pure _)]
  exact hpost x _ (h x hx)

/-- A computation that only reads a field warns of nothing. -/
theorem Reports.field {c : Loading α} {next : α → Loading β}
    (hc : Logs (fun e => ¬e.Skips) c)
    (hnext : ∀ x, c.result = .ok x → Reports warned (next x) post) :
    Reports warned (c >>= next) post := by
  refine .bind (fun _ => False) (fun _ _ => iff_false_intro (not_tells_iff.2 hc)) fun x hx => ?_
  rw [or_false]
  exact hnext x hx

end

/-! ## Expressions -/

theorem prefix_toList_append (s rest : String) : s.toList <+: (s ++ rest).toList := by
  rw [String.toList_append]
  exact List.prefix_append _ _

theorem skips_unsupportedExpression (word : String) (path : Path) :
    (Event.unsupportedExpression word path).Skips := by
  have hstart : "Skipping".toList <+: "Skipping expression of unsupported type `".toList := by simp
  exact ⟨rfl, hstart.trans ((prefix_toList_append _ _).trans
    ((prefix_toList_append _ _).trans (prefix_toList_append _ _)))⟩

theorem skips_unsupportedStatement (word : String) (path : Path) :
    (Event.unsupportedStatement word path).Skips := by
  have hstart : "Skipping".toList <+: "Skipping statement of unsupported type `".toList := by simp
  exact ⟨rfl, hstart.trans ((prefix_toList_append _ _).trans
    ((prefix_toList_append _ _).trans (prefix_toList_append _ _)))⟩

theorem not_skips_of_level {e : Event} (h : decide (e.level = .warn) = false) : ¬e.Skips :=
  fun hskips => of_decide_eq_false h hskips.1

theorem not_skips_of_prefix {e : Event} {start : List Char} (h : start <+: e.message.toList)
    (hstart : ¬"Skipping".toList <+: start) (hlong : "Skipping".toList.length ≤ start.length) :
    ¬e.Skips :=
  fun hskips => hstart (List.prefix_of_prefix_length_le hskips.2 h hlong)

theorem not_skips_versionDiffers (found : String) : ¬(Event.versionDiffers found).Skips := by
  have hstart : "Container was written as version ".toList <+:
      (Event.versionDiffers found).message.toList :=
    (prefix_toList_append _ _).trans ((prefix_toList_append _ _).trans (prefix_toList_append _ _))
  exact not_skips_of_prefix hstart (by simp) (by simp)

theorem not_skips_versionMissing : ¬Event.versionMissing.Skips := by
  have hstart : "Container has no usable `".toList <+: Event.versionMissing.message.toList :=
    (prefix_toList_append _ _).trans (prefix_toList_append _ _)
  exact not_skips_of_prefix hstart (by simp) (by simp)

/-- What has to be shown of a reading that goes on to read the given tasks. -/
theorem Task.settle {task : Task} {l : List Task} {xs : List (Option Fragment)}
    (hparts : task.parts = l) (hleaves : ¬task.LeavesOut)
    (hread : List.Forall₂ (fun part x => part.read = .ok x) l xs) {warned : Prop}
    {x : Option Fragment} (h : warned ↔ x = none ∨ ∃ part ∈ l, part.Loses)
    (hmade : ∀ fragment, x = some fragment → fragment.IsMadeOf xs) : task.Settles warned x := by
  subst hparts
  have hxs : task.parts.map fragment? = xs := by
    rw [← List.forall₂_eq_eq_eq, List.forall₂_map_left_iff]
    exact hread.imp fun _ _ => fragment?_of_read
  refine ⟨?_, fun part hpart => ?_, by rwa [hxs]⟩
  · rwa [task.loses_iff, or_iff_right hleaves]
  · obtain ⟨i, hi, rfl⟩ := List.getElem_of_mem hpart
    exact ⟨_, hread.get hi (hread.length_eq ▸ hi)⟩

theorem Task.settle_nil {task : Task} (hparts : task.parts = []) (hleaves : ¬task.LeavesOut)
    {warned : Prop} {x : Option Fragment} (h : warned ↔ x = none)
    (hmade : ∀ fragment, x = some fragment → fragment.IsMadeOf []) : task.Settles warned x :=
  Task.settle hparts hleaves .nil (by simpa using h) hmade

theorem Task.settled_of_reports {α : Type} {task : Task} {c : Loading (Option α)}
    {wrap : α → Fragment} (hread : task.read = Option.map wrap <$> c.result)
    (hwarns : task.Warns ↔ Tells Event.Skips c)
    (h : Reports False c fun x warned => task.Settles warned (x.map wrap)) : task.Settled := by
  intro y hy
  rw [hread] at hy
  obtain ⟨x, hx, rfl⟩ := exists_of_map_ok hy
  have hreports := h x hx
  rwa [false_or, ← hwarns] at hreports

section

variable {scopes : Scopes} {path : Path} {children : Forest} {key : String}

theorem Task.Settled.expr_iff (h : (Task.expr scopes path children).Settled)
    (x : Option Expr) (hx : (Load.expr scopes path children).result = .ok x) :
    Tells Event.Skips (Load.expr scopes path children) ↔
      x = none ∨ (Task.expr scopes path children).Loses := by
  have hwarns := (h _ (read_expr hx)).warns
  rwa [Option.map_eq_none_iff] at hwarns

theorem Task.Settled.slot_iff (h : (Task.slot scopes path children key).Settled)
    (e : Option Expr) (he : (Load.slot scopes path children key).result = .ok e) :
    Tells Event.Skips (Load.slot scopes path children key) ↔
      (Task.slot scopes path children key).Loses :=
  (h _ (read_slot he)).warns.trans (or_iff_right nofun)

theorem settled_slot (h : (Task.operand scopes path children key).Settled) :
    (Task.slot scopes path children key).Settled := by
  intro x hx
  obtain ⟨e, he, rfl⟩ := Task.exists_of_map_ok hx
  by_cases hpresent : (children.child key).isPresent = true
  · have hslot : slot scopes path children key =
        expr scopes (path ++ [key]) (children.child key).children := by
      rw [slot, whenPresent, if_pos hpresent]
    have hparts : (Task.slot scopes path children key).parts =
        [Task.operand scopes path children key] := if_pos hpresent
    rw [hslot] at he
    have hleaves : (Task.slot scopes path children key).LeavesOut ↔ e = none := by
      rw [Task.LeavesOut, hslot, he, Except.ok.injEq, and_iff_right hpresent]
    refine ⟨?_, ?_, ?_⟩
    · rw [Task.loses_iff, hparts, hleaves, Task.Warns, hslot, h.expr_iff e he]
      simp
    · rw [hparts]
      exact List.forall_mem_singleton.2 ⟨_, Task.read_expr he⟩
    · refine Fragment.made_some ?_
      rw [hparts, List.map_singleton, Task.fragment?_of_read (Task.read_expr he)]
      cases e <;> rfl
  · have hslot : slot scopes path children key = pure none := by
      rw [slot, whenPresent, if_neg hpresent]
    have hparts : (Task.slot scopes path children key).parts = [] := if_neg hpresent
    rw [hslot] at he
    cases he
    refine Task.settle_nil hparts (fun h => hpresent h.1) ?_ (Fragment.made_some rfl)
    rw [Task.Warns, hslot]
    simp [not_tells_pure]

end

theorem settled_expr (scopes : Scopes) (path : Path) (children : Forest) :
    (Task.expr scopes path children).Settled := by
  refine Task.settled_of_reports rfl Iff.rfl ?_
  unfold expr
  split
  case isTrue => exact .fail _
  case isFalse hnil =>
  have hoperand (key : String) : (Task.operand scopes path children key).Settled :=
    have := Forest.size_child_lt hnil key
    settled_expr scopes (path ++ [key]) (children.child key).children
  refine .field (logs_string _ _ _ _) fun word hword => ?_
  have hkind : exprTag? path children = ExprTag.ofWord? word := by
    rw [exprTag?, hword]
    rfl
  split
  case h_1 htag =>
    refine .bind _ (fun _ _ => tells_note) fun _ _ => .pure ?_
    refine Task.settle_nil (by simp [Task.parts, hkind, htag]) id ?_ (by simp)
    simp [skips_unsupportedExpression]
  case h_2 htag =>
    refine .field (logs_reference _ _ _ _ _) fun target _ => .pure ?_
    exact Task.settle_nil (by simp [Task.parts, hkind, htag]) id (by simp) (Fragment.made_some rfl)
  case h_3 htag =>
    refine .field (logs_int32 _ _ _) fun n _ => .pure ?_
    exact Task.settle_nil (by simp [Task.parts, hkind, htag]) id (by simp) (Fragment.made_some rfl)
  case h_4 htag =>
    refine .field (.ofExcept _) fun x _ => .pure ?_
    exact Task.settle_nil (by simp [Task.parts, hkind, htag]) id (by simp) (Fragment.made_some rfl)
  case h_5 htag =>
    refine .field (logs_operator _ _ _ _ _) fun op hop => ?_
    refine .bind _ (hoperand "lhs").expr_iff fun lhs hlhs => ?_
    cases lhs with
    | none =>
      -- The second operand is not looked at.
      have hparts : (Task.expr scopes path children).parts =
          [Task.operand scopes path children "lhs"] := by
        simp only [Task.parts, hkind, htag, hop, hlhs]
      exact .pure (Task.settle hparts id (.cons (Task.read_expr hlhs) .nil) (by simp) (by simp))
    | some lhs =>
      dsimp only
      split
      case isTrue hunary =>
        refine .bind _ (settled_slot (hoperand "rhs")).slot_iff fun rhs hrhs => ?_
        have hparts : (Task.expr scopes path children).parts =
            [Task.operand scopes path children "lhs", .slot scopes path children "rhs"] := by
          simp only [Task.parts, hkind, htag, hop, hlhs, if_pos hunary]
        have hread : List.Forall₂ (fun part x => Task.read part = .ok x)
            [Task.operand scopes path children "lhs", .slot scopes path children "rhs"]
            [some (.expr lhs), some (.slot rhs)] :=
          .cons (Task.read_expr hlhs) (.cons (Task.read_slot hrhs) .nil)
        cases rhs with
        | some rhs =>
          refine .pure (Task.settle hparts id hread (by simp) (Fragment.made_some ?_))
          simp [Fragment.IsMadeOf, Expr.fragments, hunary]
        | none => exact .pure (Task.settle hparts id hread (by simp) (Fragment.made_some rfl))
      case isFalse hbinary =>
        refine .bind _ (hoperand "rhs").expr_iff fun rhs hrhs => .pure ?_
        have hparts : (Task.expr scopes path children).parts =
            [Task.operand scopes path children "lhs", .operand scopes path children "rhs"] := by
          simp only [Task.parts, hkind, htag, hop, hlhs, if_neg hbinary]
        refine Task.settle hparts id
          (.cons (Task.read_expr hlhs) (.cons (Task.read_expr hrhs) .nil)) (by cases rhs <;> simp) ?_
        cases rhs with
        | none => simp
        | some rhs =>
          refine Fragment.made_some ?_
          simp [Fragment.IsMadeOf, Expr.fragments, hbinary]
  case h_6 htag | h_7 htag =>
    refine .field (logs_operator _ _ _ _ _) fun op hop => ?_
    refine .bind _ (hoperand "lhs").expr_iff fun lhs hlhs => ?_
    refine .bind _ (hoperand "rhs").expr_iff fun rhs hrhs => .pure ?_
    have hparts : (Task.expr scopes path children).parts =
        [Task.operand scopes path children "lhs", .operand scopes path children "rhs"] := by
      simp only [Task.parts, hkind, htag]
    refine Task.settle hparts id
      (.cons (Task.read_expr hlhs) (.cons (Task.read_expr hrhs) .nil)) ?_ ?_
    · cases lhs <;> cases rhs <;> simp
    · cases lhs <;> cases rhs <;> simp [Fragment.IsMadeOf, Expr.fragments]
termination_by children.size

/-! ## Statements -/

theorem Task.Settled.stmts_iff {scopes : Scopes} {path : Path} {e : Entry}
    (h : (Task.stmts scopes path e).Settled)
    (l : List Stmt) (hl : (Load.stmts scopes path e).result = .ok l) :
    Tells Event.Skips (Load.stmts scopes path e) ↔ (Task.stmts scopes path e).Loses :=
  (h _ (read_stmts hl)).warns.trans (or_iff_right nofun)

/-- A list of statements that is read has a record for each of its keys, read one after another. -/
theorem stmts_read {scopes : Scopes} {path : Path} {e : Entry} {l : List Stmt}
    (hl : (stmts scopes path e).result = .ok l) : ∃ read, (e.children.keys.mapM fun key =>
        stmt scopes (path ++ [key]) (e.children.child key).children).result = .ok read ∧
      l = read.reduceOption ∧
      (Tells Event.Skips (stmts scopes path e) ↔ Tells Event.Skips (e.children.keys.mapM fun key =>
        stmt scopes (path ++ [key]) (e.children.child key).children)) := by
  unfold stmts at hl ⊢
  split at hl
  case isTrue hnil =>
    have hkeys : e.children.keys = [] := congrArg Forest.keys hnil
    rw [hkeys, dif_pos hnil]
    split at hl
    case h_1 s hvalue =>
      split at hl
      case isTrue hmarker =>
        cases hl
        rw [if_pos hmarker]
        exact ⟨[], rfl, rfl, iff_of_false (not_tells_pure _) (not_tells_pure _)⟩
      case isFalse => cases hl
    case h_2 | h_3 => cases hl
  case isFalse hnil =>
    split at hl
    case h_1 => cases hl
    case h_2 hvalue =>
      obtain ⟨read, hread, hl⟩ := bind_ok_iff.1 hl
      cases hl
      refine ⟨read, hread, rfl, ?_⟩
      rw [dif_neg hnil, tells_bind hread, or_iff_left (not_tells_pure _)]

mutual

theorem settled_stmt (scopes : Scopes) (path : Path) (children : Forest) :
    (Task.stmt scopes path children).Settled := by
  refine Task.settled_of_reports rfl Iff.rfl ?_
  unfold stmt
  split
  case isTrue => exact .fail _
  case isFalse hnil =>
  have hexpr (key : String) : (Task.operand scopes path children key).Settled :=
    settled_expr scopes (path ++ [key]) (children.child key).children
  have hslot (key : String) : (Task.slot scopes path children key).Settled :=
    settled_slot (hexpr key)
  have hlist (key : String) : (Task.stmts scopes (path ++ [key]) (children.child key)).Settled :=
    have := Forest.size_child_lt hnil key
    settled_stmts scopes (path ++ [key]) (children.child key)
  refine .field (logs_string _ _ _ _) fun word hword => ?_
  have hkind : stmtTag? path children = StmtTag.ofWord? word := by
    rw [stmtTag?, hword]
    rfl
  split
  case h_1 htag =>
    refine .bind _ (fun _ _ => tells_note) fun _ _ => .pure ?_
    refine Task.settle_nil (by simp [Task.parts, hkind, htag]) id ?_ (by simp)
    simp [skips_unsupportedStatement]
  case h_2 tag htag =>
    refine .field (.note (not_skips_of_level rfl)) fun _ _ => ?_
    cases tag with
    | init =>
      refine .field (logs_reference _ _ _ _ _) fun target _ => ?_
      refine .bind _ (hexpr "expr").expr_iff fun value hvalue => .pure ?_
      have hparts : (Task.stmt scopes path children).parts =
          [Task.operand scopes path children "expr"] := by
        simp only [Task.parts, hkind, htag]
      refine Task.settle hparts id (.cons (Task.read_expr hvalue) .nil) (by simp) ?_
      cases value <;> simp [Fragment.IsMadeOf, Stmt.fragments]
    | eval =>
      refine .bind _ (hexpr "expr").expr_iff fun e he => .pure ?_
      have hparts : (Task.stmt scopes path children).parts =
          [Task.operand scopes path children "expr"] := by
        simp only [Task.parts, hkind, htag]
      refine Task.settle hparts id (.cons (Task.read_expr he) .nil) (by simp) ?_
      cases e <;> simp [Fragment.IsMadeOf, Stmt.fragments]
    | loop =>
      refine .bind _ (hlist "decl1").stmts_iff fun start hstart => ?_
      refine .bind _ (hslot "expr1").slot_iff fun cond hcond => ?_
      refine .bind _ (hslot "expr2").slot_iff fun test htest => ?_
      refine .bind _ (hslot "expr3").slot_iff fun step hstep => ?_
      refine .bind _ (hlist "body").stmts_iff fun body hbody => .pure ?_
      have hparts : (Task.stmt scopes path children).parts =
          [.stmts scopes (path ++ ["decl1"]) (children.child "decl1"),
            .slot scopes path children "expr1", .slot scopes path children "expr2",
            .slot scopes path children "expr3",
            .stmts scopes (path ++ ["body"]) (children.child "body")] := by
        simp only [Task.parts, hkind, htag]
      exact Task.settle hparts id
        (.cons (Task.read_stmts hstart) (.cons (Task.read_slot hcond)
          (.cons (Task.read_slot htest) (.cons (Task.read_slot hstep)
            (.cons (Task.read_stmts hbody) .nil)))))
        (by simp [or_assoc]) (Fragment.made_some rfl)
    | ret =>
      refine .bind _ (hslot "expr").slot_iff fun value hvalue => .pure ?_
      have hparts : (Task.stmt scopes path children).parts =
          [.slot scopes path children "expr"] := by
        simp only [Task.parts, hkind, htag]
      exact Task.settle hparts id (.cons (Task.read_slot hvalue) .nil) (by simp)
        (Fragment.made_some rfl)
termination_by 2 * children.size

theorem settled_stmts (scopes : Scopes) (path : Path) (e : Entry) :
    (Task.stmts scopes path e).Settled := by
  intro x hx
  obtain ⟨l, hl, rfl⟩ := Task.exists_of_map_ok hx
  obtain ⟨read, hread, rfl, hwarns⟩ := stmts_read hl
  have hstmt (key : String) (hkey : key ∈ e.children.keys) :
      (Task.stmt scopes (path ++ [key]) (e.children.child key).children).Settled := by
    have hnil : e.children ≠ .nil := by
      intro hnil
      rw [hnil] at hkey
      cases hkey
    have := Forest.size_child_lt hnil key
    exact settled_stmt scopes (path ++ [key]) (e.children.child key).children
  have hdone := exists_of_mapM hread
  have hleaves : (Task.stmts scopes path e).LeavesOut ↔ ∃ key ∈ e.children.keys,
      (stmt scopes (path ++ [key]) (e.children.child key).children).result = .ok none := by
    rw [Task.LeavesOut, hl, ← mem_iff_of_mapM hread, ← List.reduceOption_length_lt_iff,
      (mapM_ok_iff.1 hread).length_eq]
    simp
  refine ⟨?_, List.forall_mem_map.2 fun key hkey => ?_, ?_⟩
  · rw [Task.loses_iff, Task.Warns, hwarns, tells_mapM hread, hleaves, Task.parts,
      or_iff_right (by simp)]
    simp only [List.mem_map, exists_exists_and_eq_and, ← exists_or, ← and_or_left]
    refine exists_congr fun key => and_congr_right fun hkey => ?_
    obtain ⟨s, hs⟩ := hdone key hkey
    rw [hs, Except.ok.injEq]
    have hwarns := (hstmt key hkey _ (Task.read_stmt hs)).warns
    rwa [Option.map_eq_none_iff] at hwarns
  · obtain ⟨s, hs⟩ := hdone key hkey
    exact ⟨_, Task.read_stmt hs⟩
  · have hparts : (Task.stmts scopes path e).parts.map Task.fragment? =
        read.map (Option.map .stmt) := by
      rw [← List.forall₂_eq_eq_eq, Task.parts, List.map_map, List.forall₂_map_left_iff,
        List.forall₂_map_right_iff]
      exact (mapM_ok_iff.1 hread).imp fun _ _ hs => Task.fragment?_of_read (Task.read_stmt hs)
    refine Fragment.made_some ?_
    rw [hparts, Fragment.IsMadeOf, List.reduceOption_map]
termination_by 2 * e.children.size + 1

end

theorem settled (task : Task) : task.Settled := by
  cases task with
  | expr scopes path children => exact settled_expr scopes path children
  | slot scopes path children key => exact settled_slot (settled_expr scopes _ _)
  | stmt scopes path children => exact settled_stmt scopes path children
  | stmts scopes path e => exact settled_stmts scopes path e

namespace Task

variable {task part reached : Task}

theorem Done.of_part (h : task.Done) (hpart : part ∈ task.parts) : part.Done := by
  obtain ⟨x, hx⟩ := h
  exact (settled task x hx).done part hpart

theorem Done.of_comesTo (h : task.Done) (hreached : task.ComesTo reached) : reached.Done := by
  induction hreached with
  | refl => exact h
  | tail _ hpart ih => exact ih.of_part hpart

/-- A fragment can do without a part only if that is left out of a list, or of an expression that
need not be there. -/
theorem leavesOut_of_dropped {fragment : Fragment} (hread : task.read = .ok (some fragment))
    (hpart : part ∈ task.parts) (hdropped : part.Dropped) : task.LeavesOut := by
  have hmade := (settled task _ hread).made fragment rfl
  have hnone : none ∈ task.parts.map fragment? :=
    List.mem_map.2 ⟨part, hpart, fragment?_of_read hdropped⟩
  cases task with
  | expr scopes path children =>
    obtain ⟨x, -, hx⟩ := exists_of_map_ok hread
    obtain ⟨e, -, rfl⟩ := Option.map_eq_some_iff.1 hx
    rw [Fragment.IsMadeOf] at hmade
    simp [hmade] at hnone
  | slot scopes path children key =>
    obtain ⟨e, he, hx⟩ := exists_of_map_ok hread
    cases hx
    by_cases hpresent : (children.child key).isPresent = true
    · refine ⟨hpresent, ?_⟩
      have hparts : (slot scopes path children key).parts =
          [operand scopes path children key] := if_pos hpresent
      rw [hparts] at hmade hnone
      rw [Fragment.IsMadeOf, List.map_singleton, ← List.mem_singleton.1 hnone] at hmade
      cases e with
      | none => exact he
      | some e => cases hmade
    · have hparts : (slot scopes path children key).parts = [] := if_neg hpresent
      rw [hparts] at hpart
      cases hpart
  | stmt scopes path children =>
    obtain ⟨x, -, hx⟩ := exists_of_map_ok hread
    obtain ⟨s, -, rfl⟩ := Option.map_eq_some_iff.1 hx
    rw [Fragment.IsMadeOf] at hmade
    simp [hmade] at hnone
  | stmts scopes path e =>
    obtain ⟨l, hl, hx⟩ := exists_of_map_ok hread
    cases hx
    refine ⟨l, hl, ?_⟩
    have hshorter := List.reduceOption_length_lt_iff.2 hnone
    rw [Fragment.IsMadeOf] at hmade
    rwa [hmade, List.length_map, List.length_map, parts, List.length_map] at hshorter

/-- A part that warns makes the task warn. -/
theorem Warns.of_part (h : task.Done) (hpart : part ∈ task.parts) (hwarns : part.Warns) :
    task.Warns := by
  obtain ⟨x, hx⟩ := h
  obtain ⟨y, hy⟩ := (settled task x hx).done part hpart
  refine (settled task x hx).warns.2 ?_
  rcases (settled part y hy).warns.1 hwarns with rfl | hloses
  · cases x with
    | none => exact .inl rfl
    | some fragment => exact .inr (task.loses_iff.2 (.inl (leavesOut_of_dropped hx hpart hy)))
  · exact .inr (task.loses_iff.2 (.inr ⟨part, hpart, hloses⟩))

theorem Warns.of_comesTo (h : task.Done) (hreached : task.ComesTo reached)
    (hwarns : reached.Warns) : task.Warns := by
  induction hreached using Relation.ReflTransGen.head_induction_on with
  | refl => exact hwarns
  | head hpart hcomes ih => exact .of_part h hpart (ih (h.of_part hpart))

end Task

end Load

end KeyedIR
