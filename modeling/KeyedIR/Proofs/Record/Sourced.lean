import KeyedIR.Program.Syntax
import KeyedIR.Proofs.Record.Readings
/-! # References come from names

Each reference of an expression or a statement that was read is what was found for the name that is
stored where the reference stands, and if the reading ends in a name that stands for nothing, that
is a name that was read and for which nothing was found. So no name is looked up but those that
`Load.ExprReads` and `Load.StmtReads` speak of.
-/

namespace KeyedIR

set_option autoImplicit false

open Logged Loading

/-! ## Where references stand -/

/-- Each reference of an expression is allowed at the path of its name, if the expression is stored
at a path. -/
def Expr.RefsAt (allowed : Path → Ref → Prop) : Expr → Path → Prop
  | .ref target, path => allowed (path ++ ["ref"]) target
  | .int _, _ | .float _, _ => True
  | .unary _ operand, path => operand.RefsAt allowed (path ++ ["lhs"])
  | .binary _ lhs rhs, path | .compare _ lhs rhs, path | .assign _ lhs rhs, path =>
    lhs.RefsAt allowed (path ++ ["lhs"]) ∧ rhs.RefsAt allowed (path ++ ["rhs"])

def Expr.SlotRefsAt (allowed : Path → Ref → Prop) (e : Option Expr) (path : Path) : Prop :=
  ∀ e' ∈ e, e'.RefsAt allowed path

mutual

/-- Each reference of a statement is allowed at the path of its name. -/
def Stmt.RefsAt (allowed : Path → Ref → Prop) : Stmt → Path → Prop
  | .init target value, path =>
    allowed (path ++ ["var"]) target.toRef ∧ value.RefsAt allowed (path ++ ["expr"])
  | .eval e, path => e.RefsAt allowed (path ++ ["expr"])
  | .loop start cond test step body, path =>
    Stmt.ListRefsAt allowed start (path ++ ["decl1"]) ∧
      Expr.SlotRefsAt allowed cond (path ++ ["expr1"]) ∧
      Expr.SlotRefsAt allowed test (path ++ ["expr2"]) ∧
      Expr.SlotRefsAt allowed step (path ++ ["expr3"]) ∧
      Stmt.ListRefsAt allowed body (path ++ ["body"])
  | .ret value, path => Expr.SlotRefsAt allowed value (path ++ ["expr"])

/-- The same for the statements of a list, each of which is stored at some key. -/
def Stmt.ListRefsAt (allowed : Path → Ref → Prop) : List Stmt → Path → Prop
  | [], _ => True
  | s :: rest, path => (∃ key, s.RefsAt allowed (path ++ [key])) ∧ Stmt.ListRefsAt allowed rest path

end

theorem Stmt.listRefsAt_of_forall {allowed : Path → Ref → Prop} {path : Path} {l : List Stmt}
    (h : ∀ s ∈ l, ∃ key, s.RefsAt allowed (path ++ [key])) : Stmt.ListRefsAt allowed l path := by
  induction l with
  | nil => trivial
  | cons s rest ih =>
    obtain ⟨hs, hrest⟩ := List.forall_mem_cons.1 h
    exact And.intro hs (ih hrest)

namespace Load

/-! ## Computations that look up names -/

/-- A result of the computation has a property, and if the computation ends in a name that stands
for nothing, that name is one of the readings. -/
structure Traced {α : Type} (R : Reading → Prop) (P : α → Prop) (c : Loading α) : Prop where
  result : ∀ x, c.result = .ok x → P x
  fault : ∀ path name reason, c.result = .error (.unresolved path name reason) →
    ∃ r, R r ∧ r.path = path ∧ r.name = name ∧ r.found = .error reason

/-- What is read is of one kind, and what is found for it is allowed at its path. -/
def Admits (R : Reading → Prop) (allowed : Path → Ref → Prop) (reads : Reading → Prop) : Prop :=
  ∀ r, reads r → R r ∧ ∀ target, r.found = .ok target → allowed r.path target

section

variable {α β σ : Type} {R : Reading → Prop} {allowed : Path → Ref → Prop} {P : α → Prop}
  {Q : β → Prop}

theorem Traced.pure {x : α} (hx : P x) : Traced R P (pure x) where
  result := by
    intro y hy
    cases hy
    exact hx
  fault := nofun

theorem Traced.fail {e : RecordFault} (he : ∀ path name reason, e ≠ .unresolved path name reason) :
    Traced R P (fail e) where
  result := nofun
  fault path name reason h := absurd (Except.error.inj h) (he path name reason)

theorem Traced.bind {c : Loading α} {next : α → Loading β} (hc : Traced R P c)
    (hnext : ∀ x, c.result = .ok x → P x → Traced R Q (next x)) : Traced R Q (c >>= next) := by
  cases hresult : c.result with
  | ok x =>
    have hx := hnext x hresult (hc.result x hresult)
    exact ⟨fun y hy => hx.result y ((bind_of_ok hresult).symm.trans hy),
      fun path name reason h => hx.fault path name reason ((bind_of_ok hresult).symm.trans h)⟩
  | error e =>
    have hbind : (c >>= next).result = .error e := bind_of_error hresult
    refine ⟨fun y hy => ?_, fun path name reason h => ?_⟩
    · rw [hbind] at hy
      cases hy
    · rw [hbind] at h
      cases h
      exact hc.fault path name reason hresult

/-- Lists of computations, each of which takes place after those before it had results. -/
theorem Traced.mapM {f : α → Loading β} {xs : List α}
    (h : ∀ before x after, xs = before ++ x :: after →
      (∀ y ∈ before, ∃ z, (f y).result = .ok z) → Traced R Q (f x)) :
    Traced R (fun ys => ∀ y ∈ ys, Q y) (xs.mapM f) := by
  induction xs with
  | nil => exact .pure nofun
  | cons x xs ih =>
    rw [List.mapM_cons]
    refine .bind (h [] x xs rfl nofun) fun y hy hQ => ?_
    refine .bind (ih fun before x' after hxs hbefore => ?_) fun ys _ hys => ?_
    · refine h (x :: before) x' after (congrArg (x :: ·) hxs) ?_
      exact List.forall_mem_cons.2 ⟨⟨y, hy⟩, hbefore⟩
    · exact .pure (List.forall_mem_cons.2 ⟨hQ, hys⟩)

/-- Folds, with what is known after a number of steps. -/
theorem Traced.foldlM {step : σ → α → Loading σ} {xs : List α} {s : σ} (known : Nat → σ → Prop)
    (h : ∀ i x s', xs[i]? = some x → ((xs.take i).foldlM step s).result = .ok s' → known i s' →
      Traced R (known (i + 1)) (step s' x)) (hs : known 0 s) :
    Traced R (known xs.length) (xs.foldlM step s) := by
  induction xs using List.reverseRecOn with
  | nil => exact .pure hs
  | append_singleton xs x ih =>
    rw [List.foldlM_append, List.length_append]
    refine .bind (ih fun i x' s' hx' hs' => ?_) fun s' hs' hknown => ?_
    · have hi := (List.getElem?_eq_some_iff.1 hx').1
      refine h i x' s' (by rwa [List.getElem?_append_left hi]) ?_
      rwa [List.take_append_of_le_length (Nat.le_of_lt hi)]
    · rw [List.foldlM_cons]
      refine .bind (h xs.length x s' List.getElem?_concat_length ?_ hknown) fun s'' _ hs'' => ?_
      · rwa [List.take_left' rfl]
      · exact .pure hs''

/-! ## Values -/

/-- A computation in which no name is looked up. -/
theorem Traced.of_ne {c : Loading α}
    (h : ∀ path name reason, c.result ≠ .error (.unresolved path name reason)) :
    Traced R (fun _ => True) c :=
  ⟨fun _ _ => trivial, fun path name reason hreason => absurd hreason (h path name reason)⟩

theorem traced_ofAccess (r : Except AccessError α) :
    Traced R (fun _ => True) (ofAccess r) := by
  refine .of_ne fun path name reason h => ?_
  cases r <;> cases h

theorem traced_string (path : Path) (children : Forest) (key : String) :
    Traced R (fun _ => True) (string path children key) := traced_ofAccess _

theorem traced_operator (family : OperatorFamily) (ofWord? : String → Option α) (path : Path)
    (children : Forest) : Traced R (fun _ => True) (operator family ofWord? path children) := by
  refine .bind (traced_string ..) fun word _ _ => ?_
  split
  · exact .pure trivial
  · exact .fail (by simp)

theorem traced_flag (path : Path) (children : Forest) (key : String) :
    Traced R (fun _ => True) (flag path children key) := by
  unfold flag
  dsimp only
  split
  · exact .pure trivial
  · exact .bind (traced_ofAccess _) fun _ _ _ => .pure trivial

theorem traced_int32 (path : Path) (children : Forest) :
    Traced R (fun _ => True) (int32 path children) := by
  refine .bind (traced_ofAccess _) fun n _ _ => ?_
  split
  · exact .pure trivial
  · exact .fail (by simp)

theorem traced_note (e : Event) : Traced R (fun _ => True) (note e) := .of_ne nofun

theorem traced_reference {reads : Reading → Prop} (h : Admits R allowed reads)
    {find : String → Except ResolutionFault α} (toRef : α → Ref) (use : Use)
    {path : Path} {children : Forest} {key : String}
    (hread : ∀ name, (string path children key).result = .ok name →
      reads ⟨path ++ [key], name, use, toRef <$> find name⟩) :
    Traced R (fun target => allowed (path ++ [key]) (toRef target))
      (reference find path children key) := by
  refine .bind (traced_string ..) fun name hname _ => ?_
  obtain ⟨hr, htarget⟩ := h _ (hread name hname)
  cases hfind : find name with
  | ok target =>
    rw [hfind] at htarget
    exact .pure (htarget (toRef target) rfl)
  | error reason =>
    refine ⟨nofun, fun path' name' reason' hreason => ?_⟩
    cases hreason
    exact ⟨_, hr, rfl, rfl, by rw [hfind]; rfl⟩

end

/-! ## Expressions and statements -/

variable {scopes : Scopes} {R : Reading → Prop} {allowed : Path → Ref → Prop}

/-- An expression of two operands is left out if one of them is. -/
theorem slotRefsAt_both {make : Expr → Expr → Expr} {path : Path} {lhs rhs : Option Expr}
    (hmake : ∀ l r, l.RefsAt allowed (path ++ ["lhs"]) → r.RefsAt allowed (path ++ ["rhs"]) →
      (make l r).RefsAt allowed path)
    (hl : Expr.SlotRefsAt allowed lhs (path ++ ["lhs"]))
    (hr : Expr.SlotRefsAt allowed rhs (path ++ ["rhs"])) :
    Expr.SlotRefsAt allowed (lhs.bind fun l => rhs.map (make l)) path := by
  intro e he
  obtain ⟨l, rfl, he⟩ := Option.bind_eq_some_iff.1 he
  obtain ⟨r, rfl, rfl⟩ := Option.map_eq_some_iff.1 he
  exact hmake l r (hl l rfl) (hr r rfl)

theorem slotRefsAt_none {path : Path} : Expr.SlotRefsAt allowed none path := by
  intro e he
  cases he

theorem slotRefsAt_some {e : Expr} {path : Path} (h : e.RefsAt allowed path) :
    Expr.SlotRefsAt allowed (some e) path := by
  intro e' he
  cases he
  exact h

theorem traced_of_expr {path : Path} {children : Forest}
    (h : Admits R allowed (ExprReads scopes path children)) :
    Traced R (Expr.SlotRefsAt allowed · path) (expr scopes path children) := by
  unfold expr
  split
  case isTrue => exact .fail (by simp)
  case isFalse =>
    refine .bind (traced_string ..) fun word hword _ => ?_
    have hkind {tag : ExprTag} (htag : ExprTag.ofWord? word = some tag) :
        ExprKind path children tag := ⟨word, hword, htag⟩
    split
    case h_1 => exact .bind (traced_note _) fun _ _ _ => .pure slotRefsAt_none
    case h_2 htag =>
      refine .bind (traced_reference h id .reference fun name hname => ?_)
        fun target _ htarget => .pure (slotRefsAt_some htarget)
      rw [id_map]
      exact .reference (hkind htag) hname
    case h_3 =>
      exact .bind (traced_int32 ..) fun n _ _ => .pure (slotRefsAt_some trivial)
    case h_4 =>
      exact .bind (traced_ofAccess _) fun x _ _ => .pure (slotRefsAt_some trivial)
    case h_5 htag =>
      refine .bind (traced_operator ..) fun op hop _ => ?_
      have hread : OperatorRead path children true := .arithmetic (hkind htag) hop
      refine .bind (traced_of_expr fun r hr => h r (.lhs hread hr)) fun lhs hlhs hl => ?_
      cases lhs with
      | none => exact .pure slotRefsAt_none
      | some lhs =>
        have hrhs : Traced R (Expr.SlotRefsAt allowed · (path ++ ["rhs"]))
            (expr scopes (path ++ ["rhs"]) (children.child "rhs").children) :=
          traced_of_expr fun r hr => h r (.rhs hread hlhs (by simp) hr)
        dsimp only
        split
        · have hslot : Traced R (Expr.SlotRefsAt allowed · (path ++ ["rhs"]))
              (whenPresent (children.child "rhs").isPresent
                (expr scopes (path ++ ["rhs"]) (children.child "rhs").children)) := by
            unfold whenPresent
            split
            · exact hrhs
            · exact .pure slotRefsAt_none
          refine .bind hslot fun rhs _ hr => ?_
          cases rhs with
          | some rhs => exact .pure (slotRefsAt_some (And.intro (hl lhs rfl) (hr rhs rfl)))
          | none => exact .pure (slotRefsAt_some (hl lhs rfl))
        · refine .bind hrhs fun rhs _ hr => .pure ?_
          exact slotRefsAt_both (fun _ _ => And.intro) hl hr
    case h_6 htag =>
      refine .bind (traced_operator ..) fun op hop _ => ?_
      have hread : OperatorRead path children false := .compare (hkind htag) hop
      refine .bind (traced_of_expr fun r hr => h r (.lhs hread hr)) fun lhs hlhs hl => ?_
      refine .bind (traced_of_expr fun r hr => h r (.rhs hread hlhs (by simp) hr))
        fun rhs _ hr => .pure ?_
      exact slotRefsAt_both (fun _ _ => And.intro) hl hr
    case h_7 htag =>
      refine .bind (traced_operator ..) fun op hop _ => ?_
      have hread : OperatorRead path children false := .assign (hkind htag) hop
      refine .bind (traced_of_expr fun r hr => h r (.lhs hread hr)) fun lhs hlhs hl => ?_
      refine .bind (traced_of_expr fun r hr => h r (.rhs hread hlhs (by simp) hr))
        fun rhs _ hr => .pure ?_
      exact slotRefsAt_both (fun _ _ => And.intro) hl hr
termination_by children.size
decreasing_by all_goals exact Forest.size_child_lt (by assumption) _

theorem traced_of_slot {path : Path} {children : Forest} {key : String}
    (h : Admits R allowed (ExprReads scopes (path ++ [key]) (children.child key).children)) :
    Traced R (Expr.SlotRefsAt allowed · (path ++ [key])) (slot scopes path children key) := by
  unfold slot whenPresent
  split
  · exact traced_of_expr h
  · exact .pure slotRefsAt_none

mutual

theorem traced_of_stmt {path : Path} {children : Forest}
    (h : Admits R allowed (StmtReads scopes path children)) :
    Traced R (fun s => ∀ s' ∈ s, s'.RefsAt allowed path) (stmt scopes path children) := by
  unfold stmt
  split
  case isTrue => exact .fail (by simp)
  case isFalse hne =>
    have hsmaller := Forest.size_child_lt hne
    refine .bind (traced_string ..) fun word hword _ => ?_
    split
    case h_1 =>
      refine .bind (traced_note _) fun _ _ _ => .pure fun s hs => ?_
      cases hs
    case h_2 tag htag =>
      have hkind : StmtKind path children tag := ⟨word, hword, htag⟩
      refine .bind (traced_note _) fun _ _ _ => ?_
      cases tag with
      | init =>
        refine .bind (traced_reference h VarRef.toRef .target fun name hname =>
          .target hkind hname) fun target htarget hfound => ?_
        refine .bind (traced_of_expr fun r hr => h r (.value hkind htarget hr))
          fun value _ hvalue => .pure fun s hs => ?_
        obtain ⟨value, rfl, rfl⟩ := Option.map_eq_some_iff.1 hs
        exact And.intro hfound (hvalue value rfl)
      | eval =>
        refine .bind (traced_of_expr fun r hr => h r (.eval hkind hr))
          fun e _ he => .pure fun s hs => ?_
        obtain ⟨e, rfl, rfl⟩ := Option.map_eq_some_iff.1 hs
        exact he e rfl
      | loop =>
        refine .bind (traced_of_stmts fun r ⟨key, hkey, hr⟩ => h r (.start hkind hkey hr))
          fun start hstart hfirst => ?_
        have hslot (earlier : List String) (key : String) (later : List String)
            (hkeys : ["expr1", "expr2", "expr3"] = earlier ++ key :: later)
            (hearlier : SlotsRead scopes path children earlier) :
            Traced R (Expr.SlotRefsAt allowed · (path ++ [key])) (slot scopes path children key) :=
          traced_of_slot fun r hr => h r (.slot hkind ⟨start, hstart⟩ hkeys hearlier hr)
        have hread : SlotsRead scopes path children [] := by simp [SlotsRead]
        refine .bind (hslot [] "expr1" ["expr2", "expr3"] rfl hread) fun cond hcond hc => ?_
        have hread : SlotsRead scopes path children ["expr1"] :=
          List.forall_mem_singleton.2 ⟨cond, hcond⟩
        refine .bind (hslot ["expr1"] "expr2" ["expr3"] rfl hread) fun test htest ht => ?_
        have hread : SlotsRead scopes path children ["expr1", "expr2"] :=
          List.forall_mem_cons.2 ⟨⟨cond, hcond⟩, List.forall_mem_singleton.2 ⟨test, htest⟩⟩
        refine .bind (hslot ["expr1", "expr2"] "expr3" [] rfl hread) fun step hstep hs => ?_
        have hread : SlotsRead scopes path children ["expr1", "expr2", "expr3"] :=
          List.forall_mem_cons.2 ⟨⟨cond, hcond⟩,
            List.forall_mem_cons.2 ⟨⟨test, htest⟩, List.forall_mem_singleton.2 ⟨step, hstep⟩⟩⟩
        refine .bind (traced_of_stmts fun r ⟨key, hkey, hr⟩ =>
          h r (.body hkind ⟨start, hstart⟩ hread hkey hr)) fun body _ hlast => .pure fun s hs' => ?_
        cases hs'
        rw [Stmt.RefsAt]
        exact ⟨hfirst, hc, ht, hs, hlast⟩
      | ret =>
        refine .bind (traced_of_slot fun r hr => h r (.ret hkind hr))
          fun e _ he => .pure fun s hs => ?_
        cases hs
        exact he
termination_by 2 * children.size
decreasing_by
  all_goals
    have := hsmaller "decl1"
    have := hsmaller "body"
    omega

theorem traced_of_stmts {path : Path} {e : Entry} (h : Admits R allowed (StmtsRead scopes path e)) :
    Traced R (Stmt.ListRefsAt allowed · path) (stmts scopes path e) := by
  unfold stmts
  split
  case isTrue =>
    split
    case h_1 =>
      split
      case isTrue => exact .pure trivial
      case isFalse => exact .fail (by simp)
    case h_2 | h_3 => exact .fail (by simp)
  case isFalse hne =>
    have hsmaller := Forest.size_child_lt hne
    split
    case h_1 => exact .fail (by simp)
    case h_2 hvalue =>
      -- A statement is read only if those before it were, which is what its readings ask for.
      have hall : Traced R
          (fun read : List (Option Stmt) =>
            ∀ s ∈ read, ∀ s' ∈ s, ∃ key, s'.RefsAt allowed (path ++ [key]))
          (e.children.keys.mapM fun key =>
            stmt scopes (path ++ [key]) (e.children.child key).children) := by
        refine .mapM fun before key after hkeys hbefore => ?_
        have hread := traced_of_stmt fun r hr =>
          h r ⟨key, ⟨hvalue, before, after, hkeys, hbefore⟩, hr⟩
        exact ⟨fun s hs s' hs' => ⟨key, hread.result s hs s' hs'⟩, hread.fault⟩
      refine .bind hall fun read _ hread => .pure (Stmt.listRefsAt_of_forall fun s hs => ?_)
      obtain ⟨s', hs', hsome⟩ := List.mem_filterMap.1 hs
      exact hread s' hs' s hsome
termination_by 2 * e.children.size + 1
decreasing_by
  have := hsmaller key
  omega

end

end Load

end KeyedIR
