import KeyedIR.Proofs.Program.Pruned
import KeyedIR.Proofs.Record.Fields
import KeyedIR.Proofs.Record.Sound
/-! # Records are read back

Where the names in scope know all declarations that can be seen, and each of these has its label, an
expression whose references are lost or sound is read back from its record without a warning, less
the lost ones, if it is readable; if it is not, a key is missing. So it is with statements and with
variables. The record of a lost reference is empty, so it is taken for an absent one, and that of
anything else is not.
-/

namespace KeyedIR

set_option autoImplicit false

open Logged Loading Forest Record

namespace Load

/-! ## Loading under a condition -/

/-- If the condition holds, the computation is quiet and ends in the result; if it does not, a key
is missing. -/
structure YieldsIf {α : Type} (p : Prop) (c : Loading α) (x : α) : Prop where
  quiet : p → Quiet c x
  missing : ¬p → ∃ path, c.result = .error (.access (.missingKey path))

namespace YieldsIf

variable {α β σ : Type} {p q : Prop}

theorem of_quiet {c : Loading α} {x : α} (hp : p) (h : Quiet c x) : YieldsIf p c x :=
  ⟨fun _ => h, absurd hp⟩

theorem of_missing {c : Loading α} {x : α} (hp : ¬p) {path : Path}
    (h : c.result = .error (.access (.missingKey path))) : YieldsIf p c x :=
  ⟨fun hp' => absurd hp' hp, fun _ => ⟨path, h⟩⟩

theorem congr {c : Loading α} {x : α} (h : YieldsIf p c x) (hpq : p ↔ q) : YieldsIf q c x :=
  propext hpq ▸ h

theorem bind {c : Loading α} {next : α → Loading β} {x : α} {y : β} (hc : YieldsIf p c x)
    (hnext : p → YieldsIf q (next x) y) : YieldsIf (p ∧ q) (c >>= next) y := by
  refine ⟨fun ⟨hp, hq⟩ => (hc.quiet hp).bind ((hnext hp).quiet hq), fun hnot => ?_⟩
  by_cases hp : p
  · obtain ⟨path, hmissing⟩ := (hnext hp).missing fun hq => hnot ⟨hp, hq⟩
    exact ⟨path, (bind_of_ok (hc.quiet hp).1).trans hmissing⟩
  · obtain ⟨path, hmissing⟩ := hc.missing hp
    exact ⟨path, bind_of_error hmissing⟩

theorem then_quiet {c : Loading α} {next : α → Loading β} {x : α} {y : β} (hc : YieldsIf p c x)
    (hnext : p → Quiet (next x) y) : YieldsIf p (c >>= next) y :=
  (hc.bind fun hp => of_quiet trivial (hnext hp)).congr (and_iff_left trivial)

theorem after {c : Loading α} {next : α → Loading β} {x : α} {y : β} (hc : Quiet c x)
    (hnext : YieldsIf p (next x) y) : YieldsIf p (c >>= next) y :=
  ((of_quiet trivial hc).bind fun _ => hnext).congr (and_iff_right trivial)

theorem mapM {f : α → Loading β} {g : α → β} {p : α → Prop} {xs : List α}
    (h : ∀ x ∈ xs, YieldsIf (p x) (f x) (g x)) :
    YieldsIf (∀ x ∈ xs, p x) (xs.mapM f) (xs.map g) := by
  induction xs with
  | nil => exact of_quiet nofun (.pure [])
  | cons x xs ih =>
    obtain ⟨hfirst, hrest⟩ := List.forall_mem_cons.1 h
    rw [List.mapM_cons]
    refine (hfirst.bind fun _ => ?_).congr List.forall_mem_cons.symm
    exact (ih hrest).then_quiet fun _ => .pure _

/-- The steps of a fold, each under its condition, with what is known before it. -/
theorem foldlM {step : σ → α → Loading σ} {xs : List α} (p : Nat → Prop)
    (known : Nat → σ → Prop)
    (h : ∀ (i : Nat) (x : α) (s : σ), xs[i]? = some x → known i s →
      ∃ s', YieldsIf (p i) (step s x) s' ∧ known (i + 1) s') {s : σ} (hs : known 0 s) :
    ∃ s', YieldsIf (∀ i < xs.length, p i) (xs.foldlM step s) s' ∧ known xs.length s' := by
  induction xs generalizing p known s with
  | nil => exact ⟨s, of_quiet nofun (.pure s), hs⟩
  | cons x xs ih =>
    obtain ⟨mid, hfirst, hmid⟩ := h 0 x s rfl hs
    obtain ⟨s', hrest, hs'⟩ := ih (fun i => p (i + 1)) (fun i => known (i + 1))
      (fun i x' s hx' hknown => h (i + 1) x' s hx' hknown) hmid
    rw [List.foldlM_cons]
    exact ⟨s', (hfirst.bind fun _ => hrest).congr Nat.forall_lt_succ_left.symm, hs'⟩

end YieldsIf

/-! ## Values -/

section

variable {path : Path} {children : Forest} {key : String}

theorem quiet_string {s : String} (h : children.child key = text s) :
    Quiet (string path children key) s := by
  rw [string, h]
  exact .ofExcept rfl

theorem quiet_reference {α : Type} {find : String → Except ResolutionFault α} {name : String}
    {target : α} (h : children.child key = text name) (hfind : find name = .ok target) :
    Quiet (reference find path children key) target := by
  refine (quiet_string h).bind ?_
  rw [hfind]
  exact .pure target

theorem quiet_operator {α : Type} {family : OperatorFamily} {ofWord? : String → Option α}
    {word : String} {op : α} (h : children.child "op" = text word)
    (hword : ofWord? word = some op) : Quiet (operator family ofWord? path children) op := by
  refine (quiet_string h).bind ?_
  rw [hword]
  exact .pure op

theorem quiet_flag {isSet : Bool} (h : children.child key = flagEntry isSet) :
    Quiet (flag path children key) isSet := by
  rw [flag, h]
  cases isSet
  · exact .pure false
  · exact Quiet.bind (.ofExcept rfl) (.pure true)

theorem quiet_int32 {n : Int32} (h : children.child "val" = ⟨some (.integer n.toInt64), nil⟩) :
    Quiet (int32 path children) n := by
  rw [int32, h]
  refine Quiet.bind (x := n.toInt64) (.ofExcept rfl) ?_
  rw [Int32.toInt_toInt64, if_pos ⟨n.minValue_le_toInt, n.toInt_le⟩, Int32.ofInt_toInt]
  exact .pure n

theorem isPresent_below {t : Forest} : (below t).isPresent = !t.isEmpty := rfl

theorem quiet_float {x : Binary64} (h : children.child key = ⟨some (.float x), nil⟩) :
    Quiet (ofAccess ((children.child key).floatAt path)) x := by
  rw [h]
  exact .ofExcept rfl

end

/-! ## Lists of records -/

section

variable {σ β α : Type} {key : Nat → String} {record : α → Forest} {items : List α}
  (hkey : ∀ i j, key i = key j → i = j) (hne : ∀ x ∈ items, record x ≠ nil)
include hkey hne

theorem child_of_getElem? {i : Nat} {k : String}
    (hk : (numbered key (items.map record)).keys[i]? = some k) :
    k = key i ∧ ∃ x, items[i]? = some x ∧
      (numbered key (items.map record)).child (key i) = below (record x) := by
  rw [keys_numbered_of_ne_nil hne, List.getElem?_map, List.getElem?_zipIdx, Option.map_map] at hk
  obtain ⟨x, hx, rfl⟩ := Option.map_eq_some_iff.1 hk
  refine ⟨congrArg key (Nat.zero_add i), x, hx, child_numbered hkey ?_⟩
  rw [List.getElem?_map, hx]
  rfl

theorem quiet_mapM {step : String → Loading β} {f : α → β}
    (h : ∀ (i : Nat) (x : α), items[i]? = some x →
      (numbered key (items.map record)).child (key i) = below (record x) →
      Quiet (step (key i)) (f x)) :
    Quiet ((numbered key (items.map record)).keys.mapM step) (items.map f) := by
  apply Quiet.mapM
  · rw [keys_numbered_of_ne_nil hne, List.length_map, List.length_map, List.length_zipIdx]
  · intro i k y hk hy
    obtain ⟨rfl, x, hx, hchild⟩ := child_of_getElem? hkey hne hk
    rw [List.getElem?_map, hx] at hy
    cases hy
    exact h i x hx hchild

/-- Steps over the keys of numbered records, each under its condition, with what is known before
it. -/
theorem yields_foldlM {step : σ → String → Loading σ} (p : α → Prop) (known : Nat → σ → Prop)
    (h : ∀ (i : Nat) (x : α) (s : σ), items[i]? = some x →
      (numbered key (items.map record)).child (key i) = below (record x) → known i s →
      ∃ s', YieldsIf (p x) (step s (key i)) s' ∧ known (i + 1) s') {s : σ} (hs : known 0 s) :
    ∃ s', YieldsIf (∀ (i : Nat) (x : α), items[i]? = some x → p x)
      ((numbered key (items.map record)).keys.foldlM step s) s' ∧ known items.length s' := by
  have hlength : (numbered key (items.map record)).keys.length = items.length := by
    rw [keys_numbered_of_ne_nil hne, List.length_map, List.length_zipIdx]
  have hsteps : ∀ (i : Nat) (k : String) (s : σ),
      (numbered key (items.map record)).keys[i]? = some k → known i s →
      ∃ s', YieldsIf (∀ x, items[i]? = some x → p x) (step s k) s' ∧ known (i + 1) s' := by
    intro i k s hk hs
    obtain ⟨rfl, x, hx, hchild⟩ := child_of_getElem? hkey hne hk
    obtain ⟨s', hyields, hs'⟩ := h i x s hx hchild hs
    exact ⟨s', hyields.congr (by simp [hx]), hs'⟩
  obtain ⟨s', hyields, hs'⟩ := YieldsIf.foldlM _ known hsteps hs
  rw [hlength] at hyields hs'
  refine ⟨s', hyields.congr ⟨fun hp i x hx => ?_, fun hp i _ => hp i⟩, hs'⟩
  exact hp i (List.getElem?_eq_some_iff.1 hx).1 x hx

end

/-! ## Expressions -/

theorem child_operation (tag op : String) (lhs rhs : Forest) :
    (operation tag op lhs rhs).child "type" = text tag ∧
      (operation tag op lhs rhs).child "lhs" = below lhs ∧
      (operation tag op lhs rhs).child "op" = text op ∧
      (operation tag op lhs rhs).child "rhs" = below rhs := by
  simp [operation, child_ofFields, List.lookup]

theorem child_loop (type start cond test step body : Entry) :
    let fields := ofFields [("type", type), ("decl1", start), ("expr1", cond), ("expr2", test),
      ("expr3", step), ("body", body)]
    fields.child "type" = type ∧ fields.child "decl1" = start ∧ fields.child "expr1" = cond ∧
      fields.child "expr2" = test ∧ fields.child "expr3" = step ∧ fields.child "body" = body := by
  simp [child_ofFields, List.lookup]

/-- The labels by which references are stored: a reference has none exactly if it is lost. -/
def Labels (kept : Ref → Bool) (labelOf : Ref → Option Label) : Prop :=
  ∀ target, labelOf target = if kept target then some target.label else none

/-- The expression, its operands apart, can be read back, or it is a lost reference and has no
record. -/
def Standing (kept : Ref → Bool) (h : Horizon) (e : Expr) : Prop :=
  e.isLost kept = true ∨ e.Sound h

section

variable {kept : Ref → Bool} {labelOf : Ref → Option Label} (hlabels : Labels kept labelOf)
include hlabels

theorem Labels.of_kept {target : Ref} (h : kept target = true) :
    labelOf target = some target.label := (hlabels target).trans (if_pos h)

theorem Labels.of_lost {target : Ref} (h : kept target = false) : labelOf target = none :=
  (hlabels target).trans (if_neg (Bool.not_eq_true _ ▸ h))

/-- Only a lost reference has an empty record. -/
theorem isEmpty_record (e : Expr) : (e.record labelOf).isEmpty = e.isLost kept := by
  cases e with
  | ref target =>
    cases hkept : kept target with
    | false => simp [Expr.record, Expr.isLost, hlabels.of_lost hkept, hkept, isEmpty]
    | true =>
      rw [Expr.record_ref labelOf (hlabels.of_kept hkept), Expr.isLost, hkept]
      rfl
  | _ => rfl

theorem record_eq_nil {e : Expr} : e.record labelOf = nil ↔ e.isLost kept = true := by
  rw [← Forest.isEmpty_iff, isEmpty_record hlabels]

theorem record_ne_nil {e : Expr} (h : e.isLost kept = false) : e.record labelOf ≠ nil := by
  rw [ne_eq, record_eq_nil hlabels, h]
  exact Bool.false_ne_true

/-- Only a first value for a lost variable has an empty record. -/
theorem isEmpty_stmt (s : Stmt) : (s.record labelOf).isEmpty = !s.isStored kept := by
  cases s with
  | init target value =>
    cases hkept : kept target.toRef with
    | false => simp [Stmt.record, Stmt.isStored, hlabels.of_lost hkept, hkept, isEmpty]
    | true =>
      rw [Stmt.record_init labelOf (hlabels.of_kept hkept), Stmt.isStored, hkept]
      rfl
  | _ => rfl

end

section

variable {kept : Ref → Bool} {labelOf : Ref → Option Label} {scopes : Scopes} {h : Horizon}
  (hlabels : Labels kept labelOf) (hknows : scopes.Knows h)
include hlabels

/-- An expression that need not be there is absent if it is a lost reference. -/
theorem yields_present {e : Expr} {path : Path}
    (hread : YieldsIf (e.Readable kept) (expr scopes path (e.record labelOf)) (e.pruned kept)) :
    YieldsIf (e.isLost kept = true ∨ e.Readable kept)
      (whenPresent (below (e.record labelOf)).isPresent (expr scopes path (e.record labelOf)))
      (e.pruned kept) := by
  rw [whenPresent, isPresent_below, isEmpty_record hlabels]
  cases hlost : e.isLost kept with
  | true =>
    rw [Expr.pruned_eq_none_of_isLost hlost]
    exact .of_quiet (.inl rfl) (.pure none)
  | false => exact hread.congr (or_iff_right Bool.false_ne_true).symm

include hknows

theorem yields_expr {e : Expr} (he : ∀ x ∈ e.parts, Standing kept h x) (path : Path) :
    YieldsIf (e.Readable kept) (expr scopes path (e.record labelOf)) (e.pruned kept) := by
  -- An operand that is readable is not pruned away, so reading goes on to the next one.
  induction e generalizing path with
  | ref target =>
    cases hkept : kept target with
    | false =>
      have hlost : (Expr.ref target).isLost kept = true := by rw [Expr.isLost, hkept]; rfl
      rw [expr, dif_pos ((record_eq_nil hlabels).2 hlost)]
      refine .of_missing ?_ rfl
      rw [Expr.Readable, hkept]
      exact Bool.false_ne_true
    | true =>
      have hfound : (Expr.ref target).isLost kept = false := by rw [Expr.isLost, hkept]; rfl
      have hshows : h.Shows target :=
        (he _ List.mem_cons_self).resolve_left (Bool.eq_false_iff.1 hfound)
      rw [expr, dif_neg (record_ne_nil hlabels hfound),
        Expr.record_ref labelOf (hlabels.of_kept hkept), Expr.pruned, if_pos hkept]
      refine .after (quiet_string (s := ExprTag.ref.word)
        (by simp [child_ofFields, List.lookup])) ?_
      rw [ExprTag.ofWord?_word]
      refine .of_quiet hkept (Quiet.bind (quiet_reference ?_ (hknows.target?_label hshows))
        (.pure _))
      simp [child_ofFields, List.lookup]
  | int n =>
    rw [expr, dif_neg (record_ne_nil hlabels rfl), Expr.record_int]
    refine .after (quiet_string (s := ExprTag.int.word) (by simp [child_ofFields, List.lookup])) ?_
    rw [ExprTag.ofWord?_word]
    exact .of_quiet trivial
      (Quiet.bind (quiet_int32 (by simp [child_ofFields, List.lookup])) (.pure _))
  | float x =>
    rw [expr, dif_neg (record_ne_nil hlabels rfl), Expr.record_float]
    refine .after (quiet_string (s := ExprTag.float.word)
      (by simp [child_ofFields, List.lookup])) ?_
    rw [ExprTag.ofWord?_word]
    exact .of_quiet trivial
      (Quiet.bind (quiet_float (by simp [child_ofFields, List.lookup])) (.pure _))
  | unary op operand ih =>
    obtain ⟨hop, hsub⟩ := List.forall_mem_cons.1 he
    have hop : op.isUnary = true := hop.resolve_left Bool.false_ne_true
    obtain ⟨htype, hlhs, hword, hrhs⟩ :=
      child_operation ExprTag.arithmetic.word op.word (operand.record labelOf) nil
    rw [expr, dif_neg (record_ne_nil hlabels rfl), Expr.record_unary, Expr.pruned]
    refine .after (quiet_string htype) ?_
    rw [ExprTag.ofWord?_word]
    refine .after (quiet_operator hword (ArithmeticOp.ofWord?_word op)) ?_
    rw [hlhs, hrhs]
    refine (ih hsub _).then_quiet fun hreadable => ?_
    obtain ⟨operand', hoperand⟩ := Expr.exists_pruned hreadable
    rw [hoperand]
    dsimp only
    rw [if_pos hop]
    exact Quiet.bind (.pure none) (.pure _)
  | binary op l r ihl ihr =>
    obtain ⟨hl, hr⟩ := List.forall_mem_append.1 (List.forall_mem_cons.1 he).2
    obtain ⟨htype, hlhs, hword, hrhs⟩ :=
      child_operation ExprTag.arithmetic.word op.word (l.record labelOf) (r.record labelOf)
    rw [expr, dif_neg (record_ne_nil hlabels rfl), Expr.record_binary, Expr.pruned]
    refine .after (quiet_string htype) ?_
    rw [ExprTag.ofWord?_word]
    refine .after (quiet_operator hword (ArithmeticOp.ofWord?_word op)) ?_
    rw [hlhs, hrhs]
    refine (ihl hl _).bind fun hreadable => ?_
    obtain ⟨l', hpruned⟩ := Expr.exists_pruned hreadable
    rw [hpruned]
    dsimp only
    -- Only where the operator takes one operand can the second one be lost.
    split
    case isTrue hop =>
      refine ((yields_present hlabels (ihr hr _)).congr ?_).then_quiet fun _ => ?_
      · rw [hop, eq_self, true_and]
      · cases r.pruned kept <;> exact .pure _
    case isFalse hop =>
      refine ((ihr hr _).congr ?_).then_quiet fun hreadable => ?_
      · rw [eq_false hop, false_and, false_or]
      · obtain ⟨r', hpruned'⟩ := Expr.exists_pruned (hreadable.resolve_left fun h => hop h.1)
        rw [hpruned']
        exact .pure _
  | compare op l r ihl ihr =>
    obtain ⟨hl, hr⟩ := List.forall_mem_append.1 (List.forall_mem_cons.1 he).2
    obtain ⟨htype, hlhs, hword, hrhs⟩ :=
      child_operation ExprTag.compare.word op.word (l.record labelOf) (r.record labelOf)
    rw [expr, dif_neg (record_ne_nil hlabels rfl), Expr.record_compare, Expr.pruned]
    refine .after (quiet_string htype) ?_
    rw [ExprTag.ofWord?_word]
    refine .after (quiet_operator hword (ComparisonOp.ofWord?_word op)) ?_
    rw [hlhs, hrhs]
    exact (ihl hl _).bind fun _ => (ihr hr _).then_quiet fun _ => .pure _
  | assign op l r ihl ihr =>
    obtain ⟨hl, hr⟩ := List.forall_mem_append.1 (List.forall_mem_cons.1 he).2
    obtain ⟨htype, hlhs, hword, hrhs⟩ :=
      child_operation ExprTag.assign.word op.word (l.record labelOf) (r.record labelOf)
    rw [expr, dif_neg (record_ne_nil hlabels rfl), Expr.record_assign, Expr.pruned]
    refine .after (quiet_string htype) ?_
    rw [ExprTag.ofWord?_word]
    refine .after (quiet_operator hword (AssignmentOp.ofWord?_word op)) ?_
    rw [hlhs, hrhs]
    exact (ihl hl _).bind fun _ => (ihr hr _).then_quiet fun _ => .pure _

theorem yields_slot {e : Option Expr} (he : ∀ x ∈ Expr.slotParts e, Standing kept h x)
    {path : Path} {children : Forest} {key : String}
    (hchild : children.child key = below (optional labelOf e)) :
    YieldsIf (Expr.SlotReadable kept e) (slot scopes path children key)
      (e.bind (Expr.pruned kept)) := by
  rw [slot, hchild]
  cases e with
  | none => exact .of_quiet nofun (.pure none)
  | some e =>
    refine (yields_present hlabels (yields_expr hlabels hknows he _)).congr ?_
    simp [Expr.SlotReadable]

/-! ## Statements -/

omit hknows

theorem keys_listRecord (l : List Stmt) : (Stmt.listRecord labelOf 0 l).keys =
    (Stmt.stored kept l).map fun item => statementKey item.2 := by
  rw [Stmt.listRecord_eq, keys_numbered, Stmt.stored]
  simp only [isEmpty_stmt hlabels, Bool.not_not]

theorem listRecord_eq_nil {l : List Stmt} :
    Stmt.listRecord labelOf 0 l = nil ↔ Stmt.stored kept l = [] := by
  have hkeys := keys_listRecord hlabels l
  constructor
  · intro hnil
    rw [hnil] at hkeys
    exact List.map_eq_nil_iff.1 hkeys.symm
  · intro hnone
    rw [hnone] at hkeys
    cases hrecord : Stmt.listRecord labelOf 0 l with
    | nil => rfl
    | cons => rw [hrecord] at hkeys; cases hkeys

theorem yields_stmts {l : List Stmt}
    (hread : ∀ s ∈ l, s.isStored kept = true → ∀ path,
      YieldsIf (s.Readable kept) (stmt scopes path (s.record labelOf)) (s.pruned kept))
    (path : Path) :
    YieldsIf (Stmt.ListReadable kept l)
      (stmts scopes path (blockEntry l (Stmt.listRecord labelOf 0 l)))
      (Stmt.listPruned kept l) := by
  by_cases hempty : l = []
  · subst hempty
    unfold stmts
    exact .of_quiet ⟨.inl rfl, trivial⟩ (.pure [])
  have hstored : Stmt.ListStored kept l ↔ Stmt.stored kept l ≠ [] := or_iff_right hempty
  rw [blockEntry, if_neg (mt List.isEmpty_iff.1 hempty), stmts, below]
  by_cases hnone : Stmt.stored kept l = []
  · -- Nothing is stored for the list, not even the marker of an empty one.
    rw [dif_pos ((listRecord_eq_nil hlabels).2 hnone)]
    exact .of_missing (fun h => hstored.1 h.1 hnone) rfl
  rw [dif_neg (mt (listRecord_eq_nil hlabels).1 hnone), keys_listRecord hlabels, List.mapM_map,
    ← Stmt.listPruned_stored]
  have hitems : ∀ item ∈ Stmt.stored kept l, YieldsIf (item.1.Readable kept)
      (stmt scopes (path ++ [statementKey item.2])
        ((Stmt.listRecord labelOf 0 l).child (statementKey item.2)).children)
      (item.1.pruned kept) := by
    intro item hitem
    obtain ⟨hat, hkept⟩ := Stmt.mem_of_mem_stored hitem
    have hrecord : (l.map (·.record labelOf))[item.2]? = some (item.1.record labelOf) := by
      rw [List.getElem?_map, hat]
      rfl
    rw [Stmt.listRecord_eq, child_numbered (fun _ _ => statementKey_injective) hrecord]
    exact hread item.1 (List.mem_of_getElem? hat) hkept _
  refine ((YieldsIf.mapM hitems).congr ?_).then_quiet fun _ => .pure _
  rw [Stmt.ListReadable, and_iff_right (hstored.2 hnone), Stmt.eachReadable_stored]

end

section

variable {kept : Ref → Bool} {labelOf : Ref → Option Label} {scopes : Scopes} {h : Horizon}

mutual

theorem yields_stmt (hlabels : Labels kept labelOf) (hknows : scopes.Knows h) {s : Stmt}
    (hs : ∀ x ∈ s.parts, Standing kept h x) (hstored : s.isStored kept = true) (path : Path) :
    YieldsIf (s.Readable kept) (stmt scopes path (s.record labelOf)) (s.pruned kept) := by
  have hne : s.record labelOf ≠ nil := by
    rw [ne_eq, ← Forest.isEmpty_iff, isEmpty_stmt hlabels, hstored]
    exact Bool.false_ne_true
  match s with
  | .init target value =>
    have hkept : kept target.toRef = true := hstored
    obtain ⟨htarget, hvalue⟩ := List.forall_mem_cons.1 hs
    have hfound : (Expr.ref target.toRef).isLost kept = false := by rw [Expr.isLost, hkept]; rfl
    have hshows : h.Shows target.toRef := htarget.resolve_left (Bool.eq_false_iff.1 hfound)
    rw [stmt, dif_neg hne, Stmt.record_init labelOf (hlabels.of_kept hkept), Stmt.pruned,
      if_pos hkept]
    refine .after (quiet_string (s := StmtTag.init.word)
      (by simp [child_ofFields, List.lookup])) ?_
    rw [StmtTag.ofWord?_word]
    refine .after (.note rfl) ?_
    refine .after (quiet_reference (by simp [child_ofFields, List.lookup])
      (hknows.variable_label hshows)) ?_
    have hchild : (ofFields [("type", text StmtTag.init.word),
        ("var", text target.toRef.label.text),
        ("expr", below (value.record labelOf))]).child "expr" = below (value.record labelOf) := by
      simp [child_ofFields, List.lookup]
    rw [hchild]
    have hreadable : value.Readable kept ↔ (Stmt.init target value).Readable kept := by
      rw [Stmt.Readable, hkept, eq_self, true_imp_iff]
    exact ((yields_expr hlabels hknows hvalue _).congr hreadable).then_quiet fun _ => .pure _
  | .eval e =>
    rw [stmt, dif_neg hne, Stmt.record_eval, Stmt.pruned]
    refine .after (quiet_string (s := StmtTag.eval.word)
      (by simp [child_ofFields, List.lookup])) ?_
    rw [StmtTag.ofWord?_word]
    refine .after (.note rfl) ?_
    have hchild : (ofFields [("type", text StmtTag.eval.word),
        ("expr", below (e.record labelOf))]).child "expr" = below (e.record labelOf) := by
      simp [child_ofFields, List.lookup]
    rw [hchild]
    exact (yields_expr hlabels hknows hs _).then_quiet fun _ => .pure _
  | .loop start cond test step body =>
    simp only [Stmt.parts, List.forall_mem_append] at hs
    obtain ⟨hstart, hcond, htest, hstep, hbody⟩ := hs
    rw [Stmt.forall_listParts] at hstart hbody
    obtain ⟨htype, hfirst, hexpr1, hexpr2, hexpr3, hlast⟩ := child_loop (text StmtTag.loop.word)
      (blockEntry start (Stmt.listRecord labelOf 0 start)) (below (optional labelOf cond))
      (below (optional labelOf test)) (below (optional labelOf step))
      (blockEntry body (Stmt.listRecord labelOf 0 body))
    rw [stmt, dif_neg hne, Stmt.record_loop, Stmt.pruned]
    refine .after (quiet_string htype) ?_
    rw [StmtTag.ofWord?_word]
    refine .after (.note rfl) ?_
    rw [hfirst, hlast]
    refine (yields_stmts hlabels (yields_each hlabels hknows hstart) _).bind fun _ => ?_
    refine (yields_slot hlabels hknows hcond hexpr1).bind fun _ => ?_
    refine (yields_slot hlabels hknows htest hexpr2).bind fun _ => ?_
    refine (yields_slot hlabels hknows hstep hexpr3).bind fun _ => ?_
    exact (yields_stmts hlabels (yields_each hlabels hknows hbody) _).then_quiet fun _ => .pure _
  | .ret value =>
    rw [stmt, dif_neg hne, Stmt.record_ret, Stmt.pruned]
    refine .after (quiet_string (s := StmtTag.ret.word)
      (by simp [child_ofFields, List.lookup])) ?_
    rw [StmtTag.ofWord?_word]
    refine .after (.note rfl) ?_
    exact (yields_slot hlabels hknows hs (by simp [child_ofFields, List.lookup])).then_quiet
      fun _ => .pure _

theorem yields_each (hlabels : Labels kept labelOf) (hknows : scopes.Knows h) {l : List Stmt}
    (hl : ∀ s ∈ l, ∀ x ∈ s.parts, Standing kept h x) :
    ∀ s ∈ l, s.isStored kept = true → ∀ path,
      YieldsIf (s.Readable kept) (stmt scopes path (s.record labelOf)) (s.pruned kept) := by
  match l with
  | [] => exact nofun
  | s :: rest =>
    obtain ⟨hs, hrest⟩ := List.forall_mem_cons.1 hl
    exact List.forall_mem_cons.2 ⟨yields_stmt hlabels hknows hs, yields_each hlabels hknows hrest⟩

end

end

end Load

end KeyedIR
