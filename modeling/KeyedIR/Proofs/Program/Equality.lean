import KeyedIR.Program.Equality
import KeyedIR.Proofs.Program.WellFormed
import KeyedIR.Proofs.Value
/-! # Equal programs

Equal modules have equal expressions at the same places (`Module.exists_occurs_of_beq`), so what is
said about the references and the operators of one is true of the other, and neither has a NaN. The
other way round, a module without a NaN equals every module that differs from it in labels only.
-/

namespace KeyedIR

set_option autoImplicit false

/-! ## Expressions -/

theorem Expr.eq_ref_of_beq {e : Expr} {target : Ref} (h : (e == .ref target) = true) :
    e = .ref target := by
  cases e with
  | ref target' => exact congrArg ref (of_decide_eq_true h)
  | _ => cases h

theorem Expr.exists_eq_unary_of_beq {e operand : Expr} {op : ArithmeticOp}
    (h : (e == .unary op operand) = true) : ∃ operand', e = .unary op operand' := by
  cases e with
  | unary op' operand' =>
    have hop := (Bool.and_eq_true_iff.1 h).1
    exact ⟨operand', congrArg (unary · operand') (of_decide_eq_true hop)⟩
  | _ => cases h

theorem Expr.not_beq_nan {e : Expr} (h : (e == .float .nan) = true) : False := by
  cases e with
  | float x => exact (Binary64.ne_nan_of_beq h).2 rfl
  | _ => cases h

/-- Each of the second expressions equals one of the first. -/
def Expr.Cover (xs xs' : List Expr) : Prop := ∀ x' ∈ xs', ∃ x ∈ xs, (x == x') = true

theorem Expr.Cover.nil : Cover [] [] := nofun

theorem Expr.Cover.cons {x x' : Expr} {xs xs' : List Expr} (h : (x == x') = true)
    (hrest : Cover xs xs') : Cover (x :: xs) (x' :: xs') := by
  intro y' hy'
  rcases List.mem_cons.1 hy' with rfl | hy'
  · exact ⟨x, List.mem_cons_self, h⟩
  · obtain ⟨y, hy, hequal⟩ := hrest y' hy'
    exact ⟨y, List.mem_cons_of_mem x hy, hequal⟩

theorem Expr.Cover.append {xs xs' ys ys' : List Expr} (hx : Cover xs xs') (hy : Cover ys ys') :
    Cover (xs ++ ys) (xs' ++ ys') := by
  intro z' hz'
  rcases List.mem_append.1 hz' with hz' | hz'
  · obtain ⟨z, hz, hequal⟩ := hx z' hz'
    exact ⟨z, List.mem_append_left ys hz, hequal⟩
  · obtain ⟨z, hz, hequal⟩ := hy z' hz'
    exact ⟨z, List.mem_append_right xs hz, hequal⟩

theorem Expr.cover_pair {e e' l l' r r' : Expr} {same : Bool}
    (h : (same && l.beq l' && r.beq r') = true) (hwhole : (e == e') = true)
    (hl : (l == l') = true → Cover l.parts l'.parts)
    (hr : (r == r') = true → Cover r.parts r'.parts) :
    Cover (e :: (l.parts ++ r.parts)) (e' :: (l'.parts ++ r'.parts)) := by
  simp only [Bool.and_eq_true] at h
  exact .cons hwhole (.append (hl h.1.2) (hr h.2))

/-- Each part of an expression equals some part of an equal one. -/
theorem Expr.cover_parts {e e' : Expr} (h : (e == e') = true) : Cover e.parts e'.parts := by
  induction e generalizing e' with
  | ref target | int n | float x =>
    cases e' with
    | ref | int | float => exact .cons h .nil
    | _ => cases h
  | unary op operand ih =>
    cases e' with
    | unary op' operand' =>
      have hoperand : (operand == operand') = true := (Bool.and_eq_true_iff.1 h).2
      exact .cons h (ih hoperand)
    | _ => cases h
  | binary op l r ihl ihr =>
    cases e' with
    | binary => exact cover_pair h h ihl ihr
    | _ => cases h
  | compare op l r ihl ihr =>
    cases e' with
    | compare => exact cover_pair h h ihl ihr
    | _ => cases h
  | assign op l r ihl ihr =>
    cases e' with
    | assign => exact cover_pair h h ihl ihr
    | _ => cases h

theorem Expr.beq_self {e : Expr} (h : .float .nan ∉ e.parts) : (e == e) = true := by
  induction e with
  | ref target => exact decide_eq_true rfl
  | int n => exact decide_eq_true rfl
  | float x =>
    refine Binary64.beq_self_iff.2 fun hx => h ?_
    rw [hx]
    exact List.mem_singleton_self _
  | unary op operand ih =>
    have hoperand := ih fun hmem => h (List.mem_cons_of_mem _ hmem)
    exact Bool.and_eq_true_iff.2 ⟨decide_eq_true rfl, hoperand⟩
  | binary op l r ihl ihr | compare op l r ihl ihr | assign op l r ihl ihr =>
    have hl := ihl fun hmem => h (List.mem_cons_of_mem _ (List.mem_append_left _ hmem))
    have hr := ihr fun hmem => h (List.mem_cons_of_mem _ (List.mem_append_right _ hmem))
    exact Bool.and_eq_true_iff.2 ⟨Bool.and_eq_true_iff.2 ⟨decide_eq_true rfl, hl⟩, hr⟩

theorem Expr.cover_slotParts {e e' : Option Expr} (h : (e == e') = true) :
    Cover (slotParts e) (slotParts e') := by
  cases e with
  | none =>
    cases e' with
    | none => exact .nil
    | some e' => cases h
  | some e =>
    cases e' with
    | none => cases h
    | some e' => exact cover_parts h

theorem Expr.slot_beq_self {e : Option Expr} (h : .float .nan ∉ slotParts e) :
    (e == e) = true := by
  cases e with
  | none => rfl
  | some e => exact beq_self h

/-! ## Statements -/

mutual

theorem Stmt.cover_parts {s s' : Stmt} (h : s.beq s' = true) :
    Expr.Cover s.parts s'.parts := by
  match s, s', h with
  | .init v e, .init v' e', h =>
    rw [Stmt.beq, Bool.and_eq_true, decide_eq_true_eq] at h
    obtain ⟨rfl, hvalue⟩ := h
    exact .cons (decide_eq_true rfl) (Expr.cover_parts hvalue)
  | .eval e, .eval e', h => exact Expr.cover_parts h
  | .loop start cond test step body, .loop start' cond' test' step' body', h =>
    simp only [Stmt.beq, Bool.and_eq_true] at h
    obtain ⟨⟨⟨⟨hstart, hcond⟩, htest⟩, hstep⟩, hbody⟩ := h
    apply Expr.Cover.append (Stmt.cover_listParts hstart)
    apply Expr.Cover.append (Expr.cover_slotParts hcond)
    apply Expr.Cover.append (Expr.cover_slotParts htest)
    apply Expr.Cover.append (Expr.cover_slotParts hstep)
    exact Stmt.cover_listParts hbody
  | .ret e, .ret e', h => exact Expr.cover_slotParts h

theorem Stmt.cover_listParts {l l' : List Stmt} (h : Stmt.listBeq l l' = true) :
    Expr.Cover (Stmt.listParts l) (Stmt.listParts l') := by
  match l, l', h with
  | [], [], _ => exact .nil
  | s :: rest, s' :: rest', h =>
    rw [Stmt.listBeq, Bool.and_eq_true] at h
    exact .append (Stmt.cover_parts h.1) (Stmt.cover_listParts h.2)

end

mutual

theorem Stmt.beq_self {s : Stmt} (h : .float .nan ∉ s.parts) : s.beq s = true := by
  match s with
  | .init v e =>
    have hvalue := Expr.beq_self fun hmem => h (List.mem_cons_of_mem _ hmem)
    rw [Stmt.beq, hvalue, decide_eq_true rfl, Bool.and_self]
  | .eval e => exact Expr.beq_self h
  | .loop start cond test step body =>
    simp only [Stmt.parts, List.mem_append, not_or] at h
    obtain ⟨hstart, hcond, htest, hstep, hbody⟩ := h
    simp only [Stmt.beq, Bool.and_eq_true]
    exact ⟨⟨⟨⟨Stmt.listBeq_self hstart, Expr.slot_beq_self hcond⟩, Expr.slot_beq_self htest⟩,
      Expr.slot_beq_self hstep⟩, Stmt.listBeq_self hbody⟩
  | .ret e => exact Expr.slot_beq_self h

theorem Stmt.listBeq_self {l : List Stmt} (h : .float .nan ∉ Stmt.listParts l) :
    Stmt.listBeq l l = true := by
  match l with
  | [] => rfl
  | s :: rest =>
    simp only [Stmt.listParts, List.mem_append, not_or] at h
    rw [Stmt.listBeq, Bool.and_eq_true]
    exact ⟨Stmt.beq_self h.1, Stmt.listBeq_self h.2⟩

end

/-! ## Arenas -/

theorem Arena.beq_iff {cls : DeclClass} {α : Type} [BEq α] {a b : Arena cls α} :
    (a == b) = true ↔ a.size = b.size ∧
      ∀ (i : Nat) (x y : α), a.items[i]? = some x → b.items[i]? = some y → (x == y) = true := by
  show (a.items == b.items) = true ↔ a.items.size = b.items.size ∧ _
  rw [Array.beq_eq_decide]
  split
  case isTrue hsize =>
    rw [decide_eq_true_eq]
    constructor
    · intro h
      refine ⟨hsize, ?_⟩
      intro i x y hx hy
      obtain ⟨hi, rfl⟩ := Array.getElem?_eq_some_iff.1 hx
      obtain ⟨-, rfl⟩ := Array.getElem?_eq_some_iff.1 hy
      exact h i hi
    · intro h i hi
      exact h.2 i _ _ (Array.getElem?_eq_getElem hi) (Array.getElem?_eq_getElem (hsize ▸ hi))
  case isFalse hsize => exact iff_of_false Bool.false_ne_true fun h => hsize h.1

theorem Arena.exists_item_of_beq {cls : DeclClass} {α : Type} [BEq α] {a b : Arena cls α}
    (h : (a == b) = true) {i : Nat} {y : α} (hy : b.items[i]? = some y) :
    ∃ x, a.items[i]? = some x ∧ (x == y) = true := by
  obtain ⟨hsize, hitems⟩ := Arena.beq_iff.1 h
  have hi : i < a.items.size := by
    have := (Array.getElem?_eq_some_iff.1 hy).1
    unfold Arena.size at hsize
    omega
  exact ⟨_, Array.getElem?_eq_getElem hi, hitems i _ y (Array.getElem?_eq_getElem hi) hy⟩

theorem Arena.beq_map {cls : DeclClass} {α : Type} [BEq α] {a : Arena cls α} {f : α → α}
    (h : ∀ (i : Nat) (x : α), a.items[i]? = some x → (f x == x) = true) :
    (a.map f == a) = true := by
  refine Arena.beq_iff.2 ⟨by simp [Arena.map, Arena.size], ?_⟩
  intro i x y hx hy
  rw [Arena.map, Array.getElem?_map, hy] at hx
  cases hx
  exact h i y hy

/-! ## Modules -/

theorem Variable.init_beq {v v' : Variable} (h : (v == v') = true) :
    (v.init == v'.init) = true := (Bool.and_eq_true_iff.1 h).2

theorem Function.beq_parts {f f' : Function} (h : (f == f') = true) :
    (f.parameters == f'.parameters) = true ∧ (f.locals == f'.locals) = true ∧
      Stmt.listBeq f.body f'.body = true := by
  change (decide (f.name = f'.name) && f.returns == f'.returns && f.parameters == f'.parameters &&
    decide (f.isVariadic = f'.isVariadic) && f.locals == f'.locals &&
    Stmt.listBeq f.body f'.body && decide (f.isInline = f'.isInline)) = true at h
  simp only [Bool.and_eq_true] at h
  exact ⟨h.1.1.1.1.2, h.1.1.2, h.1.2⟩

theorem Module.beq_iff {m m' : Module} : (m == m') = true ↔
    m.name = m'.name ∧ (m.types == m'.types) = true ∧ (m.globals == m'.globals) = true ∧
      (m.functions == m'.functions) = true := by
  show (decide (m.name = m'.name) && m.types == m'.types && m.globals == m'.globals &&
    m.functions == m'.functions) = true ↔ _
  simp only [Bool.and_eq_true, decide_eq_true_eq, and_assoc]

/-- Every expression of a module equals one that stands at the same place of an equal module. -/
theorem Module.exists_occurs_of_beq {m m' : Module} (h : (m == m') = true) {site' : Site}
    {e' : Expr} (hoccurs : m'.Occurs site' e') :
    ∃ site e, m.Occurs site e ∧ site.horizon = site'.horizon ∧ (e == e') = true := by
  obtain ⟨-, -, hglobals, hfunctions⟩ := Module.beq_iff.1 h
  have hsize := (Arena.beq_iff.1 hglobals).1
  cases hoccurs with
  | global hv' he' =>
    obtain ⟨v, hv, hequal⟩ := Arena.exists_item_of_beq hglobals hv'
    obtain ⟨e, he, hbeq⟩ := Expr.cover_slotParts (Variable.init_beq hequal) _ he'
    exact ⟨_, e, .global hv he, rfl, hbeq⟩
  | localVar hf' hv' he' =>
    obtain ⟨f, hf, hequal⟩ := Arena.exists_item_of_beq hfunctions hf'
    obtain ⟨hparameters, hlocals, -⟩ := Function.beq_parts hequal
    obtain ⟨v, hv, hvequal⟩ := Arena.exists_item_of_beq hlocals hv'
    obtain ⟨e, he, hbeq⟩ := Expr.cover_slotParts (Variable.init_beq hvequal) _ he'
    refine ⟨_, e, .localVar hf hv he, ?_, hbeq⟩
    rw [hsize, (Arena.beq_iff.1 hparameters).1]
  | body hf' he' =>
    obtain ⟨f, hf, hequal⟩ := Arena.exists_item_of_beq hfunctions hf'
    obtain ⟨hparameters, hlocals, hbody⟩ := Function.beq_parts hequal
    obtain ⟨e, he, hbeq⟩ := Stmt.cover_listParts hbody _ he'
    refine ⟨_, e, .body hf he, ?_, hbeq⟩
    rw [hsize, (Arena.beq_iff.1 hparameters).1, (Arena.beq_iff.1 hlocals).1]

/-! ## Labels -/

def TypeName.unlabelled (t : TypeName) : TypeName := { t with label := none }

def Variable.unlabelled (v : Variable) : Variable :=
  { v with type := v.type.unlabelled, label := none }

def Parameter.unlabelled (p : Parameter) : Parameter :=
  { p with type := p.type.unlabelled, label := none }

def Function.unlabelled (f : Function) : Function :=
  { f with
    returns := f.returns.unlabelled
    parameters := f.parameters.map Parameter.unlabelled
    locals := f.locals.map Variable.unlabelled
    label := none }

/-- The module without any labels. -/
def Module.unlabelled (m : Module) : Module :=
  { m with
    types := m.types.map TypeName.unlabelled
    globals := m.globals.map Variable.unlabelled
    functions := m.functions.map Function.unlabelled }

theorem Variable.unlabelled_beq {v : Variable} (h : .float .nan ∉ Expr.slotParts v.init) :
    (v.unlabelled == v) = true := by
  show (decide (v.name = v.name) && decide (v.type.name = v.type.name) && v.init == v.init) = true
  rw [Expr.slot_beq_self h, decide_eq_true rfl, decide_eq_true rfl]
  rfl

theorem Parameter.unlabelled_beq (p : Parameter) : (p.unlabelled == p) = true := by
  show (decide (p.name = p.name) && decide (p.type.name = p.type.name)) = true
  rw [decide_eq_true rfl, decide_eq_true rfl]
  rfl

theorem Function.unlabelled_beq {f : Function}
    (hlocals : ∀ (i : Nat) (v : Variable), f.locals.items[i]? = some v →
      .float .nan ∉ Expr.slotParts v.init)
    (hbody : .float .nan ∉ Stmt.listParts f.body) : (f.unlabelled == f) = true := by
  show (decide (f.name = f.name) && decide (f.returns.name = f.returns.name) &&
    f.parameters.map Parameter.unlabelled == f.parameters &&
    decide (f.isVariadic = f.isVariadic) && f.locals.map Variable.unlabelled == f.locals &&
    Stmt.listBeq f.body f.body && decide (f.isInline = f.isInline)) = true
  rw [Arena.beq_map fun _ p _ => p.unlabelled_beq,
    Arena.beq_map fun i v hv => Variable.unlabelled_beq (hlocals i v hv), Stmt.listBeq_self hbody]
  simp

/-- Labels do not count in comparing modules without a NaN. -/
theorem Module.unlabelled_beq {m : Module} (h : ∀ site, ¬ m.Occurs site (.float .nan)) :
    (m.unlabelled == m) = true := by
  refine Module.beq_iff.2 ⟨rfl, ?_, ?_, ?_⟩
  · exact Arena.beq_map fun _ t _ => decide_eq_true (rfl : t.unlabelled.name = t.name)
  · exact Arena.beq_map fun i v hv => Variable.unlabelled_beq fun hmem => h _ (.global hv hmem)
  · exact Arena.beq_map fun k f hf => Function.unlabelled_beq
      (fun j v hv hmem => h _ (.localVar hf hv hmem)) fun hmem => h _ (.body hf hmem)

/-- A module that equals one with visible references and complete operators is well-formed. -/
theorem Module.wellFormed_of_beq {m m' : Module} (h : (m' == m) = true)
    (hvisible : ∀ site target, m'.Occurs site (.ref target) → site.horizon.Shows target)
    (hcomplete : ∀ site op operand, m'.Occurs site (.unary op operand) → op.isUnary = true) :
    m.WellFormed where
  visible := by
    intro site target hoccurs
    obtain ⟨site', e, hoccurs', hhorizon, hequal⟩ := exists_occurs_of_beq h hoccurs
    rw [Expr.eq_ref_of_beq hequal] at hoccurs'
    exact hhorizon ▸ hvisible site' target hoccurs'
  complete := by
    intro site op operand hoccurs
    obtain ⟨site', e, hoccurs', -, hequal⟩ := exists_occurs_of_beq h hoccurs
    obtain ⟨operand', rfl⟩ := Expr.exists_eq_unary_of_beq hequal
    exact hcomplete site' op operand' hoccurs'
  comparable := by
    intro site hoccurs
    obtain ⟨site', e, -, -, hequal⟩ := exists_occurs_of_beq h hoccurs
    exact Expr.not_beq_nan hequal

end KeyedIR
