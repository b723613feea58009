import KeyedIR.Proofs.Program.WellFormed
/-! # Programs without lost references

A reference is *lost* if it is not to a declaration. Pruning takes the lost references out of a
program in the way in which parts of unknown kinds are left out of one that is read: what cannot do
without such a reference goes with it, up to an expression that need not be there or to a statement
of a list.

A part is *readable* if no lost reference stands where an expression has to be. Only such a part can
be read back from its record (`Module.load_save_pruned`). If no reference is lost, every part is
readable and pruning changes nothing.
-/

namespace KeyedIR

set_option autoImplicit false

/-! ## Expressions -/

namespace Expr

variable (kept : Ref → Bool)

def pruned : Expr → Option Expr
  | .ref target => if kept target then some (.ref target) else none
  | .int n => some (.int n)
  | .float x => some (.float x)
  | .unary op operand => operand.pruned.map (.unary op)
  | .binary op lhs rhs => lhs.pruned.bind fun lhs =>
    match rhs.pruned with
    | some rhs => some (.binary op lhs rhs)
    | none => if op.isUnary then some (.unary op lhs) else none
  | .compare op lhs rhs => lhs.pruned.bind fun lhs => rhs.pruned.map (.compare op lhs)
  | .assign op lhs rhs => lhs.pruned.bind fun lhs => rhs.pruned.map (.assign op lhs)

/-- The expression is a lost reference. -/
def isLost : Expr → Bool
  | .ref target => !kept target
  | _ => false

/-- The second operand of an operator that takes one operand need not be there. -/
def Readable : Expr → Prop
  | .ref target => kept target = true
  | .int _ | .float _ => True
  | .unary _ operand => operand.Readable
  | .binary op lhs rhs =>
    lhs.Readable ∧ (op.isUnary = true ∧ rhs.isLost kept = true ∨ rhs.Readable)
  | .compare _ lhs rhs | .assign _ lhs rhs => lhs.Readable ∧ rhs.Readable

/-- The expression need not be there, but if it is and is no lost reference itself, it has to be
readable. -/
def SlotReadable (e : Option Expr) : Prop :=
  ∀ e' ∈ e, e'.isLost kept = true ∨ e'.Readable kept

variable {kept : Ref → Bool}

theorem exists_pruned {e : Expr} (h : e.Readable kept) : ∃ e', e.pruned kept = some e' := by
  induction e with
  | ref target => exact ⟨_, if_pos h⟩
  | int | float => exact ⟨_, rfl⟩
  | unary op operand ih =>
    obtain ⟨operand', hoperand⟩ := ih h
    exact ⟨_, by rw [pruned, hoperand]; rfl⟩
  | binary op lhs rhs ihl ihr =>
    obtain ⟨lhs', hlhs⟩ := ihl h.1
    rw [pruned, hlhs, Option.bind_some]
    split
    · exact ⟨_, rfl⟩
    case h_2 hrhs =>
      rcases h.2 with ⟨hop, -⟩ | hreadable
      · exact ⟨_, if_pos hop⟩
      · obtain ⟨rhs', hrhs'⟩ := ihr hreadable
        rw [hrhs] at hrhs'
        cases hrhs'
  | compare op lhs rhs ihl ihr | assign op lhs rhs ihl ihr =>
    obtain ⟨lhs', hlhs⟩ := ihl h.1
    obtain ⟨rhs', hrhs⟩ := ihr h.2
    exact ⟨_, by rw [pruned, hlhs, hrhs]; rfl⟩

theorem pruned_eq_none_of_isLost {e : Expr} (h : e.isLost kept = true) : e.pruned kept = none := by
  cases e with
  | ref target =>
    have hlost : kept target = false := by simpa [isLost] using h
    rw [pruned, hlost]
    rfl
  | _ => cases h

/-- Every reference in some parts is kept. -/
def AllKept (kept : Ref → Bool) (parts : List Expr) : Prop :=
  ∀ target, .ref target ∈ parts → kept target = true

theorem allKept_append {l l' : List Expr} :
    AllKept kept (l ++ l') ↔ AllKept kept l ∧ AllKept kept l' := by
  simp only [AllKept, List.mem_append, or_imp, forall_and]

theorem AllKept.tail {e : Expr} {l : List Expr} (h : AllKept kept (e :: l)) : AllKept kept l :=
  fun target htarget => h target (List.mem_cons_of_mem e htarget)

theorem pruned_of_allKept {e : Expr} (h : AllKept kept e.parts) :
    e.pruned kept = some e ∧ e.Readable kept := by
  induction e with
  | ref target =>
    have hkept : kept target = true := h target List.mem_cons_self
    exact ⟨if_pos hkept, hkept⟩
  | int | float => exact ⟨rfl, trivial⟩
  | unary op operand ih =>
    obtain ⟨hpruned, hreadable⟩ := ih h.tail
    exact ⟨by rw [pruned, hpruned]; rfl, hreadable⟩
  | binary op lhs rhs ihl ihr =>
    obtain ⟨hl, hr⟩ := allKept_append.1 h.tail
    exact ⟨by rw [pruned, (ihl hl).1, (ihr hr).1]; rfl, (ihl hl).2, .inr (ihr hr).2⟩
  | compare op lhs rhs ihl ihr | assign op lhs rhs ihl ihr =>
    obtain ⟨hl, hr⟩ := allKept_append.1 h.tail
    exact ⟨by rw [pruned, (ihl hl).1, (ihr hr).1]; rfl, (ihl hl).2, (ihr hr).2⟩

theorem slot_of_allKept {e : Option Expr} (h : AllKept kept (slotParts e)) :
    e.bind (pruned kept) = e ∧ SlotReadable kept e := by
  cases e with
  | none => exact ⟨rfl, nofun⟩
  | some e =>
    obtain ⟨hpruned, hreadable⟩ := pruned_of_allKept h
    refine ⟨hpruned, fun e' he' => ?_⟩
    cases he'
    exact .inr hreadable

end Expr

/-! ## Statements -/

namespace Stmt

variable (kept : Ref → Bool)

/-- Only a first value for a variable that is lost has no record. -/
def isStored : Stmt → Bool
  | .init target _ => kept target.toRef
  | _ => true

/-- The statements of a list that have records, with their positions. -/
def stored (l : List Stmt) : List (Stmt × Nat) := l.zipIdx.filter (·.1.isStored kept)

/-- The list is empty, or some of its statements have records. -/
def ListStored (l : List Stmt) : Prop := l = [] ∨ stored kept l ≠ []

mutual

def pruned : Stmt → Option Stmt
  | .init target value =>
    if kept target.toRef then (value.pruned kept).map (.init target) else none
  | .eval e => (e.pruned kept).map .eval
  | .loop start cond test step body =>
    some (.loop (listPruned start) (cond.bind (Expr.pruned kept)) (test.bind (Expr.pruned kept))
      (step.bind (Expr.pruned kept)) (listPruned body))
  | .ret value => some (.ret (value.bind (Expr.pruned kept)))

def listPruned : List Stmt → List Stmt
  | [] => []
  | s :: rest =>
    match s.pruned with
    | some s => s :: listPruned rest
    | none => listPruned rest

end

mutual

def Readable : Stmt → Prop
  | .init target value => kept target.toRef = true → value.Readable kept
  | .eval e => e.Readable kept
  | .loop start cond test step body =>
    (ListStored kept start ∧ EachReadable start) ∧ Expr.SlotReadable kept cond ∧
      Expr.SlotReadable kept test ∧ Expr.SlotReadable kept step ∧
      (ListStored kept body ∧ EachReadable body)
  | .ret value => Expr.SlotReadable kept value

def EachReadable : List Stmt → Prop
  | [] => True
  | s :: rest => s.Readable ∧ EachReadable rest

end

/-- The list and its statements can be read. -/
def ListReadable (l : List Stmt) : Prop := ListStored kept l ∧ EachReadable kept l

theorem listPruned_eq (l : List Stmt) : listPruned kept l = l.filterMap (pruned kept) := by
  induction l with
  | nil => rfl
  | cons s rest ih =>
    rw [listPruned, List.filterMap_cons, ih]
    split <;> simp_all

theorem eachReadable_iff {l : List Stmt} : EachReadable kept l ↔ ∀ s ∈ l, s.Readable kept := by
  induction l with
  | nil => exact iff_of_true trivial nofun
  | cons s rest ih => rw [EachReadable, ih, List.forall_mem_cons]

variable {kept : Ref → Bool}

theorem mem_of_mem_stored {l : List Stmt} {item : Stmt × Nat} (h : item ∈ stored kept l) :
    l[item.2]? = some item.1 ∧ item.1.isStored kept = true := by
  obtain ⟨hitem, hstored⟩ := List.mem_filter.1 h
  exact ⟨List.mem_zipIdx_iff_getElem?.1 hitem, hstored⟩

theorem map_fst_stored (l : List Stmt) :
    (stored kept l).map Prod.fst = l.filter (isStored kept) :=
  (List.filter_map ..).symm.trans (congrArg (List.filter (isStored kept)) (List.zipIdx_map_fst 0 l))

/-- A statement without a record is left out, and nothing in it has to be read. -/
theorem pruned_of_not_stored {s : Stmt} (h : s.isStored kept = false) :
    s.pruned kept = none ∧ s.Readable kept := by
  cases s with
  | init target value =>
    have hlost : kept target.toRef = false := h
    rw [pruned, Readable, hlost]
    exact ⟨rfl, nofun⟩
  | _ => cases h

theorem listPruned_stored (l : List Stmt) :
    ((stored kept l).map fun item => item.1.pruned kept).reduceOption = listPruned kept l := by
  have hstored : ((stored kept l).map fun item => item.1.pruned kept).reduceOption =
      ((stored kept l).map Prod.fst).filterMap (pruned kept) := by
    rw [List.filterMap_map]
    exact List.filterMap_map
  rw [hstored, map_fst_stored, List.filterMap_filter, listPruned_eq]
  refine congrArg (List.filterMap · l) (funext fun s => ?_)
  cases hstored : s.isStored kept with
  | false => rw [(pruned_of_not_stored hstored).1]; rfl
  | true => rfl

theorem eachReadable_stored (l : List Stmt) :
    (∀ item ∈ stored kept l, item.1.Readable kept) ↔ EachReadable kept l := by
  have hfirst : (∀ item ∈ stored kept l, item.1.Readable kept) ↔
      ∀ s ∈ l.filter (isStored kept), s.Readable kept := by
    rw [← map_fst_stored, List.forall_mem_map]
  rw [hfirst, eachReadable_iff]
  refine ⟨fun h s hs => ?_, fun h s hs => h s (List.mem_filter.1 hs).1⟩
  cases hstored : s.isStored kept with
  | false => exact (pruned_of_not_stored hstored).2
  | true => exact h s (List.mem_filter.2 ⟨hs, hstored⟩)

open KeyedIR.Expr

theorem isStored_of_allKept {s : Stmt} (h : AllKept kept s.parts) : s.isStored kept = true := by
  cases s with
  | init target value => exact h _ List.mem_cons_self
  | _ => rfl

theorem listStored_of_allKept {l : List Stmt} (h : AllKept kept (listParts l)) :
    ListStored kept l := by
  cases l with
  | nil => exact .inl rfl
  | cons s rest =>
    have hfirst : (s, 0) ∈ stored kept (s :: rest) :=
      List.mem_filter.2 ⟨List.mem_cons_self, isStored_of_allKept (allKept_append.1 h).1⟩
    exact .inr (List.ne_nil_of_mem hfirst)

mutual

theorem pruned_of_allKept {s : Stmt} (h : AllKept kept s.parts) :
    s.pruned kept = some s ∧ s.Readable kept := by
  match s with
  | .init target value =>
    have hkept : kept target.toRef = true := h _ List.mem_cons_self
    obtain ⟨hpruned, hreadable⟩ := Expr.pruned_of_allKept h.tail
    exact ⟨by rw [pruned, if_pos hkept, hpruned]; rfl, fun _ => hreadable⟩
  | .eval e =>
    obtain ⟨hpruned, hreadable⟩ := Expr.pruned_of_allKept h
    exact ⟨by rw [pruned, hpruned]; rfl, hreadable⟩
  | .loop start cond test step body =>
    simp only [parts, allKept_append] at h
    obtain ⟨hstart, hcond, htest, hstep, hbody⟩ := h
    obtain ⟨hstart', hstartRead⟩ := listPruned_of_allKept hstart
    obtain ⟨hbody', hbodyRead⟩ := listPruned_of_allKept hbody
    refine ⟨?_, ⟨listStored_of_allKept hstart, hstartRead⟩, (slot_of_allKept hcond).2,
      (slot_of_allKept htest).2, (slot_of_allKept hstep).2,
      ⟨listStored_of_allKept hbody, hbodyRead⟩⟩
    rw [pruned, hstart', hbody', (slot_of_allKept hcond).1, (slot_of_allKept htest).1,
      (slot_of_allKept hstep).1]
  | .ret value =>
    obtain ⟨hpruned, hreadable⟩ := slot_of_allKept h
    exact ⟨by rw [pruned, hpruned], hreadable⟩

theorem listPruned_of_allKept {l : List Stmt} (h : AllKept kept (listParts l)) :
    listPruned kept l = l ∧ EachReadable kept l := by
  match l with
  | [] => exact ⟨rfl, trivial⟩
  | s :: rest =>
    obtain ⟨hs, hrest⟩ := allKept_append.1 h
    obtain ⟨hpruned, hreadable⟩ := pruned_of_allKept hs
    obtain ⟨hpruned', hreadable'⟩ := listPruned_of_allKept hrest
    exact ⟨by rw [listPruned, hpruned, hpruned'], hreadable, hreadable'⟩

end

end Stmt

/-! ## Modules -/

/-- Inside a function or outside all, a reference leads to a declaration. -/
def Module.declares (m : Module) (inside : Option Function) (target : Ref) : Bool :=
  (m.target? inside target).isSome

def Variable.pruned (kept : Ref → Bool) (v : Variable) : Variable :=
  { v with init := v.init.bind (Expr.pruned kept) }

def Function.pruned (m : Module) (f : Function) : Function :=
  { f with
    locals := f.locals.map (Variable.pruned (m.declares (some f)))
    body := Stmt.listPruned (m.declares (some f)) f.body }

def Module.pruned (m : Module) : Module :=
  { m with
    globals := m.globals.map (Variable.pruned (m.declares none))
    functions := m.functions.map (Function.pruned m) }

structure Function.Readable (m : Module) (f : Function) : Prop where
  locals : ∀ (j : Nat) (v : Variable), f.locals.items[j]? = some v →
    Expr.SlotReadable (m.declares (some f)) v.init
  body : Stmt.ListReadable (m.declares (some f)) f.body

structure Module.Readable (m : Module) : Prop where
  globals : ∀ (i : Nat) (v : Variable), m.globals.items[i]? = some v →
    Expr.SlotReadable (m.declares none) v.init
  functions : ∀ (k : Nat) (f : Function), m.functions.items[k]? = some f → f.Readable m

theorem Variable.pruned_of_allKept {kept : Ref → Bool} {v : Variable}
    (h : Expr.AllKept kept (Expr.slotParts v.init)) : v.pruned kept = v := by
  rw [Variable.pruned, (Expr.slot_of_allKept h).1]

/-- If all references lead to declarations, nothing is pruned. -/
theorem Module.pruned_of_declared {m : Module}
    (h : ∀ site target, m.Occurs site (.ref target) → m.declares site.inside target = true) :
    m.pruned = m ∧ m.Readable := by
  have hglobal {i : Nat} {v : Variable} (hv : m.globals.items[i]? = some v) :
      Expr.AllKept (m.declares none) (Expr.slotParts v.init) :=
    fun target htarget => h _ target (.global hv htarget)
  have hlocal {k j : Nat} {f : Function} {v : Variable} (hf : m.functions.items[k]? = some f)
      (hv : f.locals.items[j]? = some v) :
      Expr.AllKept (m.declares (some f)) (Expr.slotParts v.init) :=
    fun target htarget => h _ target (.localVar hf hv htarget)
  have hbody {k : Nat} {f : Function} (hf : m.functions.items[k]? = some f) :
      Expr.AllKept (m.declares (some f)) (Stmt.listParts f.body) :=
    fun target htarget => h _ target (.body hf htarget)
  have hfunction {k : Nat} {f : Function} (hf : m.functions.items[k]? = some f) :
      f.pruned m = f := by
    rw [Function.pruned, Arena.map_eq_self fun j v hv => Variable.pruned_of_allKept (hlocal hf hv),
      (Stmt.listPruned_of_allKept (hbody hf)).1]
  refine ⟨?_, ⟨?_, ?_⟩⟩
  · rw [Module.pruned, Arena.map_eq_self fun i v hv => Variable.pruned_of_allKept (hglobal hv),
      Arena.map_eq_self fun k f hf => hfunction hf]
  · exact fun i v hv => (Expr.slot_of_allKept (hglobal hv)).2
  · intro k f hf
    refine ⟨fun j v hv => (Expr.slot_of_allKept (hlocal hf hv)).2, ?_⟩
    exact ⟨Stmt.listStored_of_allKept (hbody hf), (Stmt.listPruned_of_allKept (hbody hf)).2⟩

end KeyedIR
