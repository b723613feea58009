import KeyedIR.Proofs.Record.Events
/-! # Warnings of lost references

Saving warns once for each lost reference that it comes to. It comes to every reference, except that
a first value of a lost variable is left out with all that is in it, for one warning of its own
(`Module.warns_once_per_lost_reference`).
-/

namespace KeyedIR

set_option autoImplicit false

open Record

def Event.isWarning (e : Event) : Bool := decide (e.level = .warn)

/-! ## References of a program -/

/-- A reference in an expression. -/
structure Identifier where
  target : Ref
  /-- The variable whose first value the identifier is part of. -/
  initOf : Option VarRef

/-- The identifier is lost and is not left out with the first value of a lost variable. -/
def Identifier.isReported (kept : Ref → Bool) (i : Identifier) : Bool :=
  !kept i.target && i.initOf.all fun v => kept v.toRef

def Expr.references : Expr → List Ref
  | .ref target => [target]
  | .int _ | .float _ => []
  | .unary _ operand => operand.references
  | .binary _ lhs rhs | .compare _ lhs rhs | .assign _ lhs rhs => lhs.references ++ rhs.references

/-- The identifiers of an expression that need not be there. -/
def Expr.identifiers (initOf : Option VarRef) (e : Option Expr) : List Identifier :=
  e.elim [] fun e => e.references.map (⟨·, initOf⟩)

mutual

/-- The variables that get first values in a statement, at any depth. -/
def Stmt.initTargets : Stmt → List VarRef
  | .init target _ => [target]
  | .eval _ | .ret _ => []
  | .loop start _ _ _ body => Stmt.listInitTargets start ++ Stmt.listInitTargets body

def Stmt.listInitTargets : List Stmt → List VarRef
  | [] => []
  | s :: rest => s.initTargets ++ Stmt.listInitTargets rest

end

mutual

/-- The identifiers of a statement, at any depth. -/
def Stmt.identifiers : Stmt → List Identifier
  | .init target value => Expr.identifiers (some target) (some value)
  | .eval e => Expr.identifiers none (some e)
  | .loop start cond test step body =>
    Stmt.listIdentifiers start ++ Expr.identifiers none cond ++ Expr.identifiers none test ++
      Expr.identifiers none step ++ Stmt.listIdentifiers body
  | .ret value => Expr.identifiers none value

def Stmt.listIdentifiers : List Stmt → List Identifier
  | [] => []
  | s :: rest => s.identifiers ++ Stmt.listIdentifiers rest

end

/-- The identifiers in the first values that variables are declared with. -/
def Arena.identifiers {cls : DeclClass} (a : Arena cls Variable) : List Identifier :=
  a.toList.flatMap fun v => Expr.identifiers none v.init

def Function.identifiers (f : Function) : List Identifier :=
  f.locals.identifiers ++ Stmt.listIdentifiers f.body

/-- The variables that get first values in the bodies of functions, each with its function. -/
def Module.initTargets (m : Module) : List (Function × VarRef) :=
  m.functions.toList.flatMap fun f => (Stmt.listInitTargets f.body).map (f, ·)

/-- All identifiers of a module, each with the function in which it stands. -/
def Module.identifiers (m : Module) : List (Option Function × Identifier) :=
  m.globals.identifiers.map (none, ·) ++
    m.functions.toList.flatMap fun f => f.identifiers.map (some f, ·)

/-! ## Warnings of expressions and statements -/

section

variable {labelOf : Ref → Option Label} {kept : Ref → Bool}

theorem Expr.countP_events (hkept : ∀ r, (labelOf r).isSome = kept r) (e : Expr) (path : Path) :
    (e.events labelOf path).countP Event.isWarning = e.references.countP fun r => !kept r := by
  induction e generalizing path with
  | ref target =>
    rw [events, references, hkept]
    cases h : kept target <;> simp [h, Event.isWarning, Event.level]
  | int n | float x => rfl
  | unary op operand ih => exact ih _
  | binary op l r ihl ihr | compare op l r ihl ihr | assign op l r ihl ihr =>
    rw [events, references, List.countP_append, List.countP_append, ihl, ihr]

/-- The identifiers of an expression are reported one by one, unless they are part of the first
value of a lost variable. -/
theorem Expr.countP_identifiers (initOf : Option VarRef) (e : Option Expr) :
    (identifiers initOf e).countP (Identifier.isReported kept) =
      if initOf.all (fun v => kept v.toRef) then
        e.elim 0 fun e => e.references.countP fun r => !kept r
      else 0 := by
  cases e with
  | none => simp [identifiers]
  | some e =>
    rw [identifiers, Option.elim_some, Option.elim_some, List.countP_map]
    split
    case isTrue hinit => simp [Function.comp_def, Identifier.isReported, hinit]
    case isFalse hinit => simp [Function.comp_def, Identifier.isReported, hinit]

theorem Record.countP_slotEvents (hkept : ∀ r, (labelOf r).isSome = kept r) (e : Option Expr)
    (path : Path) : (slotEvents labelOf path e).countP Event.isWarning =
      (Expr.identifiers none e).countP (Identifier.isReported kept) := by
  rw [Expr.countP_identifiers]
  cases e with
  | none => rfl
  | some e => exact e.countP_events hkept path

/-- How many of some variables are lost and how many of some identifiers are reported. -/
def Stmt.lost (kept : Ref → Bool) (targets : List VarRef) (identifiers : List Identifier) : Nat :=
  targets.countP (fun v => !kept v.toRef) + identifiers.countP (Identifier.isReported kept)

mutual

theorem Stmt.countP_events (hkept : ∀ r, (labelOf r).isSome = kept r) (s : Stmt) (path : Path) :
    (s.events labelOf path).countP Event.isWarning = lost kept s.initTargets s.identifiers := by
  have hquiet : (Event.writingStatement path).isWarning = false := rfl
  match s with
  | .init target value =>
    rw [events, lost, initTargets, identifiers, Expr.countP_identifiers, hkept]
    cases h : kept target.toRef with
    | true => simp [h, value.countP_events hkept, hquiet]
    | false => simp [h, Event.isWarning, Event.level]
  | .eval e =>
    have he := countP_slotEvents hkept (some e) (path ++ ["expr"])
    rw [slotEvents] at he
    simp [events, lost, initTargets, identifiers, hquiet, he]
  | .loop start cond test step body =>
    have hstart := Stmt.countP_listEvents hkept start (path ++ ["decl1"]) 0
    have hbody := Stmt.countP_listEvents hkept body (path ++ ["body"]) 0
    rw [lost] at hstart hbody
    simp only [events, lost, initTargets, identifiers, List.countP_cons, List.countP_append,
      hquiet, hstart, hbody, countP_slotEvents hkept, Bool.false_eq_true, if_false]
    omega
  | .ret value => simp [events, lost, initTargets, identifiers, hquiet, countP_slotEvents hkept]

theorem Stmt.countP_listEvents (hkept : ∀ r, (labelOf r).isSome = kept r) (l : List Stmt)
    (path : Path) (position : Nat) :
    (Stmt.listEvents labelOf path position l).countP Event.isWarning =
      lost kept (Stmt.listInitTargets l) (Stmt.listIdentifiers l) := by
  match l with
  | [] => rfl
  | s :: rest =>
    have hs := Stmt.countP_events hkept s (path ++ [statementKey position])
    have hrest := Stmt.countP_listEvents hkept rest path (position + 1)
    rw [lost] at hs hrest
    simp only [Stmt.listEvents, lost, listInitTargets, listIdentifiers, List.countP_append, hs,
      hrest]
    omega

end

theorem Arena.countP_initEvents {cls : DeclClass} (hkept : ∀ r, (labelOf r).isSome = kept r)
    (path : Path) (a : Arena cls Variable) :
    (a.initEvents labelOf path).countP Event.isWarning =
      a.identifiers.countP (Identifier.isReported kept) := by
  have hpositions : a.toList = a.toList.zipIdx.map Prod.fst := (List.zipIdx_map_fst 0 _).symm
  rw [initEvents, identifiers, hpositions, List.flatMap_map, List.countP_flatMap,
    List.countP_flatMap, ← hpositions]
  refine congrArg List.sum (List.map_congr_left fun x _ => ?_)
  exact countP_slotEvents hkept x.1.init _

end

/-! ## Where nothing is lost -/

section

variable {kept : Ref → Bool}

theorem Expr.mem_references {e : Expr} {target : Ref} :
    target ∈ e.references ↔ .ref target ∈ e.parts := by
  induction e with
  | ref target' => simp [references, parts]
  | int n | float x => simp [references, parts]
  | unary op operand ih => simp [references, parts, ih]
  | binary op l r ihl ihr | compare op l r ihl ihr | assign op l r ihl ihr =>
    simp [references, parts, ihl, ihr]

theorem Expr.countP_references_eq_zero {e : Expr} :
    (e.references.countP fun r => !kept r) = 0 ↔ Expr.AllKept kept e.parts := by
  simp only [List.countP_eq_zero, Expr.AllKept, mem_references, Bool.not_eq_true',
    Bool.not_eq_false]

theorem Expr.countP_identifiers_eq_zero {e : Option Expr} :
    (identifiers none e).countP (Identifier.isReported kept) = 0 ↔
      Expr.AllKept kept (Expr.slotParts e) := by
  rw [countP_identifiers]
  cases e with
  | none => simp [Expr.slotParts, Expr.AllKept]
  | some e => exact countP_references_eq_zero

mutual

theorem Stmt.lost_eq_zero {s : Stmt} :
    lost kept s.initTargets s.identifiers = 0 ↔ Expr.AllKept kept s.parts := by
  match s with
  | .init target value =>
    have hparts : Expr.AllKept kept (Stmt.init target value).parts ↔
        kept target.toRef = true ∧ Expr.AllKept kept value.parts := by
      simp [Expr.AllKept, parts]
    rw [hparts, ← Expr.countP_references_eq_zero, lost, initTargets, identifiers,
      Expr.countP_identifiers]
    cases h : kept target.toRef <;> simp [h]
  | .eval e =>
    rw [lost, initTargets, List.countP_nil, Nat.zero_add]
    exact Expr.countP_identifiers_eq_zero
  | .loop start cond test step body =>
    have hstart := Stmt.lost_eq_zero_list (l := start)
    have hbody := Stmt.lost_eq_zero_list (l := body)
    simp only [lost, Nat.add_eq_zero_iff] at hstart hbody
    simp only [parts, Expr.allKept_append, ← hstart, ← hbody, ← Expr.countP_identifiers_eq_zero,
      lost, initTargets, identifiers, List.countP_append, Nat.add_eq_zero_iff]
    tauto
  | .ret value =>
    rw [lost, initTargets, List.countP_nil, Nat.zero_add]
    exact Expr.countP_identifiers_eq_zero

theorem Stmt.lost_eq_zero_list {l : List Stmt} :
    lost kept (Stmt.listInitTargets l) (Stmt.listIdentifiers l) = 0 ↔
      Expr.AllKept kept (Stmt.listParts l) := by
  match l with
  | [] => simp [lost, listInitTargets, listIdentifiers, listParts, Expr.AllKept]
  | s :: rest =>
    have hs := Stmt.lost_eq_zero (s := s)
    have hrest := Stmt.lost_eq_zero_list (l := rest)
    simp only [lost, Nat.add_eq_zero_iff] at hs hrest
    simp only [listParts, Expr.allKept_append, ← hs, ← hrest, lost, listInitTargets,
      listIdentifiers, List.countP_append, Nat.add_eq_zero_iff]
    tauto

end

theorem Arena.countP_identifiers_eq_zero {cls : DeclClass} {a : Arena cls Variable} :
    a.identifiers.countP (Identifier.isReported kept) = 0 ↔
      ∀ (i : Nat) (v : Variable), a.items[i]? = some v →
        Expr.AllKept kept (Expr.slotParts v.init) := by
  rw [identifiers, List.countP_flatMap, List.sum_eq_zero_iff]
  simp only [List.forall_mem_map, Function.comp_def, Expr.countP_identifiers_eq_zero]
  constructor
  · intro h i v hv
    exact h v (Arena.mem_toList_iff.2 ⟨i, hv⟩)
  · intro h v hv
    obtain ⟨i, hi⟩ := Arena.mem_toList_iff.1 hv
    exact h i v hi

end

/-! ## Warnings of modules -/

namespace Module

variable (m : Module)

/-- How many lost variables get first values in a function, and how many of its identifiers are
reported. -/
def lostIn (f : Function) : Nat :=
  Stmt.lost (m.declares (some f)) (Stmt.listInitTargets f.body) f.identifiers

theorem countP_storeEvents (f : Function) (k : Nat) :
    (f.storeEvents m k).countP Event.isWarning = m.lostIn f := by
  have hkept := m.isSome_storedLabel (some f)
  have hquiet : (Event.writingFunction f.name ⟨.function, k⟩).isWarning = false := rfl
  simp only [Function.storeEvents, lostIn, Stmt.lost, Function.identifiers, List.countP_cons,
    List.countP_append, Arena.countP_initEvents hkept, Stmt.countP_listEvents hkept, hquiet,
    Bool.false_eq_true, if_false]
  omega

theorem countP_saveEvents : m.saveEvents.countP Event.isWarning =
    m.globals.identifiers.countP (Identifier.isReported (m.declares none)) +
      (m.functions.toList.map m.lostIn).sum := by
  have hfunctions : (m.functions.toList.zipIdx.flatMap fun x => x.1.storeEvents m x.2).countP
      Event.isWarning = (m.functions.toList.map m.lostIn).sum := by
    have hpositions := List.zipIdx_map_fst 0 m.functions.toList
    rw [List.countP_flatMap, ← hpositions, List.map_map, hpositions]
    exact congrArg List.sum (List.map_congr_left fun x _ => m.countP_storeEvents x.1 x.2)
  rw [saveEvents_eq, List.countP_append, Arena.countP_initEvents (m.isSome_storedLabel none),
    hfunctions]

/-- Nothing is lost in a function if all references in it lead to declarations. -/
theorem lostIn_eq_zero {f : Function} : m.lostIn f = 0 ↔
    (∀ (j : Nat) (v : Variable), f.locals.items[j]? = some v →
      Expr.AllKept (m.declares (some f)) (Expr.slotParts v.init)) ∧
      Expr.AllKept (m.declares (some f)) (Stmt.listParts f.body) := by
  rw [← Stmt.lost_eq_zero_list, ← Arena.countP_identifiers_eq_zero]
  simp only [lostIn, Stmt.lost, Function.identifiers, List.countP_append, Nat.add_eq_zero_iff]
  tauto

theorem countP_saveEvents_eq_zero : m.saveEvents.countP Event.isWarning = 0 ↔
    ∀ site target, m.Occurs site (.ref target) → m.declares site.inside target = true := by
  rw [countP_saveEvents, Nat.add_eq_zero_iff, Arena.countP_identifiers_eq_zero,
    List.sum_eq_zero_iff]
  simp only [List.forall_mem_map, lostIn_eq_zero]
  constructor
  · rintro ⟨hglobals, hfunctions⟩ site target hoccurs
    cases hoccurs with
    | global hv he => exact hglobals _ _ hv target he
    | localVar hf hv he =>
      have hmem := Arena.mem_toList_iff.2 ⟨_, hf⟩
      exact (hfunctions _ hmem).1 _ _ hv target he
    | body hf he =>
      have hmem := Arena.mem_toList_iff.2 ⟨_, hf⟩
      exact (hfunctions _ hmem).2 target he
  · intro h
    refine ⟨fun i v hv target he => h _ target (.global hv he), fun f hf => ?_⟩
    obtain ⟨k, hk⟩ := Arena.mem_toList_iff.1 hf
    exact ⟨fun j v hv target he => h _ target (.localVar hk hv he),
      fun target he => h _ target (.body hk he)⟩

/-- Saving a module warns once for each first value in a body that is given to a lost variable, and
once for each lost identifier that is no part of such a first value. It warns of nothing exactly if
all references lead to declarations. -/
theorem warns_once_per_lost_reference (m : Module) :
    (m.saveEvents.countP fun e => decide (e.level = .warn)) =
        (m.initTargets.countP fun x => !m.declares (some x.1) x.2.toRef) +
          (m.identifiers.countP fun x => !m.declares x.1 x.2.target &&
            x.2.initOf.all fun v => m.declares x.1 v.toRef) ∧
      ((∀ e ∈ m.saveEvents, e.level ≠ .warn) ↔
        ∀ site target, m.Occurs site (.ref target) → m.declares site.inside target = true) := by
  constructor
  · have hfunctions : (m.functions.toList.map m.lostIn).sum =
        (m.initTargets.countP fun x => !m.declares (some x.1) x.2.toRef) +
          ((m.functions.toList.flatMap fun f => f.identifiers.map (some f, ·)).countP fun x =>
            x.2.isReported (m.declares x.1)) := by
      rw [initTargets, List.countP_flatMap, List.countP_flatMap, ← List.sum_map_add]
      refine congrArg List.sum (List.map_congr_left fun f _ => ?_)
      simp [lostIn, Stmt.lost, List.countP_map, Function.comp_def]
    have hglobals : (m.globals.identifiers.map (none, ·)).countP
          (fun x : Option Function × Identifier => x.2.isReported (m.declares x.1)) =
        m.globals.identifiers.countP (Identifier.isReported (m.declares none)) := by
      rw [List.countP_map]
      rfl
    have hcount := m.countP_saveEvents
    rw [hfunctions, ← hglobals, Nat.add_left_comm, ← List.countP_append] at hcount
    exact hcount
  · rw [← countP_saveEvents_eq_zero, List.countP_eq_zero]
    simp [Event.isWarning]

end Module

end KeyedIR
