import KeyedIR.Proofs.Program.Equality
/-! # Equality as sameness of trees

The skeleton of a part of a program is the part with a NaN in place of each constant that is a
number; its numbers are these constants from left to right. Two modules are equal exactly if without
their labels they have the same skeleton and, one by one, equal numbers
(`Module.equality_of_trees`). So no field but the labels is left out of the comparison, and equality
is symmetric and transitive, but not reflexive on modules with a NaN.
-/

namespace KeyedIR

set_option autoImplicit false

/-! ## Numbers -/

namespace Binary64

def IsZero (x : Binary64) : Prop := ∃ negative, x = number negative 0

/-- Neither is a NaN, and they are the same or both zero. -/
def SameNumber (x y : Binary64) : Prop := x ≠ nan ∧ y ≠ nan ∧ (x = y ∨ x.IsZero ∧ y.IsZero)

theorem isZero_number {negative : Bool} {rank : Fin (infinityRank + 1)} :
    (number negative rank).IsZero ↔ rank.val = 0 := by
  constructor
  · rintro ⟨negative', h⟩
    exact congrArg Fin.val (number.inj h).2
  · intro h
    exact ⟨negative, congrArg (number negative) (Fin.ext h)⟩

theorem beq_iff_sameNumber {x y : Binary64} : (x == y) = true ↔ SameNumber x y := by
  cases x with
  | nan => exact iff_of_false (by intro h; cases h) fun h => h.1 rfl
  | number negative rank =>
    cases y with
    | nan => exact iff_of_false (by intro h; cases h) fun h => h.2.1 rfl
    | number negative' rank' =>
      show (decide (rank = rank') && (decide (negative = negative') || decide (rank.val = 0))) =
        true ↔ _
      simp only [SameNumber, isZero_number, number.injEq, Bool.and_eq_true, Bool.or_eq_true,
        decide_eq_true_eq, Fin.ext_iff]
      grind

theorem SameNumber.symm {x y : Binary64} (h : SameNumber x y) : SameNumber y x :=
  ⟨h.2.1, h.1, h.2.2.imp Eq.symm And.symm⟩

theorem SameNumber.trans {x y z : Binary64} (hxy : SameNumber x y) (hyz : SameNumber y z) :
    SameNumber x z := by
  refine ⟨hxy.1, hyz.2.1, ?_⟩
  rcases hxy.2.2 with rfl | ⟨hx, hy⟩
  · exact hyz.2.2
  · rcases hyz.2.2 with rfl | ⟨-, hz⟩
    · exact .inr ⟨hx, hy⟩
    · exact .inr ⟨hx, hz⟩

end Binary64

/-- The same numbers one by one. -/
def SameNumbers : List Binary64 → List Binary64 → Prop := List.Forall₂ Binary64.SameNumber

theorem SameNumbers.symm {l l' : List Binary64} (h : SameNumbers l l') : SameNumbers l' l :=
  h.flip.imp fun _ _ => Binary64.SameNumber.symm

theorem SameNumbers.trans {l l' l'' : List Binary64} (h : SameNumbers l l')
    (h' : SameNumbers l' l'') : SameNumbers l l'' := by
  induction h generalizing l'' with
  | nil => exact h'
  | cons hx _ ih =>
    cases h' with
    | cons hy h' => exact .cons (hx.trans hy) (ih h')

theorem sameNumbers_append {l m l' m' : List Binary64} (hlength : l.length = l'.length) :
    SameNumbers (l ++ m) (l' ++ m') ↔ SameNumbers l l' ∧ SameNumbers m m' := by
  constructor
  · intro h
    have hl := List.forall₂_take_append _ _ _ h
    have hm := List.forall₂_drop_append _ _ _ h
    rw [← hlength, List.take_left] at hl
    rw [← hlength, List.drop_left] at hm
    exact ⟨hl, hm⟩
  · rintro ⟨hl, hm⟩
    exact List.rel_append hl hm

/-! ## Skeletons and numbers -/

namespace Expr

/-- The expression with a NaN in place of each number. -/
def skeleton : Expr → Expr
  | .ref target => .ref target
  | .int n => .int n
  | .float _ => .float .nan
  | .unary op operand => .unary op operand.skeleton
  | .binary op lhs rhs => .binary op lhs.skeleton rhs.skeleton
  | .compare op lhs rhs => .compare op lhs.skeleton rhs.skeleton
  | .assign op lhs rhs => .assign op lhs.skeleton rhs.skeleton

/-- The numbers of an expression from left to right. -/
def numbers : Expr → List Binary64
  | .ref _ | .int _ => []
  | .float x => [x]
  | .unary _ operand => operand.numbers
  | .binary _ lhs rhs | .compare _ lhs rhs | .assign _ lhs rhs => lhs.numbers ++ rhs.numbers

def slotNumbers (e : Option Expr) : List Binary64 := e.elim [] numbers

end Expr

mutual

def Stmt.skeleton : Stmt → Stmt
  | .init target value => .init target value.skeleton
  | .eval e => .eval e.skeleton
  | .loop start cond test step body =>
    .loop (Stmt.listSkeleton start) (cond.map Expr.skeleton) (test.map Expr.skeleton)
      (step.map Expr.skeleton) (Stmt.listSkeleton body)
  | .ret value => .ret (value.map Expr.skeleton)

def Stmt.listSkeleton : List Stmt → List Stmt
  | [] => []
  | s :: rest => s.skeleton :: Stmt.listSkeleton rest

end

mutual

def Stmt.numbers : Stmt → List Binary64
  | .init _ value => value.numbers
  | .eval e => e.numbers
  | .loop start cond test step body =>
    Stmt.listNumbers start ++ Expr.slotNumbers cond ++ Expr.slotNumbers test ++
      Expr.slotNumbers step ++ Stmt.listNumbers body
  | .ret value => Expr.slotNumbers value

def Stmt.listNumbers : List Stmt → List Binary64
  | [] => []
  | s :: rest => s.numbers ++ Stmt.listNumbers rest

end

def Variable.skeleton (v : Variable) : Variable := { v with init := v.init.map Expr.skeleton }

def Variable.numbers (v : Variable) : List Binary64 := Expr.slotNumbers v.init

def Function.skeleton (f : Function) : Function :=
  { f with locals := f.locals.map Variable.skeleton, body := Stmt.listSkeleton f.body }

def Function.numbers (f : Function) : List Binary64 :=
  f.locals.toList.flatMap Variable.numbers ++ Stmt.listNumbers f.body

/-- The module with a NaN in place of each number. -/
def Module.skeleton (m : Module) : Module :=
  { m with globals := m.globals.map Variable.skeleton
           functions := m.functions.map Function.skeleton }

/-- The numbers of a module, those of the globals before those of the functions. -/
def Module.numbers (m : Module) : List Binary64 :=
  m.globals.toList.flatMap Variable.numbers ++ m.functions.toList.flatMap Function.numbers

/-! ## Comparisons -/

/-- A comparison comes out true exactly for parts of the same shape with the same numbers. Parts of
the same shape have as many numbers. -/
structure Compares (equal : Bool) (sameShape : Prop) (numbers numbers' : List Binary64) : Prop where
  equal_iff : equal = true ↔ sameShape ∧ SameNumbers numbers numbers'
  length_eq : sameShape → numbers.length = numbers'.length

namespace Compares

variable {equal equal' : Bool} {p p' : Prop} {l l' m m' : List Binary64}

theorem congr (h : Compares equal p l m) (hshape : p' ↔ p) : Compares equal p' l m := by
  rw [propext hshape]
  exact h

/-- Parts without numbers. -/
theorem exactly (h : equal = true ↔ p) : Compares equal p [] [] :=
  ⟨h.trans (and_iff_left .nil).symm, fun _ => rfl⟩

/-- Parts that are compared as a whole. -/
theorem same {α : Type} [DecidableEq α] (x y : α) : Compares (decide (x = y)) (x = y) [] [] :=
  exactly decide_eq_true_iff

/-- Parts that cannot be equal. -/
theorem never (hequal : equal = false) (hshape : ¬p) : Compares equal p l m :=
  ⟨iff_of_false (by rw [hequal]; decide) fun h => hshape h.1, fun h => absurd h hshape⟩

/-- One part after another. -/
theorem both (h : Compares equal p l m) (h' : Compares equal' p' l' m') :
    Compares (equal && equal') (p ∧ p') (l ++ l') (m ++ m') where
  equal_iff := by
    rw [Bool.and_eq_true, h.equal_iff, h'.equal_iff]
    constructor
    · rintro ⟨⟨hp, hl⟩, hp', hl'⟩
      exact ⟨⟨hp, hp'⟩, List.rel_append hl hl'⟩
    · rintro ⟨⟨hp, hp'⟩, hboth⟩
      obtain ⟨hl, hl'⟩ := (sameNumbers_append (h.length_eq hp)).1 hboth
      exact ⟨⟨hp, hl⟩, hp', hl'⟩
  length_eq := by
    rintro ⟨hp, hp'⟩
    rw [List.length_append, List.length_append, h.length_eq hp, h'.length_eq hp']

section

variable {α β : Type} [BEq α] {shape : α → β} {numbers : α → List Binary64}

theorem option (h : ∀ x y, Compares (x == y) (shape x = shape y) (numbers x) (numbers y))
    (x y : Option α) :
    Compares (x == y) (x.map shape = y.map shape) (x.elim [] numbers) (y.elim [] numbers) := by
  cases x with
  | none =>
    cases y with
    | none => exact exactly (iff_of_true rfl rfl)
    | some y => exact never rfl nofun
  | some x =>
    cases y with
    | none => exact never rfl nofun
    | some y => exact (h x y).congr Option.some_inj

theorem list (h : ∀ x y, Compares (x == y) (shape x = shape y) (numbers x) (numbers y))
    (l l' : List α) :
    Compares (l == l') (l.map shape = l'.map shape) (l.flatMap numbers) (l'.flatMap numbers) := by
  induction l generalizing l' with
  | nil =>
    cases l' with
    | nil => exact exactly (iff_of_true rfl rfl)
    | cons y rest' => exact never rfl nofun
  | cons x rest ih =>
    cases l' with
    | nil => exact never rfl nofun
    | cons y rest' => exact ((h x y).both (ih rest')).congr List.cons_eq_cons

theorem arena {cls : DeclClass}
    (h : ∀ x y, Compares (x == y) (shape x = shape y) (numbers x) (numbers y))
    (a b : Arena cls α) :
    Compares (a == b) (a.map shape = b.map shape) (a.toList.flatMap numbers)
      (b.toList.flatMap numbers) := by
  have hequal : (a == b) = (a.toList == b.toList) := (Array.beq_toList a.items b.items).symm
  have hshape : a.map shape = b.map shape ↔ a.toList.map shape = b.toList.map shape := by
    rw [← Arena.toList_map, ← Arena.toList_map, Arena.toList, Arena.toList, Array.toList_inj]
    exact ⟨congrArg Arena.items, congrArg Arena.mk⟩
  rw [hequal]
  exact (list h a.toList b.toList).congr hshape

/-- Arenas whose items have no numbers. -/
theorem arena_exactly {cls : DeclClass} (h : ∀ x y, Compares (x == y) (shape x = shape y) [] [])
    (a b : Arena cls α) : Compares (a == b) (a.map shape = b.map shape) [] [] := by
  have hnone (a : Arena cls α) : a.toList.flatMap (fun _ => ([] : List Binary64)) = [] :=
    List.flatMap_eq_nil_iff.2 fun _ _ => rfl
  have hall : Compares (a == b) (a.map shape = b.map shape) (a.toList.flatMap fun _ => [])
      (b.toList.flatMap fun _ => []) := arena h a b
  rwa [hnone, hnone] at hall

end

end Compares

/-! ## Equality part by part -/

theorem Expr.compares (e e' : Expr) :
    Compares (e == e') (e.skeleton = e'.skeleton) e.numbers e'.numbers := by
  induction e generalizing e' with
  | ref target =>
    cases e' with
    | ref target' => exact (Compares.same target target').congr (by simp [skeleton])
    | _ => exact .never rfl nofun
  | int n =>
    cases e' with
    | int n' => exact (Compares.same n n').congr (by simp [skeleton])
    | _ => exact .never rfl nofun
  | float x =>
    cases e' with
    | float x' =>
      have hx : (x == x') = true ↔ True ∧ SameNumbers [x] [x'] := by
        rw [Binary64.beq_iff_sameNumber, true_and, SameNumbers, List.forall₂_cons]
        exact (and_iff_left .nil).symm
      exact (Compares.mk hx fun _ => rfl).congr (iff_true_intro rfl)
    | _ => exact .never rfl nofun
  | unary op operand ih =>
    cases e' with
    | unary op' operand' =>
      exact ((Compares.same op op').both (ih operand')).congr (by simp [skeleton])
    | _ => exact .never rfl nofun
  | binary op l r ihl ihr =>
    cases e' with
    | binary op' l' r' =>
      have h := ((Compares.same op op').both (ihl l')).both (ihr r')
      exact h.congr (by simp [skeleton, and_assoc])
    | _ => exact .never rfl nofun
  | compare op l r ihl ihr =>
    cases e' with
    | compare op' l' r' =>
      have h := ((Compares.same op op').both (ihl l')).both (ihr r')
      exact h.congr (by simp [skeleton, and_assoc])
    | _ => exact .never rfl nofun
  | assign op l r ihl ihr =>
    cases e' with
    | assign op' l' r' =>
      have h := ((Compares.same op op').both (ihl l')).both (ihr r')
      exact h.congr (by simp [skeleton, and_assoc])
    | _ => exact .never rfl nofun

theorem Expr.slot_compares (e e' : Option Expr) :
    Compares (e == e') (e.map skeleton = e'.map skeleton) (slotNumbers e) (slotNumbers e') :=
  .option Expr.compares e e'

mutual

theorem Stmt.compares (s s' : Stmt) :
    Compares (s.beq s') (s.skeleton = s'.skeleton) s.numbers s'.numbers := by
  match s with
  | .init target value =>
    cases s' with
    | init target' value' =>
      exact ((Compares.same target target').both (value.compares value')).congr (by simp [skeleton])
    | _ => exact .never rfl nofun
  | .eval e =>
    cases s' with
    | eval e' => exact (e.compares e').congr (by simp [skeleton])
    | _ => exact .never rfl nofun
  | .loop start cond test step body =>
    cases s' with
    | loop start' cond' test' step' body' =>
      have h := ((((Stmt.list_compares start start').both (Expr.slot_compares cond cond')).both
        (Expr.slot_compares test test')).both (Expr.slot_compares step step')).both
          (Stmt.list_compares body body')
      exact h.congr (by simp [skeleton, and_assoc])
    | _ => exact .never rfl nofun
  | .ret value =>
    cases s' with
    | ret value' => exact (Expr.slot_compares value value').congr (by simp [skeleton])
    | _ => exact .never rfl nofun

theorem Stmt.list_compares (l l' : List Stmt) :
    Compares (Stmt.listBeq l l') (Stmt.listSkeleton l = Stmt.listSkeleton l')
      (Stmt.listNumbers l) (Stmt.listNumbers l') := by
  match l with
  | [] =>
    cases l' with
    | nil => exact .exactly (iff_of_true rfl rfl)
    | cons s' rest' => exact .never rfl nofun
  | s :: rest =>
    cases l' with
    | nil => exact .never rfl nofun
    | cons s' rest' =>
      exact ((Stmt.compares s s').both (Stmt.list_compares rest rest')).congr List.cons_eq_cons

end

/-! ## Equality of declarations and modules -/

theorem TypeName.compares (t t' : TypeName) :
    Compares (t == t') (t.unlabelled = t'.unlabelled) [] [] :=
  .exactly (decide_eq_true_iff.trans (by simp [unlabelled]))

theorem Variable.compares (v v' : Variable) :
    Compares (v == v') (v.unlabelled.skeleton = v'.unlabelled.skeleton) v.numbers v'.numbers := by
  have h := ((Compares.same v.name v'.name).both (v.type.compares v'.type)).both
    (Expr.slot_compares v.init v'.init)
  exact h.congr (by simp [skeleton, unlabelled, and_assoc])

theorem Parameter.compares (p p' : Parameter) :
    Compares (p == p') (p.unlabelled = p'.unlabelled) [] [] :=
  ((Compares.same p.name p'.name).both (p.type.compares p'.type)).congr (by simp [unlabelled])

theorem Function.compares (f f' : Function) :
    Compares (f == f') (f.unlabelled.skeleton = f'.unlabelled.skeleton) f.numbers f'.numbers := by
  have hhead := (((Compares.same f.name f'.name).both (f.returns.compares f'.returns)).both
    (.arena_exactly Parameter.compares f.parameters f'.parameters)).both
      (.same f.isVariadic f'.isVariadic)
  have hall := ((hhead.both (.arena Variable.compares f.locals f'.locals)).both
    (Stmt.list_compares f.body f'.body)).both (.same f.isInline f'.isInline)
  simp only [List.append_nil, List.nil_append] at hall
  refine hall.congr ?_
  simp [skeleton, unlabelled, Arena.map_map, Function.comp_def, and_assoc]

theorem Module.compares (m m' : Module) :
    Compares (m == m') (m.unlabelled.skeleton = m'.unlabelled.skeleton) m.numbers m'.numbers := by
  have htypes := (Compares.same m.name m'.name).both
    (.arena_exactly TypeName.compares m.types m'.types)
  have hall := (htypes.both (.arena Variable.compares m.globals m'.globals)).both
    (.arena Function.compares m.functions m'.functions)
  refine hall.congr ?_
  simp [skeleton, unlabelled, Arena.map_map, Function.comp_def, and_assoc]

theorem Function.numbers_unlabelled (f : Function) : f.unlabelled.numbers = f.numbers := by
  rw [numbers, unlabelled, Arena.toList_map, List.flatMap_map]
  rfl

namespace Module

theorem numbers_unlabelled (m : Module) : m.unlabelled.numbers = m.numbers := by
  rw [numbers, unlabelled, Arena.toList_map, Arena.toList_map, List.flatMap_map,
    List.flatMap_map, funext Function.numbers_unlabelled]
  rfl

/-- The same tree, where constants that are numbers are compared as numbers. -/
def SameTree (m m' : Module) : Prop :=
  m.skeleton = m'.skeleton ∧ SameNumbers m.numbers m'.numbers

theorem beq_iff_sameTree {m m' : Module} :
    (m == m') = true ↔ m.unlabelled.SameTree m'.unlabelled := by
  rw [SameTree, numbers_unlabelled, numbers_unlabelled]
  exact (m.compares m').equal_iff

theorem SameTree.symm {m m' : Module} (h : m.SameTree m') : m'.SameTree m :=
  ⟨h.1.symm, h.2.symm⟩

theorem SameTree.trans {m m' m'' : Module} (h : m.SameTree m') (h' : m'.SameTree m'') :
    m.SameTree m'' := ⟨h.1.trans h'.1, h.2.trans h'.2⟩

theorem beq_symm {m m' : Module} (h : (m == m') = true) : (m' == m) = true :=
  beq_iff_sameTree.2 (beq_iff_sameTree.1 h).symm

theorem beq_trans {m m' m'' : Module} (h : (m == m') = true) (h' : (m' == m'') = true) :
    (m == m'') = true :=
  beq_iff_sameTree.2 ((beq_iff_sameTree.1 h).trans (beq_iff_sameTree.1 h'))

/-- Two modules are equal exactly if they are the same tree without their labels, so equality is
symmetric and transitive. A module differs from itself exactly if a NaN occurs in it. -/
theorem equality_of_trees :
    (∀ a b : Module, (a == b) = true ↔ a.unlabelled.SameTree b.unlabelled) ∧
      (∀ a b : Module, (a == b) = (b == a)) ∧
      (∀ a b c : Module, (a == b) = true → (b == c) = true → (a == c) = true) ∧
      ∀ m : Module, (m == m) = false ↔ ∃ site, m.Occurs site (.float .nan) := by
  refine ⟨fun _ _ => beq_iff_sameTree, fun _ _ => Bool.eq_iff_iff.2 ⟨beq_symm, beq_symm⟩,
    fun _ _ _ => beq_trans, fun m => ⟨fun hdiffers => ?_, ?_⟩⟩
  · -- Without a NaN the module equals itself without labels, and so itself.
    by_contra hnone
    have hequal := m.unlabelled_beq fun site hoccurs => hnone ⟨site, hoccurs⟩
    rw [beq_trans (beq_symm hequal) hequal] at hdiffers
    cases hdiffers
  · rintro ⟨site, hoccurs⟩
    refine Bool.eq_false_iff.2 fun hequal => ?_
    obtain ⟨-, e, -, -, he⟩ := exists_occurs_of_beq hequal hoccurs
    exact Expr.not_beq_nan he

/-- A zero, the other zero with labels from before, and the first again. -/
theorem equality_of_trees_zeros :
    let holding (label : Option Label) (negative : Bool) : Module :=
      { name := "m"
        globals := ⟨#[{ name := "x", type := { name := "float", label },
                        init := some (.float (.number negative 0)), label }]⟩ }
    (holding none false == holding (some ⟨.localVar, 7⟩) true) = true ∧
      (holding (some ⟨.localVar, 7⟩) true == holding none false) = true ∧
      (holding none false == holding none false) = true := by
  intro holding
  have hzero (negative negative' : Bool) :
      Binary64.SameNumber (.number negative 0) (.number negative' 0) :=
    ⟨nofun, nofun, .inr ⟨⟨negative, rfl⟩, ⟨negative', rfl⟩⟩⟩
  have hequal (label label' : Option Label) (negative negative' : Bool) :
      (holding label negative == holding label' negative') = true := by
    refine ((holding label negative).compares (holding label' negative')).equal_iff.2 ⟨?_, ?_⟩
    · simp [holding, skeleton, unlabelled, Arena.map, Variable.unlabelled, TypeName.unlabelled,
        Variable.skeleton, Expr.skeleton]
    · exact .cons (hzero negative negative') .nil
  have hthere := hequal none (some ⟨.localVar, 7⟩) false true
  have hback := hequal (some ⟨.localVar, 7⟩) none true false
  exact ⟨hthere, hback, equality_of_trees.2.2.1 _ _ _ hthere hback⟩

end Module

end KeyedIR
