import KeyedIR.Program.Declaration
import KeyedIR.Program.Syntax
/-! # Well-formed modules

Where an expression stands decides what it can see there: the declarations of each class up to some
number. A module is *well-formed* if every reference is to a declaration that can be seen where it
stands, every operator with two operands has both, and no constant is a NaN.

Every reference of such a module leads to a declaration (`Module.isSome_target?`).
-/

namespace KeyedIR

set_option autoImplicit false

/-! ## Parts -/

def Expr.parts : Expr → List Expr
  | .ref target => [.ref target]
  | .int n => [.int n]
  | .float x => [.float x]
  | .unary op operand => .unary op operand :: operand.parts
  | .binary op lhs rhs => .binary op lhs rhs :: (lhs.parts ++ rhs.parts)
  | .compare op lhs rhs => .compare op lhs rhs :: (lhs.parts ++ rhs.parts)
  | .assign op lhs rhs => .assign op lhs rhs :: (lhs.parts ++ rhs.parts)

def Expr.slotParts : Option Expr → List Expr
  | none => []
  | some e => e.parts

mutual

/-- All expressions inside a statement. The variable that gets its first value counts as a
reference. -/
def Stmt.parts : Stmt → List Expr
  | .init target value => .ref target.toRef :: value.parts
  | .eval e => e.parts
  | .loop start cond test step body =>
    Stmt.listParts start ++ (Expr.slotParts cond ++ (Expr.slotParts test ++
      (Expr.slotParts step ++ Stmt.listParts body)))
  | .ret value => Expr.slotParts value

def Stmt.listParts : List Stmt → List Expr
  | [] => []
  | s :: rest => s.parts ++ Stmt.listParts rest

end

/-! ## What can be seen -/

/-- How many declarations of each class can be seen, counted from the first. -/
structure Horizon where
  globals : Nat := 0
  functions : Nat := 0
  parameters : Nat := 0
  locals : Nat := 0

def Horizon.Shows (h : Horizon) : Ref → Prop
  | .global id => id.toNat < h.globals
  | .function id => id.toNat < h.functions
  | .parameter id => id.toNat < h.parameters
  | .localVar id => id.toNat < h.locals

/-- Where an expression stands: inside a function or outside all, and what can be seen there. -/
structure Site where
  inside : Option Function
  horizon : Horizon

/-- An expression of a module and the site where it stands. The first value of a global sees the
globals before it. Inside a function all globals can be seen, the functions up to this one and all
its parameters, and the first value of a local sees the locals before it. -/
inductive Module.Occurs (m : Module) : Site → Expr → Prop
  | global {i : Nat} {v : Variable} {e : Expr} (hv : m.globals.items[i]? = some v)
      (he : e ∈ Expr.slotParts v.init) : Occurs m ⟨none, { globals := i }⟩ e
  | localVar {k j : Nat} {f : Function} {v : Variable} {e : Expr}
      (hf : m.functions.items[k]? = some f) (hv : f.locals.items[j]? = some v)
      (he : e ∈ Expr.slotParts v.init) :
      Occurs m ⟨some f, ⟨m.globals.size, k + 1, f.parameters.size, j⟩⟩ e
  | body {k : Nat} {f : Function} {e : Expr} (hf : m.functions.items[k]? = some f)
      (he : e ∈ Stmt.listParts f.body) :
      Occurs m ⟨some f, ⟨m.globals.size, k + 1, f.parameters.size, f.locals.size⟩⟩ e

/-- A module that can be stored and read back. -/
structure Module.WellFormed (m : Module) : Prop where
  /-- What is referred to can be seen from where the reference stands. -/
  visible : ∀ site target, m.Occurs site (.ref target) → site.horizon.Shows target
  /-- An operator with one operand is one that takes one operand. -/
  complete : ∀ site op operand, m.Occurs site (.unary op operand) → op.isUnary = true
  /-- No constant differs from itself. -/
  comparable : ∀ site, ¬ m.Occurs site (.float .nan)

/-! ## References lead to declarations -/

/-- A site of a module shows no more than there is. -/
structure Site.Fits (site : Site) (m : Module) : Prop where
  globals : site.horizon.globals ≤ m.globals.size
  functions : site.horizon.functions ≤ m.functions.size
  parameters : site.horizon.parameters ≤ site.inside.elim 0 (·.parameters.size)
  locals : site.horizon.locals ≤ site.inside.elim 0 (·.locals.size)

theorem Module.Occurs.fits {m : Module} {site : Site} {e : Expr} (h : m.Occurs site e) :
    site.Fits m := by
  have hbelow {α : Type} {items : Array α} {i : Nat} {x : α} (h : items[i]? = some x) :
      i < items.size := (Array.getElem?_eq_some_iff.1 h).1
  cases h with
  | global hv _ => exact ⟨Nat.le_of_lt (hbelow hv), Nat.zero_le _, Nat.le_refl 0, Nat.le_refl 0⟩
  | localVar hf hv _ => exact ⟨Nat.le_refl _, hbelow hf, Nat.le_refl _, Nat.le_of_lt (hbelow hv)⟩
  | body hf _ => exact ⟨Nat.le_refl _, hbelow hf, Nat.le_refl _, Nat.le_refl _⟩

theorem Arena.exists_get? {cls : DeclClass} {α : Type} {a : Arena cls α} {id : Id cls}
    (h : id.toNat < a.size) : ∃ x, a.get? id = some x :=
  ⟨a.items[id.toNat], Array.getElem?_eq_getElem h⟩

theorem Arena.map_map {cls : DeclClass} {α β γ : Type} (g : β → γ) (f : α → β)
    (a : Arena cls α) : (a.map f).map g = a.map (g ∘ f) := congrArg Arena.mk Array.map_map

theorem Arena.map_eq_self {cls : DeclClass} {α : Type} {f : α → α} {a : Arena cls α}
    (h : ∀ (i : Nat) (x : α), a.items[i]? = some x → f x = x) : a.map f = a := by
  obtain ⟨items⟩ := a
  rw [Arena.map, Arena.mk.injEq]
  apply Array.ext_getElem?
  intro i
  rw [Array.getElem?_map]
  cases hx : items[i]? with
  | none => rfl
  | some x => exact congrArg some (h i x hx)

theorem Module.isSome_target? {m : Module} {site : Site} (hfits : site.Fits m) {target : Ref}
    (h : site.horizon.Shows target) : (m.target? site.inside target).isSome = true := by
  obtain ⟨inside, horizon⟩ := site
  cases target with
  | global id =>
    obtain ⟨v, hv⟩ := Arena.exists_get? (Nat.lt_of_lt_of_le h hfits.globals)
    simp [target?, hv]
  | function id =>
    obtain ⟨f, hf⟩ := Arena.exists_get? (Nat.lt_of_lt_of_le h hfits.functions)
    simp [target?, hf]
  | parameter id =>
    have hlt := Nat.lt_of_lt_of_le h hfits.parameters
    cases inside with
    | none => exact absurd hlt (Nat.not_lt_zero _)
    | some f =>
      obtain ⟨p, hp⟩ := Arena.exists_get? (a := f.parameters) hlt
      simp [target?, hp]
  | localVar id =>
    have hlt := Nat.lt_of_lt_of_le h hfits.locals
    cases inside with
    | none => exact absurd hlt (Nat.not_lt_zero _)
    | some f =>
      obtain ⟨v, hv⟩ := Arena.exists_get? (a := f.locals) hlt
      simp [target?, hv]

end KeyedIR
