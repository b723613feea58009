import KeyedIR.Proofs.Program.WellFormed
import KeyedIR.Record.Load
/-! # What names stand for

Two things can be said of a scope where some declarations can be seen. It is *within* that horizon
if whatever a name stands for can be seen, and it *knows* the horizon if whatever can be seen is
found by its label. Binding the key of the next declaration keeps the first for every key, and the
second if the key is the label of the declaration.
-/

namespace KeyedIR

set_option autoImplicit false

/-! ## Labels of references -/

namespace Ref

def label : Ref → Label
  | .global id => ⟨.global, id.toNat⟩
  | .function id => ⟨.function, id.toNat⟩
  | .parameter id => ⟨.parameter, id.toNat⟩
  | .localVar id => ⟨.localVar, id.toNat⟩

theorem label_injective {r r' : Ref} (h : r.label = r'.label) : r = r' := by
  have hid {cls : DeclClass} {i j : Id cls} (h : i.toNat = j.toNat) : i = j := by
    rw [← Id.ofNat_toNat i, h, Id.ofNat_toNat]
  cases r <;> cases r' <;> simp [label] at h ⊢ <;> exact hid h

theorem ordinal_lt (r : Ref) : r.label.ordinal < UInt32.size := by
  cases r <;> exact Id.toNat_lt _

end Ref

/-! ## Horizons -/

namespace Horizon

/-- How many declarations of a class can be seen; types are not referred to. -/
def count (h : Horizon) : DeclClass → Nat
  | .type => 0
  | .global => h.globals
  | .function => h.functions
  | .parameter => h.parameters
  | .localVar => h.locals

theorem shows_iff {h : Horizon} {r : Ref} :
    h.Shows r ↔ r.label.ordinal < h.count r.label.cls := by
  cases r <;> exact Iff.rfl

def moduleWide (h : Horizon) : Horizon := { globals := h.globals, functions := h.functions }

def functionWide (h : Horizon) : Horizon := { parameters := h.parameters, locals := h.locals }

theorem Shows.of_moduleWide {h : Horizon} {r : Ref} (hr : h.moduleWide.Shows r) : h.Shows r := by
  cases r with
  | global id | function id => exact hr
  | parameter id | localVar id => exact absurd hr (Nat.not_lt_zero _)

theorem Shows.of_functionWide {h : Horizon} {r : Ref} (hr : h.functionWide.Shows r) :
    h.Shows r := by
  cases r with
  | global id | function id => exact absurd hr (Nat.not_lt_zero _)
  | parameter id | localVar id => exact hr

/-- One horizon shows one declaration more than another: the one with the given label, which the
given reference leads to unless its id is cut to 32 bits. Then the reference leads to an earlier
declaration, which can be seen as well. -/
structure Next (h : Horizon) (label : Label) (target : Ref) (h' : Horizon) : Prop where
  shows : h'.Shows target
  old : ∀ r, h.Shows r → h'.Shows r
  new : ∀ r, h'.Shows r → r.label = label ∧ r = target ∨ r.label ≠ label ∧ h.Shows r

theorem next_of_count {h h' : Horizon} {cls : DeclClass} {target : Ref}
    (htarget : target.label = ⟨cls, h.count cls % UInt32.size⟩)
    (hcount : ∀ c, h'.count c = h.count c + if c = cls then 1 else 0) :
    h.Next ⟨cls, h.count cls⟩ target h' where
  shows := by
    rw [shows_iff, htarget, hcount, if_pos rfl]
    exact Nat.lt_succ_of_le (Nat.mod_le _ _)
  old r hr := by
    rw [shows_iff] at hr ⊢
    rw [hcount]
    exact Nat.lt_of_lt_of_le hr (Nat.le_add_right _ _)
  new r hr := by
    by_cases hlabel : r.label = ⟨cls, h.count cls⟩
    · have hlt := r.ordinal_lt
      rw [hlabel] at hlt
      refine .inl ⟨hlabel, Ref.label_injective ?_⟩
      rw [hlabel, htarget, Nat.mod_eq_of_lt hlt]
    · refine .inr ⟨hlabel, ?_⟩
      rw [shows_iff, hcount] at hr
      rw [shows_iff]
      split at hr
      case isFalse => exact hr
      case isTrue hcls =>
        have hne : r.label.ordinal ≠ h.count cls := by
          intro hordinal
          exact hlabel (Label.mk.injEq .. ▸ ⟨hcls, hordinal⟩)
        rw [hcls] at hr ⊢
        omega

theorem next_global (h : Horizon) : h.Next ⟨.global, h.globals⟩ (.global (.ofNat h.globals))
    { h with globals := h.globals + 1 } :=
  next_of_count (by simp [Ref.label, count]) fun c => by cases c <;> rfl

theorem next_function (h : Horizon) : h.Next ⟨.function, h.functions⟩
    (.function (.ofNat h.functions)) { h with functions := h.functions + 1 } :=
  next_of_count (by simp [Ref.label, count]) fun c => by cases c <;> rfl

theorem next_parameter (h : Horizon) : h.Next ⟨.parameter, h.parameters⟩
    (.parameter (.ofNat h.parameters)) { h with parameters := h.parameters + 1 } :=
  next_of_count (by simp [Ref.label, count]) fun c => by cases c <;> rfl

theorem next_local (h : Horizon) : h.Next ⟨.localVar, h.locals⟩ (.localVar (.ofNat h.locals))
    { h with locals := h.locals + 1 } :=
  next_of_count (by simp [Ref.label, count]) fun c => by cases c <;> rfl

end Horizon

/-! ## One scope -/

namespace Scope

/-- Whatever a name stands for can be seen. -/
def Within (s : Scope) (h : Horizon) : Prop :=
  ∀ name target, s.lookup name = some target → h.Shows target

/-- Whatever can be seen is found by its label. -/
def Knows (s : Scope) (h : Horizon) : Prop :=
  ∀ target, h.Shows target → s.lookup target.label.text = some target

theorem within_empty (h : Horizon) : Within {} h := nofun

theorem knows_empty : Knows {} {} := by
  intro target htarget
  cases target <;> exact absurd htarget (Nat.not_lt_zero _)

variable {s : Scope} {h h' : Horizon} {label : Label} {target : Ref}

theorem Within.bind (hs : s.Within h) (hnext : h.Next label target h') (name : String) :
    (s.bind name target).Within h' := by
  intro name' target' hlookup
  by_cases hname : name' = name
  · rw [hname, lookup_bind_self] at hlookup
    cases hlookup
    exact hnext.shows
  · rw [lookup_bind_of_ne hname] at hlookup
    exact hnext.old target' (hs name' target' hlookup)

theorem Knows.bind (hs : s.Knows h) (hnext : h.Next label target h') :
    (s.bind label.text target).Knows h' := by
  intro r hr
  rcases hnext.new r hr with ⟨hlabel, rfl⟩ | ⟨hlabel, hold⟩
  · rw [hlabel, lookup_bind_self]
  · rw [lookup_bind_of_ne fun htext => hlabel (Label.text_injective htext)]
    exact hs r hold

end Scope

/-! ## The scopes at a site -/

namespace Scopes

structure Within (scopes : Scopes) (h : Horizon) : Prop where
  globals : scopes.globals.Within h.moduleWide
  locals : scopes.locals.Within h.functionWide

structure Knows (scopes : Scopes) (h : Horizon) : Prop where
  globals : scopes.globals.Knows h.moduleWide
  locals : scopes.locals.Knows h.functionWide

variable {scopes : Scopes} {h : Horizon}

theorem Within.shows_target (hs : scopes.Within h) {name : String} {target : Ref}
    (hname : scopes.target? name = .ok target) : h.Shows target := by
  unfold Scopes.target? at hname
  split at hname
  case h_1 | h_2 => cases hname
  case h_3 cls _ _ =>
    split at hname
    case h_2 => cases hname
    case h_1 hlookup =>
      cases hname
      by_cases hwide : cls.isModuleWide = true
      · rw [if_pos hwide] at hlookup
        exact .of_moduleWide (hs.globals name target hlookup)
      · rw [if_neg hwide] at hlookup
        exact .of_functionWide (hs.locals name target hlookup)

theorem Within.shows_variable (hs : scopes.Within h) {name : String} {v : VarRef}
    (hname : scopes.variable? name = .ok v) : h.Shows v.toRef := by
  unfold Scopes.variable? at hname
  split at hname
  case h_2 => cases hname
  case h_1 target htarget =>
    split at hname
    case h_2 => cases hname
    case h_1 hv =>
      cases hname
      rw [← Ref.toVarRef?_eq_some_iff.1 hv]
      exact hs.shows_target htarget

/-- The label of a declaration tells which scope is searched. -/
theorem target?_label (scopes : Scopes) {r target : Ref}
    (h : (if r.label.cls.isModuleWide then scopes.globals else scopes.locals).lookup r.label.text =
      some target) : scopes.target? r.label.text = .ok target := by
  have hclass : r.label.text.toList.head?.bind DeclClass.ofLetter? = some r.label.cls := by
    rw [Label.text, String.toList_ofList, List.head?_cons]
    exact DeclClass.ofLetter?_eq_some_iff.2 rfl
  rw [target?, hclass]
  cases r with
  | global id | function id | parameter id | localVar id =>
    simp only [Ref.label, DeclClass.isModuleWide, if_true, Bool.false_eq_true, if_false] at h ⊢
    rw [h]

theorem Knows.target?_label (hs : scopes.Knows h) {r : Ref} (hr : h.Shows r) :
    scopes.target? r.label.text = .ok r := by
  refine Scopes.target?_label scopes ?_
  cases r with
  | global id | function id => exact hs.globals _ hr
  | parameter id | localVar id => exact hs.locals _ hr

theorem Knows.variable_label (hs : scopes.Knows h) {v : VarRef} (hv : h.Shows v.toRef) :
    scopes.variable? v.toRef.label.text = .ok v := by
  unfold Scopes.variable?
  rw [hs.target?_label hv]
  simp only [Ref.toVarRef?_eq_some_iff.2 rfl]

end Scopes

end KeyedIR
