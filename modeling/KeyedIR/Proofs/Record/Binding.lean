import KeyedIR.Proofs.Record.Readings
/-! # What is bound while names are read

Loading binds the keys of the declarations one after another. What is bound when a name is read are
the keys that can be seen at its place, so what is found for the name is what it stands for by its
position (`Load.Reads.found_eq`).
-/

namespace KeyedIR

set_option autoImplicit false

open Logged

namespace Load

/-! ## Folds over declarations -/

/-- So many declarations, each with a property that depends on its position. -/
structure Each {cls : DeclClass} {α : Type} (p : Nat → α → Prop) (n : Nat) (a : Arena cls α) :
    Prop where
  size : a.size = n
  item : ∀ (i : Nat) (x : α), a.items[i]? = some x → p i x

section

variable {cls : DeclClass} {α : Type} {p : Nat → α → Prop}

theorem Each.start : Each p 0 ({} : Arena cls α) := ⟨rfl, fun _ _ hx => by simp at hx⟩

theorem Each.push {n : Nat} {a : Arena cls α} (h : Each p n a) {x : α} (hx : p n x) :
    Each p (n + 1) (a.push x) := by
  refine ⟨(Array.size_push x).trans (congrArg (· + 1) h.size), fun i y hy => ?_⟩
  rw [Arena.push, Array.getElem?_push] at hy
  split at hy
  case isTrue hi =>
    cases hy
    rwa [hi, show a.items.size = n from h.size]
  case isFalse => exact h.item i y hy

end

/-- A step adds one declaration and binds its key to the position that this declaration gets. -/
def Binds {cls : DeclClass} {α : Type} (target : Nat → Ref)
    (step : Arena cls α × Scope → String → Loading (Arena cls α × Scope)) : Prop :=
  ∀ known key known', (step known key).result = .ok known' →
    known'.1.size = known.1.size + 1 ∧ known'.2 = known.2.bind key (target known.1.size)

theorem Binds.foldlM {cls : DeclClass} {α : Type} {target : Nat → Ref}
    {step : Arena cls α × Scope → String → Loading (Arena cls α × Scope)}
    (hstep : Binds target step) {keys : List String} {known known' : Arena cls α × Scope}
    (hread : (keys.foldlM step known).result = .ok known') :
    known'.1.size = known.1.size + keys.length ∧
      known'.2 = .bindFrom target known.1.size keys known.2 := by
  induction keys generalizing known with
  | nil => cases hread; exact ⟨rfl, rfl⟩
  | cons key rest ih =>
    rw [List.foldlM_cons] at hread
    obtain ⟨mid, hfirst, hrest⟩ := bind_ok_iff.1 hread
    obtain ⟨hsize, hscope⟩ := hstep known key mid hfirst
    obtain ⟨hsize', hscope'⟩ := ih hrest
    rw [hsize] at hsize' hscope'
    rw [hscope] at hscope'
    exact ⟨by rw [hsize', List.length_cons]; omega, hscope'⟩

theorem binds_global (path : Path) (records : Forest) :
    Binds (fun i => .global (.ofNat i)) (global path records) := by
  intro known key known' hread
  obtain ⟨v, -, hread⟩ := bind_ok_iff.1 hread
  cases hread
  exact ⟨Array.size_push v, rfl⟩

theorem binds_functionAt (path : Path) (records : Forest) :
    Binds (fun i => .function (.ofNat i)) (functionAt path records) := by
  intro known key known' hread
  obtain ⟨f, -, hread⟩ := bind_ok_iff.1 hread
  cases hread
  exact ⟨Array.size_push f, rfl⟩

theorem binds_parameter (path : Path) (records : Forest) :
    Binds (fun i => .parameter (.ofNat i)) (parameter path records) := by
  intro known key known' hread
  obtain ⟨name, -, hread⟩ := bind_ok_iff.1 hread
  obtain ⟨type, -, hread⟩ := bind_ok_iff.1 hread
  cases hread
  exact ⟨Array.size_push _, rfl⟩

theorem binds_localVar (globals : Scope) (path : Path) (records : Forest) :
    Binds (fun i => .localVar (.ofNat i)) (localVar globals path records) := by
  intro known key known' hread
  obtain ⟨v, -, hread⟩ := bind_ok_iff.1 hread
  cases hread
  exact ⟨Array.size_push v, rfl⟩

theorem size_functionsAt {t : Forest} {scope : Scope} {k : Nat} {key : String}
    {known : Arena .function Function × Scope} (hkey : t.functionKeys[k]? = some key)
    (hknown : (functionsAt t scope (t.functionKeys.take k)).result = .ok known) :
    known.1.size = k := by
  have hk := (List.getElem?_eq_some_iff.1 hkey).1
  rw [((binds_functionAt _ _).foldlM hknown).1, List.length_take_of_le (Nat.le_of_lt hk)]
  exact Nat.zero_add k

/-! ## Places -/

/-- The scope of the module while function `k` is read: the function itself is bound already. -/
theorem scope_inFunction {t : Forest} {globals : Arena .global Variable × Scope} {k : Nat}
    {key : String} {known : Arena .function Function × Scope}
    (hglobals : (globalsAt t t.globalKeys).result = .ok globals)
    (hkey : t.functionKeys[k]? = some key)
    (hknown : (functionsAt t globals.2 (t.functionKeys.take k)).result = .ok known) :
    known.2.bind key (.function known.1.nextId) =
      .bindFrom (fun i => .function (.ofNat i)) 0 (t.functionKeys.take (k + 1))
        (.bindFrom (fun i => .global (.ofNat i)) 0 t.globalKeys {}) := by
  obtain ⟨hk, hget⟩ := List.getElem?_eq_some_iff.1 hkey
  have hscope := ((binds_functionAt _ _).foldlM hknown).2
  rw [((binds_global _ _).foldlM hglobals).2] at hscope
  rw [List.take_succ_eq_append_getElem hk, Scope.bindFrom_concat, hget, hscope,
    List.length_take_of_le (Nat.le_of_lt hk), Arena.nextId, size_functionsAt hkey hknown]
  exact congrArg _ (congrArg _ (congrArg _ (Nat.zero_add k).symm))

theorem FunctionReads.found_eq {globals : Scope} {path : Path} {children : Forest}
    {part : Option Nat} {r : Reading} (h : FunctionReads globals path children part r) :
    r.found = Scopes.resolve ⟨globals,
      .bindFrom (fun i => .localVar (.ofNat i)) 0
        (part.elim (children.child "locals").children.keys
          (children.child "locals").children.keys.take)
        (.bindFrom (fun i => .parameter (.ofNat i)) 0 (children.child "params").children.keys {})⟩
      r.use r.name := by
  cases h with
  | localVar _ hparameters _ hlocals h =>
    have hscope := ((binds_localVar _ _ _).foldlM hlocals).2
    rw [((binds_parameter _ _).foldlM hparameters).2] at hscope
    rw [h.init.found_eq, hscope]
    rfl
  | body _ hparameters hlocals h =>
    obtain ⟨key, -, h⟩ := h
    have hscope := ((binds_localVar _ _ _).foldlM hlocals).2
    rw [((binds_parameter _ _).foldlM hparameters).2] at hscope
    rw [h.found_eq, hscope]
    rfl

theorem Reads.found_eq_scopes {t : Forest} {place : Place} {r : Reading} (h : Reads t place r) :
    r.found = (place.names t).scopes.resolve r.use r.name := by
  cases h with
  | global _ _ hknown h =>
    rw [h.init.found_eq, ((binds_global _ _).foldlM hknown).2]
    rfl
  | @function k key _ _ part _ _ hglobals hkey hknown h =>
    have howned (list : String) :
        t.ownedKeys k list = t.keysBelow [Record.moduleKey, "funcs", key, list] := by
      rw [Forest.ownedKeys, hkey]
    rw [h.found_eq, scope_inFunction hglobals hkey hknown]
    cases part with
    | none =>
      rw [Place.inFunction, Place.names, howned, howned]
      rfl
    | some j =>
      rw [Place.inFunction, Place.names, howned, howned]
      rfl

/-- What is found for a name is what it stands for by its position. -/
theorem Reads.found_eq {t : Forest} (ht : t.Distinct) {place : Place} {r : Reading}
    (h : Reads t place r) : r.found = (place.names t).resolve r.use r.name :=
  h.found_eq_scopes.trans (Names.resolve_scopes (place.distinct_names ht) r.use r.name)

end Load

end KeyedIR
