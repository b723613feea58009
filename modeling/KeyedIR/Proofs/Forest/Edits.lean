import KeyedIR.Proofs.Forest.Keys
/-! # What a change changes

Storing a value changes the value at its path, and the list of keys of each entry above the path if
the way down is new there. Removing a path takes away everything at and below it, and one key of the
entry just above. Nothing else changes, so a whole run of changes leaves alone what is apart from
all their paths (`value?_editAll_of_apart`, `keysBelow_editAll_of_apart`).
-/

namespace KeyedIR

set_option autoImplicit false

def Edit.path : Edit → Path
  | .set p _ => p
  | .remove p => p

/-! ## Storing -/

namespace Entry

theorem value_descend_put_self (e : Entry) (p : Path) (v : Value) :
    ((e.put p (some v)).descend p).value = some v := by
  induction p generalizing e with
  | nil => rfl
  | cons key p ih =>
    rw [put, descend_cons, Forest.child_alter_self]
    exact ih _

theorem value_descend_put_of_ne (e : Entry) {p q : Path} (h : q ≠ p) (v : Option Value) :
    ((e.put p v).descend q).value = (e.descend q).value := by
  induction p generalizing e q with
  | nil =>
    obtain ⟨key, q, rfl⟩ := List.exists_cons_of_ne_nil h
    rfl
  | cons key p ih =>
    cases q with
    | nil => rfl
    | cons key' q =>
      rw [put, descend_cons, descend_cons]
      by_cases hkey : key' = key
      · subst hkey
        rw [Forest.child_alter_self]
        exact ih _ fun hq => h (congrArg (key' :: ·) hq)
      · rw [Forest.child_alter_of_ne _ hkey]

theorem keys_descend_put_above (e : Entry) (q : Path) (key : String) (below : Path)
    (v : Option Value) :
    ((e.put (q ++ key :: below) v).descend q).children.keys =
      if key ∈ (e.descend q).children.keys then (e.descend q).children.keys
      else (e.descend q).children.keys ++ [key] := by
  induction q generalizing e with
  | nil => exact Forest.keys_alter ..
  | cons key' q ih =>
    rw [List.cons_append, put, descend_cons, descend_cons, Forest.child_alter_self]
    exact ih _

theorem keys_descend_put_of_not_above (e : Entry) {p q : Path}
    (h : ∀ key below, p ≠ q ++ key :: below) (v : Option Value) :
    ((e.put p v).descend q).children.keys = (e.descend q).children.keys := by
  induction p generalizing e q with
  | nil => cases q <;> rfl
  | cons key p ih =>
    cases q with
    | nil => exact absurd rfl (h key p)
    | cons key' q =>
      rw [put, descend_cons, descend_cons]
      by_cases hkey : key' = key
      · subst hkey
        rw [Forest.child_alter_self]
        exact ih _ fun key below hp => h key below (congrArg (key' :: ·) hp)
      · rw [Forest.child_alter_of_ne _ hkey]

end Entry

namespace Forest

theorem value?_set_self {p : Path} (h : p ≠ []) (t : Forest) (v : Value) :
    (t.set p v).value? p = some v := by
  obtain ⟨key, p, rfl⟩ := List.exists_cons_of_ne_nil h
  exact Entry.value_descend_put_self ⟨none, t⟩ (key :: p) v

theorem value?_set_of_ne {p q : Path} (h : q ≠ p) (t : Forest) (v : Value) :
    (t.set p v).value? q = t.value? q := by
  cases q with
  | nil => rfl
  | cons key q => exact Entry.value_descend_put_of_ne ⟨none, t⟩ h (some v)

theorem keysBelow_set_above (t : Forest) (q : Path) (key : String) (below : Path) (v : Value) :
    (t.set (q ++ key :: below) v).keysBelow q =
      if key ∈ t.keysBelow q then t.keysBelow q else t.keysBelow q ++ [key] := by
  have h := Entry.keys_descend_put_above ⟨none, t⟩ q key below (some v)
  cases q with
  | nil => exact h
  | cons key' q => exact h

theorem keysBelow_set_of_not_above {p q : Path} (h : ∀ key below, p ≠ q ++ key :: below)
    (t : Forest) (v : Value) : (t.set p v).keysBelow q = t.keysBelow q := by
  have hkeys := Entry.keys_descend_put_of_not_above ⟨none, t⟩ h (some v)
  cases q with
  | nil => exact hkeys
  | cons key q => exact hkeys

/-! ## Removing -/

theorem child_drop_self (t : Forest) (key : String) : (t.drop key).child key = {} := by
  apply child_of_not_mem
  rw [keys_drop, List.mem_filter]
  rintro ⟨-, hne⟩
  exact of_decide_eq_true hne rfl

theorem child_drop_of_ne (t : Forest) {key other : String} (h : other ≠ key) :
    (t.drop key).child other = t.child other := by
  induction t with
  | nil => rfl
  | cons key' value children rest _ ih =>
    by_cases hkey : key' = key
    · rw [drop, if_pos hkey, ih, child, if_neg (hkey ▸ h.symm)]
    · rw [drop, if_neg hkey, child, child, ih]

theorem child_mapChildren_self (t : Forest) (key : String) {f : Forest → Forest}
    (hf : f nil = nil) :
    (t.mapChildren key f).child key = ⟨(t.child key).value, f (t.child key).children⟩ := by
  induction t with
  | nil => rw [mapChildren, child, hf]
  | cons key' value children rest _ ih =>
    by_cases h : key' = key
    · simp [mapChildren, child, h]
    · simp [mapChildren, child, h, ih]

theorem child_mapChildren_of_ne (t : Forest) {key other : String} (h : other ≠ key)
    (f : Forest → Forest) : (t.mapChildren key f).child other = t.child other := by
  induction t with
  | nil => rfl
  | cons key' value children rest _ ih =>
    by_cases hkey : key' = key
    · simp [mapChildren, child, hkey, h.symm]
    · simp [mapChildren, child, hkey, ih]

theorem remove_empty (p : Path) : nil.remove p = nil := by
  match p with
  | [] | [_] | _ :: _ :: _ => rfl

theorem child_remove (t : Forest) (key key' : String) (p : Path) :
    (t.remove (key :: key' :: p)).child key =
      ⟨(t.child key).value, (t.child key).children.remove (key' :: p)⟩ :=
  child_mapChildren_self t key (f := fun children => children.remove (key' :: p)) (remove_empty _)

theorem child_remove_of_ne (t : Forest) {key other : String} (h : other ≠ key) (p : Path) :
    (t.remove (key :: p)).child other = t.child other := by
  cases p with
  | nil => exact child_drop_of_ne t h
  | cons key' p => exact child_mapChildren_of_ne t h _

end Forest

namespace Entry

@[simp] theorem descend_empty (p : Path) : descend {} p = {} := by
  induction p with
  | nil => rfl
  | cons key p ih => exact ih

/-- The entries that removing a path leaves: an entry, in place of the root, keeps its value. -/
def remove (e : Entry) (p : Path) : Entry := ⟨e.value, e.children.remove p⟩

theorem descend_remove_self (e : Entry) {p : Path} (h : p ≠ []) (below : Path) :
    (e.remove p).descend (p ++ below) = {} := by
  obtain ⟨key, p, rfl⟩ := List.exists_cons_of_ne_nil h
  clear h
  induction p generalizing e key with
  | nil =>
    rw [List.cons_append, descend_cons, remove]
    exact (congrArg (descend · below) (Forest.child_drop_self ..)).trans (descend_empty below)
  | cons key' p ih =>
    rw [List.cons_append, descend_cons, remove, Forest.child_remove]
    exact ih (e.children.child key) key'

/-- Away from the removed path the value is the same, and so are the keys but for the removed
one. -/
theorem descend_remove (e : Entry) {p q : Path} (h : ¬ p <+: q) :
    ((e.remove p).descend q).value = (e.descend q).value ∧
      ((e.remove p).descend q).children.keys =
        (e.descend q).children.keys.filter fun key => q ++ [key] ≠ p := by
  induction p generalizing e q with
  | nil => exact absurd List.nil_prefix h
  | cons key p ih =>
    cases q with
    | nil =>
      refine ⟨rfl, ?_⟩
      cases p with
      | nil => exact (Forest.keys_drop ..).trans (List.filter_congr fun k _ => by simp)
      | cons key' p =>
        exact (Forest.keys_mapChildren ..).trans (List.filter_eq_self.2 fun k _ => by simp).symm
    | cons key' q =>
      rw [descend_cons, descend_cons]
      by_cases hkey : key' = key
      · subst hkey
        rw [List.cons_prefix_cons, not_and] at h
        cases p with
        | nil => exact absurd List.nil_prefix (h rfl)
        | cons key'' p =>
          rw [remove, Forest.child_remove]
          simp only [List.cons_append, ne_eq, List.cons.injEq, true_and]
          exact ih (e.children.child key') (h rfl)
      · rw [remove, Forest.child_remove_of_ne _ hkey]
        exact ⟨rfl, (List.filter_eq_self.2 fun k _ => by simp [hkey]).symm⟩

end Entry

namespace Forest

variable {t : Forest} {p q : Path}

theorem entry_remove_of_prefix (hp : p ≠ []) (h : p <+: q) (t : Forest) :
    (t.remove p).entry q = {} := by
  obtain ⟨below, rfl⟩ := h
  exact Entry.descend_remove_self ⟨none, t⟩ hp below

theorem value?_remove (h : ¬ p <+: q) (t : Forest) : (t.remove p).value? q = t.value? q :=
  (Entry.descend_remove ⟨none, t⟩ h).1

theorem keysBelow_remove (h : ¬ p <+: q) (t : Forest) :
    (t.remove p).keysBelow q = (t.keysBelow q).filter fun key => q ++ [key] ≠ p :=
  (Entry.descend_remove ⟨none, t⟩ h).2

/-! ## Runs of changes -/

theorem editAll_append (t : Forest) (first rest : List Edit) :
    t.editAll (first ++ rest) = (t.editAll first).editAll rest := List.foldl_append

theorem value?_editAll_of_apart {edits : List Edit} (h : ∀ e ∈ edits, ¬ e.path <+: p) :
    (t.editAll edits).value? p = t.value? p := by
  induction edits generalizing t with
  | nil => rfl
  | cons e rest ih =>
    obtain ⟨hfirst, hrest⟩ := List.forall_mem_cons.1 h
    refine (ih hrest).trans ?_
    cases e with
    | set path v =>
      refine value?_set_of_ne ?_ t v
      rintro rfl
      exact hfirst List.prefix_rfl
    | remove path => exact value?_remove hfirst t

theorem keysBelow_editAll_of_apart {edits : List Edit}
    (h : ∀ e ∈ edits, ¬ e.path <+: p ∧ ¬ p <+: e.path) :
    (t.editAll edits).keysBelow p = t.keysBelow p := by
  induction edits generalizing t with
  | nil => rfl
  | cons e rest ih =>
    obtain ⟨⟨hbelow, habove⟩, hrest⟩ := List.forall_mem_cons.1 h
    refine (ih hrest).trans ?_
    cases e with
    | set path v =>
      refine keysBelow_set_of_not_above ?_ t v
      rintro key below rfl
      exact habove (List.prefix_append ..)
    | remove path =>
      refine (keysBelow_remove hbelow t).trans (List.filter_eq_self.2 ?_)
      intro key _
      refine decide_eq_true ?_
      rintro rfl
      exact habove (List.prefix_append ..)

end Forest

end KeyedIR
