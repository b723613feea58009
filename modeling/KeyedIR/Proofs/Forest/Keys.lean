import KeyedIR.Forest.Build
/-! # The keys of forests

How looking up, replacing and removing act on the keys of a forest. In a *distinct* forest no key
repeats among siblings, at any level; every change keeps a forest distinct, and keeps what is true
of all keys, if it is true of the keys of the path.
-/

namespace KeyedIR

set_option autoImplicit false

namespace Forest

/-! ## Replacing an entry -/

theorem keys_alter (t : Forest) (key : String) (f : Entry → Entry) :
    (t.alter key f).keys = if key ∈ t.keys then t.keys else t.keys ++ [key] := by
  induction t with
  | nil => simp [alter, keys]
  | cons key' value children rest _ ih =>
    by_cases h : key' = key
    · subst h
      simp [alter, keys]
    · have hne : key ≠ key' := Ne.symm h
      simp only [alter, h, if_false, keys, ih, List.mem_cons, hne, false_or]
      split <;> rfl

theorem child_alter_self (t : Forest) (key : String) (f : Entry → Entry) :
    (t.alter key f).child key = f (t.child key) := by
  induction t with
  | nil => simp [alter, child]
  | cons key' value children rest _ ih =>
    by_cases h : key' = key
    · simp [alter, child, h]
    · simp [alter, child, h, ih]

theorem child_alter_of_ne (t : Forest) {key other : String} (h : other ≠ key)
    (f : Entry → Entry) : (t.alter key f).child other = t.child other := by
  induction t with
  | nil => simp [alter, child, h.symm]
  | cons key' value children rest _ ih =>
    by_cases hkey : key' = key
    · simp [alter, child, hkey, h.symm]
    · simp [alter, child, hkey, ih]

theorem alter_alter (t : Forest) (key : String) (f g : Entry → Entry) :
    (t.alter key f).alter key g = t.alter key fun e => g (f e) := by
  induction t with
  | nil => simp [alter]
  | cons key' value children rest _ ih =>
    by_cases h : key' = key
    · simp [alter, h]
    · simp [alter, h, ih]

/-- Only what the function makes of the entry of the key matters. -/
theorem alter_congr {t : Forest} {key : String} {f g : Entry → Entry}
    (h : f (t.child key) = g (t.child key)) : t.alter key f = t.alter key g := by
  induction t with
  | nil => exact congrArg (fun e : Entry => cons key e.value e.children nil) h
  | cons key' value children rest _ ih =>
    by_cases hkey : key' = key
    · simp only [child, if_pos hkey] at h
      simp [alter, hkey, h]
    · simp only [child, if_neg hkey] at h
      simp [alter, hkey, ih h]

theorem alter_of_not_mem {t : Forest} {key : String} (h : key ∉ t.keys) (f : Entry → Entry) :
    t.alter key f = t ++ cons key (f {}).value (f {}).children nil := by
  induction t with
  | nil => rfl
  | cons key' value children rest _ ih =>
    rw [keys, List.mem_cons, not_or] at h
    rw [alter, if_neg (Ne.symm h.1), ih h.2, cons_append]

theorem child_of_not_mem {t : Forest} {key : String} (h : key ∉ t.keys) : t.child key = {} := by
  induction t with
  | nil => rfl
  | cons key' value children rest _ ih =>
    rw [keys, List.mem_cons, not_or] at h
    rw [child, if_neg (Ne.symm h.1), ih h.2]

/-! ## Removing entries -/

theorem keys_drop (t : Forest) (key : String) : (t.drop key).keys = t.keys.filter (· ≠ key) := by
  induction t with
  | nil => rfl
  | cons key' value children rest _ ih =>
    by_cases h : key' = key
    · simp [drop, keys, h, ih]
    · simp [drop, keys, h, ih]

theorem drop_alter_self (t : Forest) (key : String) (f : Entry → Entry) :
    (t.alter key f).drop key = t.drop key := by
  induction t with
  | nil => simp [alter, drop]
  | cons key' value children rest _ ih =>
    by_cases h : key' = key
    · simp [alter, drop, h]
    · simp [alter, drop, h, ih]

theorem drop_alter_of_ne (t : Forest) {key other : String} (h : other ≠ key)
    (f : Entry → Entry) : (t.alter key f).drop other = (t.drop other).alter key f := by
  induction t with
  | nil => simp [alter, drop, h.symm]
  | cons key' value children rest _ ih =>
    by_cases hkey : key' = key
    · simp [alter, drop, hkey, h.symm]
    · by_cases hother : key' = other
      · simp [alter, drop, hother, h, ih]
      · simp [alter, drop, hkey, hother, ih]

theorem keys_mapChildren (t : Forest) (key : String) (f : Forest → Forest) :
    (t.mapChildren key f).keys = t.keys := by
  induction t with
  | nil => rfl
  | cons key' value children rest _ ih =>
    by_cases h : key' = key
    · simp [mapChildren, keys, h]
    · simp [mapChildren, keys, h, ih]

/-! ## What is kept along a path -/

section

variable {P : Forest → Prop} {t : Forest}

theorem entry_of_child (hchild : ∀ (u : Forest) (key : String), P u → P (u.child key).children)
    (h : P t) (path : Path) : P (t.entry path).children := by
  have hdescend (e : Entry) (he : P e.children) : P (e.descend path).children := by
    induction path generalizing e with
    | nil => exact he
    | cons key path ih => exact ih _ (hchild e.children key he)
  exact hdescend ⟨none, t⟩ h

theorem remove_of_drop (hdrop : ∀ (u : Forest) (key : String), P u → P (u.drop key))
    (hmap : ∀ (u : Forest) (key : String) (f : Forest → Forest), P u →
      (∀ v : Forest, P v → P (f v)) → P (u.mapChildren key f))
    (h : P t) (path : Path) : P (t.remove path) := by
  induction path generalizing t with
  | nil => exact h
  | cons key path ih =>
    cases path with
    | nil => exact hdrop t key h
    | cons key' path => exact hmap t key _ h fun u hu => ih hu

end

/-! ## Distinct keys -/

/-- No key repeats among siblings, at any level. -/
def Distinct : Forest → Prop
  | nil => True
  | cons key _ children rest => key ∉ rest.keys ∧ children.Distinct ∧ rest.Distinct

instance decidableDistinct : (t : Forest) → Decidable t.Distinct
  | nil => .isTrue trivial
  | cons key _ children rest =>
    have := decidableDistinct children
    have := decidableDistinct rest
    inferInstanceAs (Decidable (key ∉ rest.keys ∧ children.Distinct ∧ rest.Distinct))

theorem Distinct.child {t : Forest} (h : t.Distinct) (key : String) :
    (t.child key).children.Distinct := by
  induction t with
  | nil => exact trivial
  | cons key' value children rest _ ih =>
    unfold Forest.child
    split
    · exact h.2.1
    · exact ih h.2.2

theorem Distinct.alter {t : Forest} (h : t.Distinct) (key : String) {f : Entry → Entry}
    (hf : ∀ e : Entry, e.children.Distinct → (f e).children.Distinct) :
    (t.alter key f).Distinct := by
  induction t with
  | nil => exact ⟨List.not_mem_nil, hf {} trivial, trivial⟩
  | cons key' value children rest _ ih =>
    obtain ⟨hnew, hchildren, hrest⟩ := h
    by_cases hkey : key' = key
    · rw [Forest.alter, if_pos hkey]
      exact ⟨hkey ▸ hnew, hf ⟨value, children⟩ hchildren, hrest⟩
    · rw [Forest.alter, if_neg hkey]
      refine ⟨?_, hchildren, ih hrest⟩
      rw [keys_alter]
      split
      · exact hnew
      · simp [hnew, hkey]

theorem Distinct.drop {t : Forest} (h : t.Distinct) (key : String) : (t.drop key).Distinct := by
  induction t with
  | nil => exact trivial
  | cons key' value children rest _ ih =>
    obtain ⟨hnew, hchildren, hrest⟩ := h
    unfold Forest.drop
    split
    · exact ih hrest
    · refine ⟨?_, hchildren, ih hrest⟩
      rw [keys_drop, List.mem_filter]
      intro hmem
      exact hnew hmem.1

theorem Distinct.mapChildren {t : Forest} (h : t.Distinct) (key : String) {f : Forest → Forest}
    (hf : ∀ u : Forest, u.Distinct → (f u).Distinct) : (t.mapChildren key f).Distinct := by
  induction t with
  | nil => exact trivial
  | cons key' value children rest _ ih =>
    obtain ⟨hnew, hchildren, hrest⟩ := h
    unfold Forest.mapChildren
    split
    · exact ⟨hnew, hf children hchildren, hrest⟩
    · refine ⟨?_, hchildren, ih hrest⟩
      rwa [keys_mapChildren]

end Forest

theorem Entry.distinct_put {e : Entry} (h : e.children.Distinct) (p : Path) (value : Option Value) :
    (e.put p value).children.Distinct := by
  induction p generalizing e with
  | nil => exact h
  | cons key p ih => exact Forest.Distinct.alter h key fun below hbelow => ih hbelow

namespace Forest

theorem Distinct.put {t : Forest} (h : t.Distinct) (p : Path) (value : Option Value) :
    (t.put p value).Distinct :=
  Entry.distinct_put (e := ⟨none, t⟩) h p value

theorem Distinct.remove {t : Forest} (h : t.Distinct) (p : Path) : (t.remove p).Distinct :=
  remove_of_drop (fun _ key hu => hu.drop key) (fun _ key _ hu hf => hu.mapChildren key hf) h p

theorem Distinct.entry {t : Forest} (h : t.Distinct) (p : Path) :
    (t.entry p).children.Distinct :=
  entry_of_child (fun _ key hu => hu.child key) h p

/-! ## Properties of all keys and all values -/

def EveryKey (p : String → Prop) : Forest → Prop
  | nil => True
  | cons key _ children rest => p key ∧ children.EveryKey p ∧ rest.EveryKey p

def EveryValue (p : Value → Prop) : Forest → Prop
  | nil => True
  | cons _ value children rest =>
    (∀ v ∈ value, p v) ∧ children.EveryValue p ∧ rest.EveryValue p

theorem EveryKey.alter {p : String → Prop} {t : Forest} (h : t.EveryKey p) {key : String}
    (hkey : p key) {f : Entry → Entry}
    (hf : ∀ e : Entry, e.children.EveryKey p → (f e).children.EveryKey p) :
    (t.alter key f).EveryKey p := by
  induction t with
  | nil => exact ⟨hkey, hf {} trivial, trivial⟩
  | cons key' value children rest _ ih =>
    obtain ⟨hkey', hchildren, hrest⟩ := h
    unfold Forest.alter
    split
    · exact ⟨hkey', hf ⟨value, children⟩ hchildren, hrest⟩
    · exact ⟨hkey', hchildren, ih hrest⟩

section

variable {p : String → Prop} {t : Forest}

theorem EveryKey.mono {q : String → Prop} (hpq : ∀ key, p key → q key) (h : t.EveryKey p) :
    t.EveryKey q := by
  induction t with
  | nil => exact trivial
  | cons key value children rest ihchildren ihrest =>
    obtain ⟨hkey, hchildren, hrest⟩ := h
    exact ⟨hpq key hkey, ihchildren hchildren, ihrest hrest⟩

theorem EveryKey.keys (h : t.EveryKey p) : ∀ key ∈ t.keys, p key := by
  induction t with
  | nil => exact nofun
  | cons key value children rest _ ih => exact List.forall_mem_cons.2 ⟨h.1, ih h.2.2⟩

theorem EveryKey.child (h : t.EveryKey p) (key : String) : (t.child key).children.EveryKey p := by
  induction t with
  | nil => exact trivial
  | cons key' value children rest _ ih =>
    unfold Forest.child
    split
    · exact h.2.1
    · exact ih h.2.2

theorem EveryKey.entry (h : t.EveryKey p) (path : Path) : (t.entry path).children.EveryKey p :=
  entry_of_child (fun _ key hu => hu.child key) h path

theorem EveryKey.drop (h : t.EveryKey p) (key : String) : (t.drop key).EveryKey p := by
  induction t with
  | nil => exact trivial
  | cons key' value children rest _ ih =>
    obtain ⟨hkey, hchildren, hrest⟩ := h
    unfold Forest.drop
    split
    · exact ih hrest
    · exact ⟨hkey, hchildren, ih hrest⟩

theorem EveryKey.mapChildren (h : t.EveryKey p) (key : String) {f : Forest → Forest}
    (hf : ∀ u : Forest, u.EveryKey p → (f u).EveryKey p) : (t.mapChildren key f).EveryKey p := by
  induction t with
  | nil => exact trivial
  | cons key' value children rest _ ih =>
    obtain ⟨hkey, hchildren, hrest⟩ := h
    unfold Forest.mapChildren
    split
    · exact ⟨hkey, hf children hchildren, hrest⟩
    · exact ⟨hkey, hchildren, ih hrest⟩

theorem EveryKey.remove (h : t.EveryKey p) (path : Path) : (t.remove path).EveryKey p :=
  remove_of_drop (fun _ key hu => hu.drop key) (fun _ key _ hu hf => hu.mapChildren key hf) h path

end

end Forest

theorem Entry.everyKey_put {p : String → Prop} {e : Entry} (h : e.children.EveryKey p) {path : Path}
    (hpath : ∀ key ∈ path, p key) (value : Option Value) :
    (e.put path value).children.EveryKey p := by
  induction path generalizing e with
  | nil => exact h
  | cons key path ih =>
    exact Forest.EveryKey.alter h (hpath key List.mem_cons_self) fun below hbelow =>
      ih hbelow fun key' hkey' => hpath key' (List.mem_cons_of_mem key hkey')

theorem Forest.EveryKey.put {p : String → Prop} {t : Forest} (h : t.EveryKey p) {path : Path}
    (hpath : ∀ key ∈ path, p key) (value : Option Value) : (t.put path value).EveryKey p :=
  Entry.everyKey_put (e := ⟨none, t⟩) h hpath value

end KeyedIR
