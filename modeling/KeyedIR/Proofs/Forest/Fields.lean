import KeyedIR.Forest.Build
import KeyedIR.Proofs.Forest.Edits
import KeyedIR.Proofs.Forest.RoundTrip
/-! # Forests given field by field

A forest can be given as a list of fields, keys with entries, where the empty entries are left out.
If no key repeats, each field is looked up as the entry it was given (`child_ofFields`). Such a
forest is *tidy* if what is below it is: its keys are plain and distinct, and something is stored at
or below every entry. The assignments of a tidy forest build it again.
-/

namespace KeyedIR

set_option autoImplicit false

theorem Entry.isPresent_iff {e : Entry} : e.isPresent = true ↔ e ≠ {} := by
  obtain ⟨value, children⟩ := e
  cases value <;> cases children <;> simp [isPresent, Forest.isEmpty]

namespace Forest

theorem isEmpty_iff {t : Forest} : t.isEmpty = true ↔ t = nil := by
  cases t <;> simp [isEmpty]

/-! ## Fields -/

/-- The forest with the entries of some keys, without the empty ones. -/
def ofFields : List (String × Entry) → Forest
  | [] => nil
  | (key, e) :: rest =>
    if e.isPresent then cons key e.value e.children (ofFields rest) else ofFields rest

theorem ofFields_append (a b : List (String × Entry)) :
    ofFields (a ++ b) = ofFields a ++ ofFields b := by
  induction a with
  | nil => rfl
  | cons field rest ih =>
    rw [List.cons_append, ofFields, ofFields, ih]
    split <;> rfl

theorem branch_eq (key : String) (children : Forest) :
    branch key children = ofFields [(key, ⟨none, children⟩)] := by
  cases children <;> rfl

theorem keys_ofFields (fields : List (String × Entry)) :
    (ofFields fields).keys = (fields.filter (·.2.isPresent)).map Prod.fst := by
  induction fields with
  | nil => rfl
  | cons field rest ih =>
    rw [ofFields, List.filter_cons]
    split
    · rw [keys, ih, List.map_cons]
    · exact ih

theorem keys_ofFields_sublist (fields : List (String × Entry)) :
    (ofFields fields).keys.Sublist (fields.map Prod.fst) := by
  rw [keys_ofFields]
  exact List.filter_sublist.map Prod.fst

theorem child_ofFields {fields : List (String × Entry)} (hnodup : (fields.map Prod.fst).Nodup)
    (key : String) : (ofFields fields).child key = (fields.lookup key).getD {} := by
  induction fields with
  | nil => rfl
  | cons field rest ih =>
    obtain ⟨key', e⟩ := field
    obtain ⟨hnew, hrest⟩ := List.nodup_cons.1 hnodup
    have hnot : key' ∉ (ofFields rest).keys := by
      intro hmem
      exact hnew ((keys_ofFields_sublist rest).subset hmem)
    by_cases hkey : key' = key
    · subst hkey
      rw [List.lookup_cons_self, ofFields]
      split
      case isTrue => rw [child, if_pos rfl]; rfl
      case isFalse habsent =>
        rw [child_of_not_mem hnot]
        exact (Classical.not_not.1 (mt Entry.isPresent_iff.2 habsent)).symm
    · have hbeq : (key == key') = false := beq_eq_false_iff_ne.2 (Ne.symm hkey)
      rw [List.lookup_cons, hbeq, ofFields]
      split
      case isTrue => rw [child, if_neg hkey, ih hrest]
      case isFalse => exact ih hrest

theorem child_ofFields_of_mem {fields : List (String × Entry)}
    (hnodup : (fields.map Prod.fst).Nodup) {key : String} {e : Entry} (h : (key, e) ∈ fields) :
    (ofFields fields).child key = e := by
  obtain ⟨before, after, rfl⟩ := List.append_of_mem h
  rw [List.map_append, List.map_cons] at hnodup
  have hnew : ∀ field ∈ before, (key != field.1) = true := by
    intro field hfield
    have hdisjoint := (List.nodup_append.1 hnodup).2.2
    exact bne_iff_ne.2 (Ne.symm (hdisjoint field.1 (List.mem_map_of_mem hfield) key
      List.mem_cons_self))
  rw [child_ofFields (by rwa [List.map_append, List.map_cons]),
    List.lookup_eq_some_iff.2 ⟨before, after, rfl, hnew⟩]
  rfl

/-! ## Tidy forests -/

/-- The keys are plain and distinct, and something is stored at or below every entry. -/
def Tidy : Forest → Prop
  | nil => True
  | cons key value children rest =>
    (IsPlainKey key ∧ key ∉ rest.keys ∧ (value.isSome = true ∨ children ≠ nil)) ∧
      children.Tidy ∧ rest.Tidy

@[simp] theorem tidy_nil : Tidy nil := trivial

theorem Tidy.distinct {t : Forest} (h : t.Tidy) : t.Distinct := by
  induction t with
  | nil => trivial
  | cons key value children rest ihchildren ihrest =>
    obtain ⟨⟨-, hnew, -⟩, hchildren, hrest⟩ := h
    exact ⟨hnew, ihchildren hchildren, ihrest hrest⟩

theorem Tidy.plain {t : Forest} (h : t.Tidy) : t.EveryKey IsPlainKey := by
  induction t with
  | nil => trivial
  | cons key value children rest ihchildren ihrest =>
    obtain ⟨⟨hkey, -, -⟩, hchildren, hrest⟩ := h
    exact ⟨hkey, ihchildren hchildren, ihrest hrest⟩

theorem tidy_ofFields {fields : List (String × Entry)} (hnodup : (fields.map Prod.fst).Nodup)
    (hplain : ∀ field ∈ fields, IsPlainKey field.1)
    (hbelow : ∀ field ∈ fields, field.2.children.Tidy) : (ofFields fields).Tidy := by
  induction fields with
  | nil => trivial
  | cons field rest ih =>
    obtain ⟨hnew, hnodup⟩ := List.nodup_cons.1 hnodup
    obtain ⟨hkey, hplain⟩ := List.forall_mem_cons.1 hplain
    obtain ⟨hentry, hbelow⟩ := List.forall_mem_cons.1 hbelow
    have hrest := ih hnodup hplain hbelow
    unfold ofFields
    split
    case isFalse => exact hrest
    case isTrue hpresent =>
      refine ⟨⟨hkey, fun h => hnew ((keys_ofFields_sublist rest).subset h), ?_⟩, hentry, hrest⟩
      obtain ⟨key, value, children⟩ := field
      cases children with
      | nil => exact .inl (by simpa [Entry.isPresent, isEmpty] using hpresent)
      | cons => exact .inr nofun

/-! ## Lists of records -/

def numbered (key : Nat → String) (records : List Forest) : Forest :=
  ofFields (records.mapIdx fun i record => (key i, ⟨none, record⟩))

section

variable {key : Nat → String} {records : List Forest}

theorem numbered_cons (key : Nat → String) (record : Forest) (rest : List Forest) :
    numbered key (record :: rest) =
      branch (key 0) record ++ numbered (fun i => key (i + 1)) rest := by
  rw [branch_eq, numbered, numbered, ← ofFields_append, List.mapIdx_cons]
  rfl

theorem map_fst_numbered : (records.mapIdx fun i record =>
    (key i, (⟨none, record⟩ : Entry))).map Prod.fst = (List.range records.length).map key := by
  apply List.ext_getElem?
  intro i
  by_cases hi : i < records.length <;> simp [hi]

theorem keys_numbered {α : Type} (record : α → Forest) (items : List α) :
    (numbered key (items.map record)).keys =
      (items.zipIdx.filter fun item => !(record item.1).isEmpty).map fun item => key item.2 := by
  rw [numbered, keys_ofFields, List.mapIdx_eq_zipIdx_map, List.zipIdx_map, List.map_map,
    List.filter_map, List.map_map]
  rfl

theorem keys_numbered_of_ne_nil {α : Type} {record : α → Forest} {items : List α}
    (hne : ∀ x ∈ items, record x ≠ nil) :
    (numbered key (items.map record)).keys = items.zipIdx.map fun item => key item.2 := by
  rw [keys_numbered, List.filter_eq_self.2]
  intro item hitem
  have hrecord := hne item.1 (List.fst_mem_of_mem_zipIdx hitem)
  rw [Bool.not_eq_true', ← Bool.not_eq_true, isEmpty_iff]
  exact hrecord

theorem nodup_numbered (hkey : ∀ i j, key i = key j → i = j) :
    ((records.mapIdx fun i record => (key i, (⟨none, record⟩ : Entry))).map Prod.fst).Nodup := by
  rw [map_fst_numbered]
  exact List.Pairwise.map key (fun i j hne h => hne (hkey i j h)) List.nodup_range

theorem child_numbered (hkey : ∀ i j, key i = key j → i = j) {i : Nat} {record : Forest}
    (hrecord : records[i]? = some record) :
    (numbered key records).child (key i) = ⟨none, record⟩ := by
  refine child_ofFields_of_mem (nodup_numbered hkey) ?_
  obtain ⟨hi, rfl⟩ := List.getElem?_eq_some_iff.1 hrecord
  exact List.mem_mapIdx.2 ⟨i, hi, rfl⟩

theorem tidy_numbered (hkey : ∀ i j, key i = key j → i = j) (hplain : ∀ i, IsPlainKey (key i))
    (hrecords : ∀ record ∈ records, record.Tidy) : (numbered key records).Tidy := by
  refine tidy_ofFields (nodup_numbered hkey) ?_ ?_
  · intro field hfield
    obtain ⟨i, -, rfl⟩ := List.mem_mapIdx.1 hfield
    exact hplain i
  · intro field hfield
    obtain ⟨i, hi, rfl⟩ := List.mem_mapIdx.1 hfield
    exact hrecords _ (List.getElem_mem hi)

end

/-! ## Assignments -/

/-- The values of a forest with their paths, an entry's own value before those below it. -/
def values (path : Path) : Forest → List (Path × Value)
  | nil => []
  | cons key value children rest =>
    (value.map fun v => (path ++ [key], v)).toList ++
      (values (path ++ [key]) children ++ values path rest)

theorem assignments_eq (path : Path) (t : Forest) :
    assignments path t = (values path t).map fun w => .set w.1 w.2 := by
  induction t generalizing path with
  | nil => rfl
  | cons key value children rest ihchildren ihrest =>
    rw [assignments, values, ihchildren, ihrest, List.map_append, List.map_append]
    cases value <;> rfl

theorem key_of_mem_values {t : Forest} {path : Path} {w : Path × Value} (h : w ∈ values path t) :
    ∃ key ∈ t.keys, path ++ [key] <+: w.1 := by
  induction t generalizing path with
  | nil => cases h
  | cons key value children rest ihchildren ihrest =>
    rw [values, List.mem_append, List.mem_append] at h
    rcases h with h | h | h
    · obtain ⟨v, -, rfl⟩ : ∃ v, value = some v ∧ (path ++ [key], v) = w := by simpa using h
      exact ⟨key, List.mem_cons_self, List.prefix_rfl⟩
    · obtain ⟨key', -, hprefix⟩ := ihchildren h
      exact ⟨key, List.mem_cons_self, (List.prefix_append ..).trans hprefix⟩
    · obtain ⟨key', hkey', hprefix⟩ := ihrest h
      exact ⟨key', List.mem_cons_of_mem key hkey', hprefix⟩

/-- The placements that store the values of a forest, an entry's own value before those below it. -/
def stored : Forest → List Placement
  | nil => []
  | cons key value children rest =>
    ((value.map fun v => ([], some v)).toList ++ stored children).map (Placement.under key) ++
      stored rest

theorem stored_ne_nil {t : Forest} (h : t.Tidy) (hne : t ≠ nil) : t.stored ≠ [] := by
  induction t with
  | nil => exact absurd rfl hne
  | cons key value children rest ihchildren _ =>
    obtain ⟨⟨-, -, hpresent⟩, hchildren, -⟩ := h
    cases value with
    | some v => simp [stored]
    | none =>
      have hbelow := ihchildren hchildren (hpresent.resolve_left Bool.false_ne_true)
      simp [stored, hbelow]

theorem builds_stored {t : Forest} (h : t.Tidy) : Builds t.stored t := by
  induction t with
  | nil => exact .nil
  | cons key value children rest ihchildren ihrest =>
    obtain ⟨⟨-, hnew, hpresent⟩, hchildren, hrest⟩ := h
    cases value with
    | some v => exact .cons (ihchildren hchildren) (ihrest hrest) hnew
    | none =>
      have hne := stored_ne_nil hchildren (hpresent.resolve_left Bool.false_ne_true)
      exact .pass (ihchildren hchildren) (ihrest hrest) hnew hne

theorem editAll_assignments (t u : Forest) (path : Path) :
    u.editAll (assignments path t) = u.putAll path t.stored := by
  induction t generalizing u path with
  | nil => rfl
  | cons key value children rest ihchildren ihrest =>
    rw [assignments, editAll_append, editAll_append, ihchildren, ihrest, stored, putAll_append,
      putAll_under, putAll_append]
    cases value with
    | none => rfl
    | some v =>
      have hput : u.editAll [.set (path ++ [key]) v] = u.putAll (path ++ [key]) [([], some v)] := by
        simp [editAll, edit, putAll, Forest.set]
      rw [Option.map_some, Option.toList_some, hput]
      rfl

theorem editAll_assignments_key {t u : Forest} (h : t.Tidy) (hne : t ≠ nil) {key : String}
    (hkey : key ∉ u.keys) :
    u.editAll (assignments [key] t) = u ++ cons key none t nil := by
  obtain ⟨x, rest, hstored⟩ := List.exists_cons_of_ne_nil (stored_ne_nil h hne)
  have hbuilt : Entry.putAll {} t.stored = ⟨none, t⟩ :=
    putAll_of_builds (builds_stored h) {} fun _ _ => List.not_mem_nil
  have hunder : u.putAll [key] t.stored = u.putAll [] (t.stored.map (Placement.under key)) :=
    (putAll_under u [] key t.stored).symm
  rw [editAll_assignments, hunder, putAll_root ⟨none, u⟩, hstored, Entry.putAll_under, ← hstored]
  rw [alter_of_not_mem hkey, hbuilt]

end Forest

end KeyedIR
