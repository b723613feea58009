import KeyedIR.Proofs.Record.Fields
/-! # The forest after saving

Saving leaves the rest of a forest as it is, stores the version, and adds the record of the module
at the end, whatever was stored there before (`Module.save_eq`).
-/

namespace KeyedIR

set_option autoImplicit false

open Forest Record

/-! ## Looking up after changes -/

theorem Forest.child_append_of_mem {t u : Forest} {key : String} (h : key ∈ t.keys) :
    (t ++ u).child key = t.child key := by
  induction t with
  | nil => cases h
  | cons key' value children rest _ ih =>
    rw [cons_append, child, child]
    split
    · rfl
    · exact ih ((List.mem_cons.1 h).resolve_left (by rintro rfl; contradiction))

theorem Forest.child_append_of_not_mem {t u : Forest} {key : String} (h : key ∉ t.keys) :
    (t ++ u).child key = u.child key := by
  induction t with
  | nil => rfl
  | cons key' value children rest _ ih =>
    rw [keys, List.mem_cons, not_or] at h
    rw [cons_append, child, if_neg (Ne.symm h.1)]
    exact ih h.2

namespace Module

theorem record_labelled_ne_nil (m : Module) : m.labelled.record ≠ nil := by
  rw [record_labelled]
  nofun

/-- What is kept of a forest when a module is saved into it, with the version. -/
def keptBySave (t : Forest) : Forest :=
  ((t.remove versionPath).remove [moduleKey]).set versionPath (.string version)

theorem keptBySave_eq (t : Forest) :
    keptBySave t = ((t.remove versionPath).drop moduleKey).alter "OILCan"
      fun below => below.put ["version"] (some (.string version)) := rfl

theorem moduleKey_not_mem_keptBySave (t : Forest) : moduleKey ∉ (keptBySave t).keys := by
  have hne : moduleKey ≠ "OILCan" := by decide
  rw [keptBySave_eq, keys_alter, keys_drop]
  split <;> simp [hne]

theorem save_eq (m : Module) (t : Forest) :
    m.save t = keptBySave t ++ cons moduleKey none m.labelled.record nil := by
  have hsave : m.save t = (keptBySave t).editAll (assignments [moduleKey] m.labelled.record) := rfl
  rw [hsave, editAll_assignments_key m.tidy_record m.record_labelled_ne_nil
    (moduleKey_not_mem_keptBySave t)]

theorem child_save (m : Module) (t : Forest) :
    (m.save t).child moduleKey = ⟨none, m.labelled.record⟩ := by
  rw [save_eq, child_append_of_not_mem (moduleKey_not_mem_keptBySave t), child, if_pos rfl]

theorem value?_save (m : Module) (t : Forest) :
    (m.save t).value? versionPath = some (.string version) := by
  have hmem : "OILCan" ∈ (keptBySave t).keys := by
    rw [keptBySave_eq, keys_alter]
    split
    case isTrue h => exact h
    case isFalse => exact List.mem_append_right _ List.mem_cons_self
  have hvalue : (keptBySave t).value? versionPath = some (.string version) :=
    value?_set_self (List.cons_ne_nil _ _) _ _
  rw [save_eq]
  show (((keptBySave t ++ _).child "OILCan").children.child "version").value = _
  rw [child_append_of_mem hmem]
  exact hvalue

theorem tidy_save_nil (m : Module) : (m.save nil).Tidy := by
  have hkept : keptBySave nil =
      cons "OILCan" none (cons "version" (some (.string version)) nil nil) nil := rfl
  have hplain : IsPlainKey "OILCan" ∧ IsPlainKey "version" ∧ IsPlainKey moduleKey := by decide
  have hne : "OILCan" ∉ [moduleKey] := by decide
  rw [save_eq, hkept]
  refine ⟨⟨hplain.1, hne, .inr nofun⟩, ?_, ?_⟩
  · exact ⟨⟨hplain.2.1, List.not_mem_nil, .inl rfl⟩, trivial, trivial⟩
  · exact ⟨⟨hplain.2.2, List.not_mem_nil, .inr m.record_labelled_ne_nil⟩, m.tidy_record, trivial⟩

end Module

end KeyedIR
