import KeyedIR.Proofs.Record.Save
/-! # What saving replaces

Saving keeps everything that is apart from the version and from the module, and forgets what was
stored there. So a module that was saved before makes no difference, and only the keys of the root
and of the entry above the version can move (`Module.save_replaces`).
-/

namespace KeyedIR

set_option autoImplicit false

open Forest Record

namespace Forest

/-! ## Changes of one key -/

variable (t u : Forest) (key : String)

theorem drop_append : (t ++ u).drop key = t.drop key ++ u.drop key := by
  induction t with
  | nil => rfl
  | cons key' value children rest _ ih =>
    rw [cons_append, drop, drop, ih]
    split <;> rfl

theorem drop_of_not_mem {t : Forest} {key : String} (h : key ∉ t.keys) : t.drop key = t := by
  induction t with
  | nil => rfl
  | cons key' value children rest _ ih =>
    rw [keys, List.mem_cons, not_or] at h
    rw [drop, if_neg (Ne.symm h.1), ih h.2]

theorem drop_drop : (t.drop key).drop key = t.drop key := by
  apply drop_of_not_mem
  rw [keys_drop, List.mem_filter]
  exact fun h => of_decide_eq_true h.2 rfl

theorem drop_mapChildren {key other : String} (h : other ≠ key) (f : Forest → Forest) :
    (t.mapChildren key f).drop other = (t.drop other).mapChildren key f := by
  induction t with
  | nil => rfl
  | cons key' value children rest _ ih =>
    by_cases hkey : key' = key
    · subst hkey
      simp [mapChildren, drop, h.symm]
    · by_cases hother : key' = other
      · simp [mapChildren, drop, hother, h, ih]
      · simp [mapChildren, drop, hkey, hother, ih]

/-- Changing the children of a key that is there, before its entry is replaced in any case. -/
theorem alter_mapChildren {f : Forest → Forest} (hf : f nil = nil) (g : Entry → Entry) :
    (t.mapChildren key f).alter key g = t.alter key fun e => g ⟨e.value, f e.children⟩ := by
  induction t with
  | nil => simp [mapChildren, alter, hf]
  | cons key' value children rest _ ih =>
    by_cases h : key' = key
    · simp [mapChildren, alter, h]
    · simp [mapChildren, alter, h, ih]

end Forest

namespace Module

/-! ## The entry above the version -/

/-- The entry above the version with the version as its last child. -/
def stamp (e : Entry) : Entry :=
  ⟨e.value, (e.children.drop "version").alter "version" fun below =>
    below.put [] (some (.string version))⟩

theorem stamp_stamp (e : Entry) : stamp (stamp e) = stamp e := by
  rw [stamp, stamp, drop_alter_self, drop_drop]

theorem keptBySave_eq_stamp (t : Forest) :
    keptBySave t = (t.drop moduleKey).alter "OILCan" stamp := by
  have hne : moduleKey ≠ "OILCan" := by decide
  have hremove : t.remove versionPath = t.mapChildren "OILCan" (·.remove ["version"]) := rfl
  rw [keptBySave_eq, hremove, drop_mapChildren t hne, alter_mapChildren _ _ (remove_empty _)]
  rfl

theorem keys_keptBySave (t : Forest) : (keptBySave t).keys =
    t.keys.filter (· ≠ moduleKey) ++ if "OILCan" ∈ t.keys then [] else ["OILCan"] := by
  have hne : "OILCan" ≠ moduleKey := by decide
  rw [keptBySave_eq_stamp, keys_alter, keys_drop]
  simp only [List.mem_filter, ne_eq, hne, not_false_eq_true, decide_true, and_true]
  split <;> simp

/-- A module that was saved before is forgotten. -/
theorem keptBySave_save (m : Module) (t : Forest) : keptBySave (m.save t) = keptBySave t := by
  have hne : moduleKey ≠ "OILCan" := by decide
  have hfirst : (m.save t).drop moduleKey = keptBySave t := by
    rw [save_eq, drop_append, drop_of_not_mem (moduleKey_not_mem_keptBySave t), drop, if_pos rfl]
    exact append_nil _
  rw [keptBySave_eq_stamp, hfirst, keptBySave_eq_stamp, alter_alter]
  simp only [stamp_stamp]

theorem child_save_stamp (m : Module) (t : Forest) :
    (m.save t).child "OILCan" = stamp (t.child "OILCan") := by
  have hne : "OILCan" ≠ moduleKey := by decide
  have hmem : "OILCan" ∈ (keptBySave t).keys := by
    rw [keys_keptBySave]
    split
    case isTrue h => simp [h, hne]
    case isFalse => simp
  rw [save_eq, child_append_of_mem hmem, keptBySave_eq_stamp, child_alter_self,
    child_drop_of_ne t hne]

/-! ## The changes of saving -/

/-- The paths at or below which saving stores and removes. -/
theorem path_saveEdits (m : Module) {e : Edit} (he : e ∈ m.saveEdits) :
    e.path = versionPath ∨ [moduleKey] <+: e.path := by
  simp only [saveEdits, List.mem_cons] at he
  rcases he with rfl | rfl | rfl | he
  · exact .inl rfl
  · exact .inr List.prefix_rfl
  · exact .inl rfl
  · rw [assignments_eq] at he
    obtain ⟨w, hw, rfl⟩ := List.mem_map.1 he
    obtain ⟨key, -, hprefix⟩ := key_of_mem_values hw
    exact .inr ((List.prefix_append [moduleKey] [key]).trans hprefix)

/-- Saving a module after another leaves the forest that saving only the second one leaves. Any save
keeps the value of every path that is not at or below the module or the version, and the keys below
it unless it is above one of them. There the keys that stay keep their order: what was stored anew
comes last. -/
theorem save_replaces (m : Module) (t : Forest) :
    (∀ m' : Module, m.save (m'.save t) = m.save t) ∧
    (∀ p : Path, ¬ [moduleKey] <+: p → ¬ versionPath <+: p →
      (m.save t).value? p = t.value? p ∧
      (p ≠ [] → p ≠ ["OILCan"] → (m.save t).keysBelow p = t.keysBelow p)) ∧
    (m.save t).keysBelow [] = (t.keysBelow []).filter (· ≠ moduleKey) ++
      (if "OILCan" ∈ t.keysBelow [] then [] else ["OILCan"]) ++ [moduleKey] ∧
    (m.save t).keysBelow ["OILCan"] =
      (t.keysBelow ["OILCan"]).filter (· ≠ "version") ++ ["version"] := by
  refine ⟨fun m' => ?_, fun p hmodule hversion => ⟨?_, fun hroot habove => ?_⟩, ?_, ?_⟩
  · rw [save_eq, keptBySave_save, save_eq]
  · refine value?_editAll_of_apart fun e he => ?_
    rcases m.path_saveEdits he with hpath | hpath
    · rwa [hpath]
    · exact fun hbelow => hmodule (hpath.trans hbelow)
  · refine keysBelow_editAll_of_apart fun e he => ?_
    obtain ⟨key, p, rfl⟩ := List.exists_cons_of_ne_nil hroot
    rcases m.path_saveEdits he with hpath | ⟨below, hpath⟩
    · rw [hpath]
      refine ⟨hversion, fun hprefix => ?_⟩
      obtain ⟨rfl, hp⟩ := List.cons_prefix_cons.1 hprefix
      rcases List.prefix_cons_iff.1 hp with rfl | ⟨q, rfl, hq⟩
      · exact habove rfl
      · obtain rfl := List.prefix_nil.1 hq
        exact hversion List.prefix_rfl
    · rw [← hpath]
      have hfirst : ¬ moduleKey = key := by
        rintro rfl
        exact hmodule (List.prefix_append [moduleKey] p)
      refine ⟨fun hprefix => hfirst (List.cons_prefix_cons.1 hprefix).1, fun hprefix => ?_⟩
      exact hfirst (List.cons_prefix_cons.1 hprefix).1.symm
  · show (m.save t).keys = _
    rw [save_eq, keys_append, keys_keptBySave]
    rfl
  · show ((m.save t).child "OILCan").children.keys = _
    rw [child_save_stamp, stamp, keys_alter, keys_drop]
    simp [keysBelow, entry]

end Module

end KeyedIR
