import KeyedIR.Proofs.Forest.History
import KeyedIR.Proofs.Record.Save
/-! # What saving stores

Saving stores each value of the record once, and a value stands only where nothing is below it, so
no path that is stored at is above another one. It does not matter then in which order the values
are stored (`Module.save_stores_once`).
-/

namespace KeyedIR

set_option autoImplicit false

open Forest Record

/-! ## Values at the ends of paths -/

namespace Forest

/-- Values stand only where nothing is below them. -/
def Leafy : Forest → Prop
  | nil => True
  | cons _ value children rest => (value = none ∨ children = nil) ∧ children.Leafy ∧ rest.Leafy

@[simp] theorem leafy_nil : Leafy nil := trivial

@[simp] theorem leafy_leaf (key : String) (v : Value) : (leaf key v).Leafy :=
  ⟨.inr rfl, trivial, trivial⟩

@[simp] theorem leafy_string (key s : String) : (Forest.string key s).Leafy := leafy_leaf key _

@[simp] theorem leafy_branch {key : String} {children : Forest} :
    (branch key children).Leafy ↔ children.Leafy := by
  cases children <;> simp [branch, isEmpty, Leafy]

@[simp] theorem leafy_append {t u : Forest} : (t ++ u).Leafy ↔ t.Leafy ∧ u.Leafy := by
  induction t with
  | nil => simp
  | cons key value children rest _ ih => simp [Leafy, ih, and_assoc]

end Forest

/-- Neither path is the other one or above it. -/
def Path.Apart (p q : Path) : Prop := ¬ p <+: q ∧ ¬ q <+: p

theorem Path.apart_of_keys {path p q : Path} {key key' : String} (hne : key ≠ key')
    (hp : path ++ [key] <+: p) (hq : path ++ [key'] <+: q) : p.Apart q := by
  have hlength : (path ++ [key]).length = (path ++ [key']).length := by simp
  have hsame {r : Path} (hkey : path ++ [key] <+: r) (hkey' : path ++ [key'] <+: r) : False := by
    have h := (List.prefix_of_prefix_length_le hkey hkey' (Nat.le_of_eq hlength)).eq_of_length
      hlength
    exact hne (by simpa using h)
  exact ⟨fun h => hsame (hp.trans h) hq, fun h => hsame hp (hq.trans h)⟩

/-- The paths of the values of a leafy forest with distinct keys are apart from each other. -/
theorem Forest.apart_values {t : Forest} (hkeys : t.Distinct) (hleafy : t.Leafy) (path : Path) :
    (values path t).Pairwise fun w w' => Path.Apart w.1 w'.1 := by
  induction t generalizing path with
  | nil => exact .nil
  | cons key value children rest ihchildren ihrest =>
    obtain ⟨hnew, hchildren, hrest⟩ := hkeys
    obtain ⟨hvalue, hleafyChildren, hleafyRest⟩ := hleafy
    have hbelow : ∀ w ∈ (value.map fun v => (path ++ [key], v)).toList ++
        values (path ++ [key]) children, path ++ [key] <+: w.1 := by
      intro w hw
      rcases List.mem_append.1 hw with hw | hw
      · obtain ⟨v, -, rfl⟩ : ∃ v, value = some v ∧ (path ++ [key], v) = w := by simpa using hw
        exact List.prefix_rfl
      · obtain ⟨key', -, hprefix⟩ := key_of_mem_values hw
        exact (List.prefix_append ..).trans hprefix
    rw [values, ← List.append_assoc, List.pairwise_append]
    refine ⟨?_, ihrest hrest hleafyRest path, ?_⟩
    · -- An entry has a value or something below it, not both.
      rcases hvalue with rfl | rfl
      · exact ihchildren hchildren hleafyChildren _
      · cases value with
        | none => exact .nil
        | some v => exact List.pairwise_singleton _ _
    · intro w hw w' hw'
      obtain ⟨key', hkey', hprefix⟩ := key_of_mem_values hw'
      have hne : key ≠ key' := by
        rintro rfl
        exact hnew hkey'
      exact Path.apart_of_keys hne (hbelow w hw) hprefix

/-! ## Records are leafy -/

section

variable (labelOf : Ref → Option Label)

theorem Expr.leafy_record (e : Expr) : (e.record labelOf).Leafy := by
  induction e with
  | ref target => unfold record; split <;> simp [tag]
  | int n | float x => simp [record, tag]
  | unary op operand ih => simp [record, tag, ih]
  | binary op l r ihl ihr | compare op l r ihl ihr | assign op l r ihl ihr =>
    simp [record, tag, ihl, ihr]

theorem Record.leafy_slot (key : String) (e : Option Expr) : (slot labelOf key e).Leafy := by
  cases e with
  | none => exact trivial
  | some e => exact leafy_branch.2 (e.leafy_record labelOf)

theorem Record.leafy_block (key : String) (l : List Stmt) {records : Forest}
    (h : records.Leafy) : (block key l records).Leafy := by
  unfold block
  split <;> simp [h]

mutual

theorem Stmt.leafy_record (s : Stmt) : (s.record labelOf).Leafy := by
  match s with
  | .init target value =>
    unfold Stmt.record
    split <;> simp [tag, value.leafy_record labelOf]
  | .eval e => simp [Stmt.record, tag, e.leafy_record labelOf]
  | .loop start cond test step body =>
    have hstart := leafy_block "decl1" start (Stmt.leafy_listRecord start 0)
    have hbody := leafy_block "body" body (Stmt.leafy_listRecord body 0)
    simp [Stmt.record, tag, hstart, hbody, leafy_slot]
  | .ret value => simp [Stmt.record, tag, leafy_slot]

theorem Stmt.leafy_listRecord (l : List Stmt) (position : Nat) :
    (Stmt.listRecord labelOf position l).Leafy := by
  match l with
  | [] => exact trivial
  | s :: rest =>
    rw [Stmt.listRecord, leafy_append, leafy_branch]
    exact ⟨Stmt.leafy_record s, Stmt.leafy_listRecord rest _⟩

end

theorem Variable.leafy_record (v : Variable) : (v.record labelOf).Leafy := by
  simp [record, leafy_slot]

end

theorem Record.leafy_flag (key : String) (isSet : Bool) : (flag key isSet).Leafy := by
  cases isSet <;> simp [flag]

theorem Record.leafy_labelled {α : Type} (label : α → Option Label) {record : α → Forest}
    (h : ∀ x, (record x).Leafy) (items : List α) : (labelled label record items).Leafy := by
  induction items with
  | nil => exact trivial
  | cons x rest ih =>
    unfold labelled
    split <;> simp [h, ih]

theorem Function.leafy_record (m : Module) (f : Function) : (f.record m).Leafy := by
  have hparameter (p : Parameter) : p.record.Leafy := by simp [Parameter.record]
  have hparameters := leafy_labelled (·.label) hparameter f.parameters.toList
  have hlocals := leafy_labelled (·.label) (Variable.leafy_record (m.labelOf (some f)))
    f.locals.toList
  have hbody := leafy_block "body" f.body
    (Stmt.leafy_listRecord (m.labelOf (some f)) f.body 0)
  simp [record, leafy_flag, hparameters, hlocals, hbody]

theorem Module.leafy_record (m : Module) : m.record.Leafy := by
  have htype (t : TypeName) : (Forest.string "name" t.name).Leafy := leafy_string _ _
  have htypes := leafy_labelled (·.label) htype m.types.toList
  have hglobals := leafy_labelled (·.label) (Variable.leafy_record (m.labelOf none))
    m.globals.toList
  have hfunctions := leafy_labelled (·.label) (Function.leafy_record m) m.functions.toList
  simp [record, htypes, hglobals, hfunctions]

/-! ## The order of the stores -/

theorem Path.split_injective {s s' : String} (h : split s = split s') : s = s' := by
  rw [← text_split s, h, text_split]

/-- Values stored at distinct paths, where there was none: each path holds the one stored there. -/
theorem Forest.value?_editAll_sets {writes : List (Path × Value)}
    (hdistinct : (writes.map Prod.fst).Nodup) (t : Forest) {p : Path} (hp : p ≠ [])
    (hnone : t.value? p = none) (v : Value) :
    (t.editAll (writes.map fun w => .set w.1 w.2)).value? p = some v ↔ (p, v) ∈ writes := by
  induction writes using List.reverseRecOn with
  | nil => exact iff_of_false (by simp [editAll, hnone]) List.not_mem_nil
  | append_singleton writes w ih =>
    obtain ⟨q, u⟩ := w
    rw [List.map_append, List.map_singleton] at hdistinct
    obtain ⟨hfirst, -, hlast⟩ := List.nodup_append.1 hdistinct
    have hset : t.editAll ((writes ++ [(q, u)]).map fun w => .set w.1 w.2) =
        (t.editAll (writes.map fun w => .set w.1 w.2)).set q u := by
      rw [List.map_append, editAll_append]
      rfl
    rw [hset, List.mem_append, List.mem_singleton, Prod.mk.injEq]
    by_cases hpq : p = q
    · subst hpq
      have hnew : (p, v) ∉ writes := fun hmem =>
        hlast p (List.mem_map_of_mem hmem) p List.mem_cons_self rfl
      rw [value?_set_self hp, Option.some.injEq, or_iff_right hnew, eq_comm]
      exact (and_iff_right rfl).symm
    · rw [value?_set_of_ne hpq, ih hfirst, or_iff_left fun h => hpq h.1]

/-- What is true of the keys of a forest and of a path is true of the keys on the paths of the
values below it. -/
theorem Forest.forall_of_mem_values {P : String → Prop} {t : Forest} (h : t.EveryKey P)
    {path : Path} (hpath : ∀ key ∈ path, P key) {w : Path × Value} (hw : w ∈ values path t) :
    ∀ key ∈ w.1, P key := by
  induction t generalizing path with
  | nil => cases hw
  | cons key value children rest ihchildren ihrest =>
    obtain ⟨hkey, hchildren, hrest⟩ := h
    have hbelow : ∀ key' ∈ path ++ [key], P key' :=
      List.forall_mem_append.2 ⟨hpath, List.forall_mem_singleton.2 hkey⟩
    rw [values, List.mem_append, List.mem_append] at hw
    rcases hw with hw | hw | hw
    · obtain ⟨v, -, rfl⟩ : ∃ v, value = some v ∧ (path ++ [key], v) = w := by simpa using hw
      exact hbelow
    · exact ihchildren hchildren hbelow hw
    · exact ihrest hrest hpath hw

namespace Module

/-- What saving stores, with the paths. -/
def stores (m : Module) : List (Path × Value) :=
  (versionPath, .string version) :: values [moduleKey] m.labelled.record

/-- What saving stores, with the texts of the paths. -/
def writes (m : Module) : List (String × Value) := m.stores.map fun w => (w.1.text, w.2)

/-- The calls that remove the version and the module and then store some values. -/
def replacingCalls (writes : List (String × Value)) : List Call :=
  .remove "OILCan.version" :: .remove "module" :: writes.map fun w => .set w.1 w.2

theorem saveEdits_eq (m : Module) : m.saveEdits =
    .remove versionPath :: .remove [moduleKey] :: m.stores.map fun w => .set w.1 w.2 := by
  rw [saveEdits, assignments_eq]
  rfl

theorem apart_stores (m : Module) : m.stores.Pairwise fun w w' => Path.Apart w.1 w'.1 := by
  refine .cons (fun w hw => ?_) (apart_values m.tidy_record.distinct m.labelled.leafy_record _)
  have hne : moduleKey ≠ "OILCan" := by decide
  obtain ⟨key, -, below, hw⟩ := key_of_mem_values hw
  rw [← hw]
  exact ⟨fun h => hne (List.cons_prefix_cons.1 h).1.symm,
    fun h => hne (List.cons_prefix_cons.1 h).1⟩

theorem split_text_stores (m : Module) {w : Path × Value} (hw : w ∈ m.stores) :
    Path.split w.1.text = w.1 := by
  have hfixed : ∀ key ∈ moduleKey :: versionPath, IsPlainKey key := by decide
  obtain ⟨hmodule, hversion⟩ := List.forall_mem_cons.1 hfixed
  rcases List.mem_cons.1 hw with rfl | hw
  · exact Path.split_text (List.cons_ne_nil _ _) fun key hkey hdot =>
      ((hversion key hkey).2 '.' hdot).1 rfl
  · have hplain := forall_of_mem_values m.tidy_record.plain (List.forall_mem_singleton.2 hmodule) hw
    obtain ⟨key, -, below, hbelow⟩ := key_of_mem_values hw
    refine Path.split_text ?_ fun key hkey hdot => ((hplain key hkey).2 '.' hdot).1 rfl
    rw [← hbelow]
    exact List.cons_ne_nil _ _

theorem writes_split (m : Module) : m.writes.map (fun w => (Path.split w.1, w.2)) = m.stores := by
  rw [writes, List.map_map]
  exact List.map_congr_left (fun w hw => by simp [m.split_text_stores hw]) |>.trans (List.map_id _)

theorem edit_replacingCalls (writes : List (String × Value)) :
    (replacingCalls writes).map Call.edit = .remove versionPath :: .remove [moduleKey] ::
      (writes.map fun w => (Path.split w.1, w.2)).map fun w => .set w.1 w.2 := by
  have hversion : Path.split "OILCan.version" = versionPath := by decide
  have hmodule : Path.split "module" = [moduleKey] := by decide
  simp only [replacingCalls, List.map_cons, List.map_map, Call.edit, hversion, hmodule]
  rfl

/-- Where the version and the module were removed, nothing is left at or below the module. -/
theorem value?_removed (t : Forest) {p : Path} (hp : [moduleKey] <+: p) :
    ((t.remove versionPath).remove [moduleKey]).value? p = none := by
  rw [value?, entry_remove_of_prefix (List.cons_ne_nil _ _) hp]

/-- Values stored at distinct paths, after the module was removed: at and below the module there is
nothing else. -/
theorem value?_replacingCalls {writes : List (String × Value)}
    (hdistinct : (writes.map Prod.fst).Nodup) (t : Forest) {p : String}
    (hp : [moduleKey] <+: Path.query p) (v : Value) :
    (t.editAll ((replacingCalls writes).map Call.edit)).value? (Path.query p) = some v ↔
      (p, v) ∈ writes := by
  have hquery : Path.query p = Path.split p := by
    unfold Path.query at hp ⊢
    split
    case isTrue hempty =>
      rw [if_pos hempty] at hp
      cases List.prefix_nil.1 hp
    case isFalse => rfl
  have hpaths : ((writes.map fun w => (Path.split w.1, w.2)).map Prod.fst).Nodup := by
    have h := hdistinct.map fun _ _ => Path.split_injective
    rwa [List.map_map] at h ⊢
  have hmem : (Path.split p, v) ∈ writes.map (fun w => (Path.split w.1, w.2)) ↔
      (p, v) ∈ writes := by
    refine ⟨fun h => ?_, fun h => List.mem_map.2 ⟨_, h, rfl⟩⟩
    obtain ⟨⟨q, u⟩, hw, hsplit⟩ := List.mem_map.1 h
    obtain ⟨hpath, rfl⟩ := Prod.mk.inj hsplit
    rwa [← Path.split_injective hpath]
  rw [hquery] at hp ⊢
  rw [edit_replacingCalls, ← hmem]
  exact value?_editAll_sets hpaths _ (Path.split_ne_nil p) (value?_removed t hp) v

theorem apart_writes (m : Module) :
    (m.writes.map Prod.fst).Pairwise fun p q => (Path.split p).Apart (Path.split q) := by
  have h := m.apart_stores
  rw [← m.writes_split, List.pairwise_map] at h
  exact List.pairwise_map.2 h

/-- The calls of a save remove the version and the module and then only store values, at paths that
differ from each other and none of which is above another. In whatever order the values are stored,
at and below the module each of them is then found at its path, and nothing else. -/
theorem save_stores_once (m : Module) :
    m.saveEdits = (replacingCalls m.writes).map Call.edit ∧
    (m.writes.map Prod.fst).Nodup ∧
    (∀ p ∈ m.writes.map Prod.fst, ∀ q ∈ m.writes.map Prod.fst,
      Path.split p <+: Path.split q → p = q) ∧
    ∀ (t : Forest) (order : List (String × Value)), order.Perm m.writes →
      ∀ p : String, [moduleKey] <+: Path.query p → ∀ v,
        (t.editAll ((replacingCalls order).map Call.edit)).value? (Path.query p) = some v ↔
          (p, v) ∈ m.writes := by
  have hnodup : (m.writes.map Prod.fst).Nodup := by
    refine m.apart_writes.imp ?_
    rintro p _ hapart rfl
    exact hapart.1 List.prefix_rfl
  refine ⟨?_, hnodup, fun p hp q hq hprefix => ?_, fun t order horder p hp v => ?_⟩
  · rw [edit_replacingCalls, writes_split, saveEdits_eq]
  · by_contra hne
    have hsymm : Std.Symm fun p q : String => (Path.split p).Apart (Path.split q) :=
      ⟨fun _ _ hapart => hapart.symm⟩
    exact (m.apart_writes.forall hp hq hne).1 hprefix
  · rw [← horder.mem_iff]
    exact value?_replacingCalls ((horder.map Prod.fst).nodup_iff.2 hnodup) t hp v

/-- A statement whose expression leads nowhere, with all values stored in reverse. -/
theorem save_stores_once_reversed :
    let f : Function :=
      { name := "f", returns := { name := "int" }, body := [.eval (.ref (.localVar ⟨0⟩))] }
    let m : Module := { name := "m", functions := ⟨#[f]⟩ }
    let p := "module.funcs.f0.body.s0.type"
    m.writes.reverse.Perm m.writes ∧ [moduleKey] <+: Path.query p ∧
      (nil.editAll ((replacingCalls m.writes.reverse).map Call.edit)).value? (Path.query p) =
        some (.string "expr-stmt") := by
  intro f m p
  have horder : m.writes.reverse.Perm m.writes := List.reverse_perm _
  have hp : [moduleKey] <+: Path.query p := by decide
  have hmem : (p, Value.string "expr-stmt") ∈ m.writes := by
    have hwrites : m.writes = [("OILCan.version", .string "0.2.0"), ("module.name", .string "m"),
        ("module.funcs.f0.name", .string "f"), ("module.funcs.f0.return-type", .string "int"),
        ("module.funcs.f0.body.s0.type", .string "expr-stmt")] := by cbv
    rw [hwrites]
    simp [p]
  exact ⟨horder, hp, ((save_stores_once m).2.2.2 nil _ horder p hp _).2 hmem⟩

end Module

end KeyedIR
