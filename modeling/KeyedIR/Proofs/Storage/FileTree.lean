import KeyedIR.Storage.FileTree
/-! # Reading what was written

A name that a file can be written under leads to a place that is not a directory, and no directory
on the way to a place changes when a file is written there. So a file that was written is found
under its name, with the bytes that were written, and no other file has changed.
-/

namespace KeyedIR

set_option autoImplicit false

theorem FileError.decode_toUTF8 (s : String) : decode s.toUTF8 = .ok s := by
  have hvalid : s.toUTF8.IsValidUTF8 := s.isValidUTF8
  rw [decode, String.fromUTF8?, dif_pos hvalid]
  rfl

namespace FileTree

/-- A file can be written under the name. -/
def Writable (t : FileTree) (name : String) : Prop :=
  ∃ place, t.resolveTarget name = .ok place ∧ t.lookup place ≠ some .directory

variable {t : FileTree} {place : List String}

theorem ne_home_of_lookup (h : t.lookup place ≠ some .directory) :
    ¬ (place = [] ∨ place = home) := fun hhome => h (if_pos hhome)

theorem lookup_insert_self (h : t.lookup place ≠ some .directory) (node : FileNode) :
    (t.insert place node).lookup place = some node := by
  rw [lookup, if_neg (ne_home_of_lookup h), insert]
  exact List.lookup_cons_self

theorem lookup_insert_of_ne {other : List String} (h : other ≠ place) (node : FileNode) :
    (t.insert place node).lookup other = t.lookup other := by
  have hfilter (nodes : List (List String × FileNode)) :
      (nodes.filter fun n => n.1 != place).lookup other = nodes.lookup other := by
    induction nodes with
    | nil => rfl
    | cons n rest ih =>
      by_cases hn : n.1 = place
      · have hother : (other == n.1) = false := beq_eq_false_iff_ne.2 fun ho => h (ho.trans hn)
        rw [List.filter_cons_of_neg (by simp [hn]), ih, List.lookup_cons, hother]
      · rw [List.filter_cons_of_pos (by simp [hn]), List.lookup_cons, List.lookup_cons, ih]
  rw [lookup, lookup, insert, List.lookup_cons, beq_eq_false_iff_ne.2 h, hfilter]

/-- A file at the end of a way does not change the way. -/
theorem walk_insert (h : t.lookup place ≠ some .directory) (node : FileNode)
    {start : List String} {parts : List String} (hwalk : t.walk start parts = .ok place) :
    (t.insert place node).walk start parts = .ok place := by
  induction parts generalizing start with
  | nil => exact hwalk
  | cons part rest ih =>
    unfold walk at hwalk
    split at hwalk
    case h_1 => cases hwalk
    case h_2 => cases hwalk
    case h_3 hdirectory =>
      have hne : start ≠ place := by rintro rfl; exact h hdirectory
      rw [walk, lookup_insert_of_ne hne, hdirectory]
      dsimp only
      split at hwalk
      case isTrue hstay => rw [if_pos hstay, ih hwalk]
      case isFalse hgo =>
        rw [if_neg hgo]
        split at hwalk
        case isTrue hup => rw [if_pos hup, ih hwalk]
        case isFalse hdown =>
          rw [if_neg hdown]
          split at hwalk
          case isTrue => cases hwalk
          case isFalse hshort => rw [if_neg hshort, ih hwalk]

/-- A file can be written under the names that do not end in a slash, where the way leads. -/
theorem resolveTarget_ok_iff {name : String} : t.resolveTarget name = .ok place ↔
    checkName name = .ok () ∧ name.endsWith '/' = false ∧
      t.walk (start name) (parts name) = .ok place := by
  unfold resolveTarget
  cases hcheck : checkName name with
  | error e => exact iff_of_false nofun nofun
  | ok =>
    show (if name.endsWith '/' then _ else _) = Except.ok place ↔ _
    split
    case isFalse hslash => simp [hslash]
    case isTrue hslash =>
      apply iff_of_false _ fun h => by simp [hslash] at h
      intro h
      generalize t.walk (start name) _ = found at h
      cases found <;> cases h

section

variable {name : String} (h : t.Writable name) (bytes : ByteArray)
include h

theorem exists_write_eq : ∃ place, t.resolveTarget name = .ok place ∧
    t.lookup place ≠ some .directory ∧
    t.write name bytes = (.ok (), t.insert place (.file bytes)) := by
  obtain ⟨place, htarget, hlookup⟩ := h
  refine ⟨place, htarget, hlookup, ?_⟩
  rw [write, htarget]
  dsimp only
  split
  case h_1 hdirectory => exact absurd hdirectory hlookup
  case h_2 | h_3 => rfl

omit h in
/-- Whether a file can be written does not depend on what is written. -/
theorem write_ok_iff : (t.write name bytes).1 = .ok () ↔ t.Writable name := by
  constructor
  · intro hok
    unfold write at hok
    split at hok
    case h_1 => cases hok
    case h_2 place htarget =>
      split at hok
      case h_1 => cases hok
      case h_2 hfile => exact ⟨place, htarget, by rw [hfile]; nofun⟩
      case h_3 hnone => exact ⟨place, htarget, by rw [hnone]; nofun⟩
  · intro hwritable
    obtain ⟨place, -, -, hwrite⟩ := exists_write_eq hwritable bytes
    rw [hwrite]

/-- What is read after a file was written is what was written. -/
theorem read_write :
    (t.write name bytes).1 = .ok () ∧ (t.write name bytes).2.read name = .ok bytes := by
  obtain ⟨place, htarget, hlookup, hwrite⟩ := exists_write_eq h bytes
  obtain ⟨hcheck, -, hwalk⟩ := resolveTarget_ok_iff.1 htarget
  have hresolve : (t.insert place (.file bytes)).resolve name = .ok place := by
    rw [resolve, hcheck]
    exact walk_insert hlookup _ hwalk
  rw [hwrite, read, hresolve]
  dsimp only
  rw [lookup_insert_self hlookup]
  exact ⟨rfl, rfl⟩

theorem writable_write : (t.write name bytes).2.Writable name := by
  obtain ⟨place, htarget, hlookup, hwrite⟩ := exists_write_eq h bytes
  obtain ⟨hcheck, hslash, hwalk⟩ := resolveTarget_ok_iff.1 htarget
  rw [hwrite]
  refine ⟨place, resolveTarget_ok_iff.2 ⟨hcheck, hslash, walk_insert hlookup _ hwalk⟩, ?_⟩
  rw [lookup_insert_self hlookup]
  nofun

end

/-! ## What writing changes -/

/-- A failed write changes nothing. -/
theorem write_of_error {name : String} {bytes : ByteArray} {e : FileError}
    (h : (t.write name bytes).1 = .error e) : (t.write name bytes).2 = t := by
  unfold write at h ⊢
  split
  case h_1 => rfl
  case h_2 place htarget =>
    split
    case h_1 => rfl
    case h_2 hfile | h_3 hfile =>
      simp only [htarget, hfile] at h
      cases h

/-- The bytes of the file at a place. -/
def content (t : FileTree) (place : List String) : Option ByteArray :=
  match t.lookup place with
  | some (.file bytes) => some bytes
  | some .directory | none => none

theorem content_write {name : String} {bytes : ByteArray} (h : (t.write name bytes).1 = .ok ()) :
    ∃ place, t.resolveTarget name = .ok place ∧
      (t.write name bytes).2.content place = some bytes ∧
      ∀ other, other ≠ place → (t.write name bytes).2.content other = t.content other := by
  obtain ⟨place, htarget, hlookup, hwrite⟩ := exists_write_eq ((write_ok_iff bytes).1 h) bytes
  refine ⟨place, htarget, ?_, fun other hne => ?_⟩
  · rw [hwrite, content, lookup_insert_self hlookup]
  · rw [hwrite, content, lookup_insert_of_ne hne]
    rfl

end FileTree

end KeyedIR
