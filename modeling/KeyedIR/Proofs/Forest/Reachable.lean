import KeyedIR.Proofs.Forest.RoundTrip
/-! # Forests that changes lead to

Whatever is stored, removed or read, starting from nothing, leads to a distinct forest without a dot
in any key. Among these forests the printed text gives back an equal forest exactly if all keys are
plain and no stored number is a NaN; a NaN is read back too, but equals nothing.
-/

namespace KeyedIR

set_option autoImplicit false

theorem Path.no_dot_of_mem_split {s key : String} (h : key ∈ split s) : '.' ∉ key.toList := by
  have hparts (text : List Char) : ∀ part ∈ text.splitOn '.', '.' ∉ part := by
    induction text with
    | nil => simp
    | cons c text ih =>
      rw [List.splitOn_cons_eq_if_modifyHead]
      obtain ⟨first, rest, heq⟩ := List.exists_cons_of_ne_nil (List.splitOn_ne_nil '.' text)
      rw [heq, List.forall_mem_cons] at ih
      split
      case isTrue =>
        rw [heq]
        exact List.forall_mem_cons.2 ⟨List.not_mem_nil, List.forall_mem_cons.2 ih⟩
      case isFalse hc =>
        rw [heq, List.modifyHead_cons]
        refine List.forall_mem_cons.2 ⟨?_, ih.2⟩
        rw [List.mem_cons, not_or]
        exact ⟨fun hdot => hc (beq_iff_eq.2 hdot.symm), ih.1⟩
  obtain ⟨part, hpart, rfl⟩ := List.mem_map.1 h
  rw [String.toList_ofList]
  exact hparts s.toList part hpart

namespace Forest

/-- A forest that comes from nothing by storing, removing and reading. Paths are given as texts. -/
inductive Reachable : Forest → Prop
  | nil : Reachable nil
  | set {t : Forest} (h : Reachable t) (path : String) (value : Value) :
      Reachable (t.set (Path.split path) value)
  | remove {t : Forest} (h : Reachable t) (path : String) : Reachable (t.remove (Path.split path))
  | ofText {text : String} {t : Forest} (h : ofText text = .ok t) : Reachable t

theorem Reachable.distinct {t : Forest} (h : Reachable t) : t.Distinct := by
  induction h with
  | nil => exact trivial
  | set _ path value ih => exact ih.put (Path.split path) (some value)
  | remove _ path ih => exact ih.remove (Path.split path)
  | ofText h => exact (sound_of_ofText h).1

theorem Reachable.no_dot {t : Forest} (h : Reachable t) : t.EveryKey ('.' ∉ ·.toList) := by
  induction h with
  | nil => exact trivial
  | set _ path value ih => exact ih.put (fun key => Path.no_dot_of_mem_split) (some value)
  | remove _ path ih => exact ih.remove (Path.split path)
  | ofText h =>
    refine (sound_of_ofText h).2.mono fun key hplain hdot => ?_
    exact (hplain.2 '.' hdot).1 rfl

/-! ## Equality -/

theorem beq_cons {key key' : String} {value value' : Option Value}
    {children children' rest rest' : Forest} :
    (cons key value children rest == cons key' value' children' rest') = true ↔
      key = key' ∧ (value == value') = true ∧ (children == children') = true ∧
        (rest == rest') = true := by
  show (decide (key = key') && value == value' && children == children' && rest == rest') = true ↔
    _
  simp only [Bool.and_eq_true, decide_eq_true_eq, and_assoc]

theorem everyKey_of_beq {p : String → Prop} {t u : Forest} (h : (t == u) = true)
    (ht : t.EveryKey p) : u.EveryKey p := by
  induction t generalizing u with
  | nil =>
    cases u with
    | nil => exact trivial
    | cons => cases h
  | cons key value children rest ihchildren ihrest =>
    cases u with
    | nil => cases h
    | cons key' value' children' rest' =>
      obtain ⟨hkey, -, hchildren, hrest⟩ := beq_cons.1 h
      exact ⟨hkey ▸ ht.1, ihchildren hchildren ht.2.1, ihrest hrest ht.2.2⟩

theorem ne_nan_of_beq {t u : Forest} (h : (t == u) = true) : u.EveryValue (· ≠ .float .nan) := by
  induction t generalizing u with
  | nil =>
    cases u with
    | nil => exact trivial
    | cons => cases h
  | cons key value children rest ihchildren ihrest =>
    cases u with
    | nil => cases h
    | cons key' value' children' rest' =>
      obtain ⟨-, hvalue, hchildren, hrest⟩ := beq_cons.1 h
      refine ⟨?_, ihchildren hchildren, ihrest hrest⟩
      rintro v ⟨⟩
      cases value with
      | none => cases hvalue
      | some v' => exact Value.ne_nan_of_beq hvalue

theorem beq_self {t : Forest} (h : t.EveryValue (· ≠ .float .nan)) : (t == t) = true := by
  induction t with
  | nil => rfl
  | cons key value children rest ihchildren ihrest =>
    obtain ⟨hvalue, hchildren, hrest⟩ := h
    refine beq_cons.2 ⟨rfl, ?_, ihchildren hchildren, ihrest hrest⟩
    cases value with
    | none => rfl
    | some v => exact Value.beq_self (hvalue v rfl)

/-! ## Reading what was printed -/

/-- The text of a reachable forest gives back an equal forest exactly if its keys are plain and none
of its numbers is a NaN. With plain keys and NaNs it still gives back the forest itself, and so the
same text. -/
theorem ofText_text_iff {t : Forest} (h : Reachable t) :
    ((∃ u, ofText t.text = .ok u ∧ (u == t) = true) ↔
      t.EveryKey IsPlainKey ∧ t.EveryValue (· ≠ .float .nan)) ∧
    (t.EveryKey IsPlainKey → ∃ u, ofText t.text = .ok u ∧ u = t ∧ u.text = t.text) := by
  refine ⟨⟨?_, ?_⟩, ?_⟩
  · rintro ⟨u, hread, hequal⟩
    exact ⟨everyKey_of_beq hequal (sound_of_ofText hread).2, ne_nan_of_beq hequal⟩
  · rintro ⟨hplain, hnan⟩
    exact ⟨t, ofText_text h.distinct hplain, beq_self hnan⟩
  · intro hplain
    exact ⟨t, ofText_text h.distinct hplain, rfl, rfl⟩

theorem ofText_text_escaped :
    Reachable ((nil.set (Path.split "a.b") (.string "\"# x:\r\n")).set (Path.split "a")
      (.float (.number true 0))) ∧
    ∃ u, ofText ((nil.set (Path.split "a.b") (.string "\"# x:\r\n")).set (Path.split "a")
      (.float (.number true 0))).text = .ok u ∧
      (u == (nil.set (Path.split "a.b") (.string "\"# x:\r\n")).set (Path.split "a")
        (.float (.number true 0))) = true := by
  have hreachable := (Reachable.nil.set "a.b" (.string "\"# x:\r\n")).set "a"
    (.float (.number true 0))
  have hab : Path.split "a.b" = ["a", "b"] := by decide
  have ha : Path.split "a" = ["a"] := by decide
  refine ⟨hreachable, (ofText_text_iff hreachable).1.2 ?_⟩
  rw [hab, ha]
  refine ⟨⟨?_, ⟨?_, trivial, trivial⟩, trivial⟩, ?_⟩
  · decide
  · decide
  · simp [EveryValue, Forest.set, Forest.put, Entry.put, Forest.alter]

end Forest

end KeyedIR
