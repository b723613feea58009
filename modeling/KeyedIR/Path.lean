/-! # Paths

A path is the list of keys from the root of a forest down to an entry. In text the keys are
joined by dots. A text without a dot, the empty one too, is a path of one key when it says where
to write; when it says where to look, the empty text is the root.
-/

namespace KeyedIR

set_option autoImplicit false

/-- The keys from the root of a forest to an entry, outermost first. -/
abbrev Path := List String

namespace Path

def text (p : Path) : String := String.ofList (['.'].intercalate (p.map String.toList))

/-- The keys of a text, which a dot separates. There is always at least one. -/
def split (s : String) : Path := (s.toList.splitOn '.').map String.ofList

/-- The entry that a text names in a query: the root for the empty text. -/
def query (s : String) : Path := if s.isEmpty then [] else split s

theorem text_split (s : String) : text (split s) = s := by
  have h : (split s).map String.toList = s.toList.splitOn '.' := by
    simp [split, Function.comp_def]
  rw [text, h, List.intercalate_splitOn, String.ofList_toList]

/-- A path of at least one key whose keys have no dot is the path of its text. -/
theorem split_text {p : Path} (hne : p ≠ []) (h : ∀ key ∈ p, '.' ∉ key.toList) :
    split (text p) = p := by
  rw [split, text, String.toList_ofList, List.splitOn_intercalate]
  · simp [Function.comp_def]
  · simpa using h
  · simpa using hne

end Path

end KeyedIR
