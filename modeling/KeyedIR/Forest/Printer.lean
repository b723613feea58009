import KeyedIR.Forest.Basic
/-! # Forests as text

Each entry is one line: two spaces for each level, the key, a colon, and a space and the value if
there is one. The lines of its children follow.
-/

namespace KeyedIR.Forest

set_option autoImplicit false

def valueText : Option Value → List Char
  | none => []
  | some value => ' ' :: value.text

/-- The lines of a forest whose entries stand at a depth, each with its line feed. -/
def textAt (depth : Nat) : Forest → List Char
  | nil => []
  | cons key value children rest =>
    List.replicate (2 * depth) ' ' ++ key.toList ++ ':' :: (valueText value ++
      '\n' :: (textAt (depth + 1) children ++ textAt depth rest))

def text (t : Forest) : String := String.ofList (textAt 0 t)

end KeyedIR.Forest
