import KeyedIR.Forest.Basic
/-! # Building forests

Single entries, branches and concatenation, and the list of changes that store the values of a
forest one by one. A branch over an empty forest is empty, so a forest built here has an entry only
where there is a value at it or below it.
-/

namespace KeyedIR.Forest

set_option autoImplicit false

def leaf (key : String) (value : Value) : Forest := cons key (some value) nil nil

/-- One entry without a value over a forest of children; nothing if there are none. -/
def branch (key : String) (children : Forest) : Forest :=
  if children.isEmpty then nil else cons key none children nil

protected def append : Forest → Forest → Forest
  | nil, t => t
  | cons key value children rest, t => cons key value children (rest.append t)

instance : Append Forest := ⟨Forest.append⟩

@[simp] theorem nil_append (t : Forest) : nil ++ t = t := rfl

@[simp] theorem cons_append (key : String) (value : Option Value) (children rest t : Forest) :
    cons key value children rest ++ t = cons key value children (rest ++ t) := rfl

@[simp] theorem append_nil (t : Forest) : t ++ nil = t := by
  induction t with
  | nil => rfl
  | cons key value children rest _ ih => rw [cons_append, ih]

theorem append_assoc (t u v : Forest) : t ++ u ++ v = t ++ (u ++ v) := by
  induction t with
  | nil => rfl
  | cons key value children rest _ ih => simp only [cons_append, ih]

@[simp] theorem keys_append (t u : Forest) : (t ++ u).keys = t.keys ++ u.keys := by
  induction t with
  | nil => rfl
  | cons key value children rest _ ih => simp [keys, ih]

/-- The changes that store the values of a forest below a path, an entry's own value before those
below it. -/
def assignments (path : Path) : Forest → List Edit
  | nil => []
  | cons key value children rest =>
    (value.map (Edit.set (path ++ [key]))).toList ++
      (assignments (path ++ [key]) children ++ assignments path rest)

end KeyedIR.Forest
