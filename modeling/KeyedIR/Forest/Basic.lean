import KeyedIR.Path
import KeyedIR.Value
/-! # Forests

A forest is a list of keyed entries, each with an optional value and a forest of its own. New
keys go to the end, so every list of keys is in the order of first insertion. Where keys repeat,
the first of them is the one that is found; the operations here never make a key repeat.

A path that leads nowhere is looked up as an empty entry: no value and no children.
-/

namespace KeyedIR

set_option autoImplicit false

/-- A list of keyed entries. `cons key value children rest` is the entry of `key`, with what is
stored at it and below it, and then the other entries. -/
inductive Forest where
  | nil
  | cons (key : String) (value : Option Value) (children : Forest) (rest : Forest)
  deriving DecidableEq

/-- What is stored at a path: perhaps a value, and a forest of children. -/
structure Entry where
  value : Option Value := none
  children : Forest := .nil
  deriving DecidableEq

namespace Forest

def isEmpty : Forest → Bool
  | nil => true
  | cons .. => false

def keys : Forest → List String
  | nil => []
  | cons key _ _ rest => key :: rest.keys

def size : Forest → Nat
  | nil => 0
  | cons _ _ children rest => children.size + rest.size + 1

/-- Equality of forests: the same keys in the same order, with equal values. -/
protected def beq : Forest → Forest → Bool
  | nil, nil => true
  | cons key value children rest, cons key' value' children' rest' =>
    decide (key = key') && value == value' && children.beq children' && rest.beq rest'
  | _, _ => false

instance : BEq Forest := ⟨Forest.beq⟩

/-! ## Looking up -/

/-- The entry of a key; the empty entry if there is none. -/
def child : Forest → String → Entry
  | nil, _ => {}
  | cons key value children rest, wanted =>
    if key = wanted then ⟨value, children⟩ else rest.child wanted

end Forest

namespace Entry

def descend (e : Entry) (p : Path) : Entry := p.foldl (fun e key => e.children.child key) e

def isPresent (e : Entry) : Bool := e.value.isSome || !e.children.isEmpty

@[simp] theorem descend_nil (e : Entry) : e.descend [] = e := rfl

@[simp] theorem descend_cons (e : Entry) (key : String) (p : Path) :
    e.descend (key :: p) = (e.children.child key).descend p := rfl

end Entry

namespace Forest

/-- The entry at a path. The root holds no value. -/
def entry (t : Forest) (p : Path) : Entry := Entry.descend ⟨none, t⟩ p

def value? (t : Forest) (p : Path) : Option Value := (t.entry p).value

def keysBelow (t : Forest) (p : Path) : List String := (t.entry p).children.keys

def contains (t : Forest) (p : Path) : Bool := (t.entry p).isPresent

/-- The entries below a key are fewer than those of the whole forest. -/
theorem size_child_lt {t : Forest} (h : t ≠ nil) (key : String) :
    (t.child key).children.size < t.size := by
  induction t with
  | nil => exact absurd rfl h
  | cons key' value children rest _ ih =>
    rw [child, size]
    split
    · dsimp only; omega
    · cases rest with
      | nil => simp [child, size]
      | cons => have := ih (by simp); omega

/-! ## Changing -/

/-- Replaces the entry of a key by a function of it. A new key goes to the end. -/
def alter : Forest → String → (Entry → Entry) → Forest
  | nil, wanted, f => let e := f {}; cons wanted e.value e.children nil
  | cons key value children rest, wanted, f =>
    if key = wanted then let e := f ⟨value, children⟩; cons key e.value e.children rest
    else cons key value children (rest.alter wanted f)

end Forest

/-- Creates the entries along a path below an entry. A value that is given replaces the one at
the end of the path; without one that stays. -/
def Entry.put : Entry → Path → Option Value → Entry
  | e, [], value => ⟨value <|> e.value, e.children⟩
  | e, key :: p, value => ⟨e.value, e.children.alter key fun below => below.put p value⟩

namespace Forest

def put (t : Forest) (p : Path) (value : Option Value) : Forest :=
  (Entry.put ⟨none, t⟩ p value).children

def set (t : Forest) (p : Path) (value : Value) : Forest := t.put p (some value)

def drop : Forest → String → Forest
  | nil, _ => nil
  | cons key value children rest, unwanted =>
    if key = unwanted then rest.drop unwanted else cons key value children (rest.drop unwanted)

/-- Replaces the children of a key by a function of them; nothing happens if the key is not
there. -/
def mapChildren : Forest → String → (Forest → Forest) → Forest
  | nil, _, _ => nil
  | cons key value children rest, wanted, f =>
    if key = wanted then cons key value (f children) rest
    else cons key value children (rest.mapChildren wanted f)

/-- Removes what is stored at a path and below it. -/
def remove : Forest → Path → Forest
  | t, [] => t
  | t, [key] => t.drop key
  | t, key :: key' :: p => t.mapChildren key fun children => children.remove (key' :: p)

end Forest

inductive Edit where
  | set (path : Path) (value : Value)
  | remove (path : Path)
  deriving DecidableEq

def Forest.edit (t : Forest) : Edit → Forest
  | .set path value => t.set path value
  | .remove path => t.remove path

def Forest.editAll (t : Forest) (edits : List Edit) : Forest := edits.foldl edit t

end KeyedIR
