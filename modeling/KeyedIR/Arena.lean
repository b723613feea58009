import KeyedIR.Label
/-! # Arenas

An arena owns the declarations of one class, in order, and hands out their positions as ids. An
id has 32 bits and is good for arenas of its own class only. Nothing is ever taken out, so an id
stays good.
-/

namespace KeyedIR

set_option autoImplicit false

/-- The position of a declaration among those of its class. -/
structure Id (cls : DeclClass) where
  position : UInt32
  deriving DecidableEq

namespace Id

variable {cls : DeclClass}

/-- A position as an id, cut to 32 bits. -/
def ofNat (n : Nat) : Id cls := ⟨UInt32.ofNat n⟩

def toNat (i : Id cls) : Nat := i.position.toNat

@[simp] theorem toNat_ofNat (n : Nat) : (ofNat n : Id cls).toNat = n % UInt32.size := by
  simp [toNat, ofNat]

theorem toNat_lt (i : Id cls) : i.toNat < UInt32.size := i.position.toNat_lt

@[simp] theorem ofNat_toNat (i : Id cls) : ofNat i.toNat = i := by
  simp [toNat, ofNat]

end Id

structure OutOfBounds where
  length : Nat
  index : Nat
  deriving DecidableEq

def OutOfBounds.message (e : OutOfBounds) : String :=
  s!"index out of bounds: the len is {e.length} but the index is {e.index}"

/-- The declarations of one class, in the order in which they were added. -/
structure Arena (cls : DeclClass) (α : Type) where
  items : Array α := #[]
  deriving DecidableEq

namespace Arena

variable {cls : DeclClass} {α β : Type}

def size (a : Arena cls α) : Nat := a.items.size

def isEmpty (a : Arena cls α) : Bool := a.items.isEmpty

def nextId (a : Arena cls α) : Id cls := .ofNat a.size

/-- Adds an item at the end. Its id is the one that `nextId` told. -/
def push (a : Arena cls α) (x : α) : Arena cls α := ⟨a.items.push x⟩

def get? (a : Arena cls α) (i : Id cls) : Option α := a.items[i.toNat]?

def get (a : Arena cls α) (i : Id cls) : Except OutOfBounds α :=
  match a.get? i with
  | some x => .ok x
  | none => .error ⟨a.size, i.toNat⟩

def set (a : Arena cls α) (i : Id cls) (x : α) : Except OutOfBounds (Arena cls α) :=
  if h : i.toNat < a.items.size then .ok ⟨a.items.set i.toNat x h⟩
  else .error ⟨a.size, i.toNat⟩

def map (f : α → β) (a : Arena cls α) : Arena cls β := ⟨a.items.map f⟩

def mapIdx (f : Nat → α → β) (a : Arena cls α) : Arena cls β := ⟨a.items.mapIdx f⟩

def toList (a : Arena cls α) : List α := a.items.toList

theorem mem_toList_iff {a : Arena cls α} {x : α} :
    x ∈ a.toList ↔ ∃ i : Nat, a.items[i]? = some x :=
  Array.mem_toList_iff.trans Array.mem_iff_getElem?

theorem toList_map (f : α → β) (a : Arena cls α) : (a.map f).toList = a.toList.map f :=
  Array.toList_map

theorem toList_mapIdx (f : Nat → α → β) (a : Arena cls α) :
    (a.mapIdx f).toList = a.toList.mapIdx f := Array.toList_mapIdx

theorem get?_map (f : α → β) (a : Arena cls α) (id : Id cls) :
    (a.map f).get? id = (a.get? id).map f := Array.getElem?_map

theorem get?_mapIdx (f : Nat → α → β) (a : Arena cls α) (id : Id cls) :
    (a.mapIdx f).get? id = (a.get? id).map (f id.toNat) := Array.getElem?_mapIdx

instance [BEq α] : BEq (Arena cls α) := ⟨fun a b => a.items == b.items⟩

end Arena

end KeyedIR
