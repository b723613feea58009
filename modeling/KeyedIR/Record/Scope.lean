import KeyedIR.Program.Reference
/-! # Scopes

A scope maps names to the declarations they were read as. A name has one binding, the latest.
-/

namespace KeyedIR

set_option autoImplicit false

/-- Names and what they stand for, the latest binding first; no name occurs twice. -/
structure Scope where
  bindings : List (String × Ref) := []
  deriving DecidableEq

namespace Scope

/-- Binds a name, in place of what it stood for before. -/
def bind (s : Scope) (name : String) (target : Ref) : Scope :=
  ⟨(name, target) :: s.bindings.filter fun b => b.1 != name⟩

def lookup (s : Scope) (name : String) : Option Ref := s.bindings.lookup name

def size (s : Scope) : Nat := s.bindings.length

@[simp] theorem lookup_bind_self (s : Scope) (name : String) (target : Ref) :
    (s.bind name target).lookup name = some target := by
  simp [bind, lookup]

theorem lookup_bind_of_ne {s : Scope} {name other : String} {target : Ref} (h : other ≠ name) :
    (s.bind name target).lookup other = s.lookup other := by
  obtain ⟨bindings⟩ := s
  simp only [bind, lookup, List.lookup_cons, beq_eq_false_iff_ne.2 h]
  induction bindings with
  | nil => rfl
  | cons b rest ih =>
    obtain ⟨name', target'⟩ := b
    by_cases hn : name' = name
    · subst hn
      simp [List.lookup_cons, beq_eq_false_iff_ne.2 h, ih]
    · simp [List.lookup_cons, hn, ih]

end Scope

/-- What is visible where an expression is read: the globals and functions of the module, and the
parameters and locals of the function around it. -/
structure Scopes where
  globals : Scope := {}
  locals : Scope := {}

end KeyedIR
