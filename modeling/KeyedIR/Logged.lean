import KeyedIR.Log
/-! # Computations that log

A computation logs events and ends in a result or in an error. What was logged before an error
stays, and nothing is logged after it. For each type of errors this is a lawful monad.
-/

namespace KeyedIR

set_option autoImplicit false

/-- What has been logged, and a result or an error. -/
structure Logged (ε α : Type) where
  events : List Event
  result : Except ε α

namespace Logged

variable {ε ε' α β : Type}

protected def pure (x : α) : Logged ε α := ⟨[], .ok x⟩

/-- A computation after another, unless that ended in an error. -/
protected def bind (c : Logged ε α) (next : α → Logged ε β) : Logged ε β :=
  match c.result with
  | .ok x => ⟨c.events ++ (next x).events, (next x).result⟩
  | .error e => ⟨c.events, .error e⟩

instance : Monad (Logged ε) where
  pure := Logged.pure
  bind := Logged.bind

private theorem map_id (c : Logged ε α) : id <$> c = c := by
  obtain ⟨events, result⟩ := c
  cases result <;> simp [Functor.map, Logged.bind, Logged.pure]

private theorem pure_then (x : α) (next : α → Logged ε β) : pure x >>= next = next x := by
  simp [bind, pure, Logged.bind, Logged.pure]

private theorem then_assoc {γ : Type} (c : Logged ε α) (f : α → Logged ε β)
    (g : β → Logged ε γ) : c >>= f >>= g = c >>= fun x => f x >>= g := by
  obtain ⟨events, result⟩ := c
  cases result with
  | error e => rfl
  | ok x => cases h : (f x).result <;> simp [bind, Logged.bind, h]

instance : LawfulMonad (Logged ε) := LawfulMonad.mk' (Logged ε) map_id pure_then then_assoc

def note (e : Event) : Logged ε Unit := ⟨[e], .ok ()⟩

def fail (e : ε) : Logged ε α := ⟨[], .error e⟩

def ofExcept (r : Except ε α) : Logged ε α := ⟨[], r⟩

def mapError (f : ε → ε') (c : Logged ε α) : Logged ε' α := ⟨c.events, c.result.mapError f⟩

end Logged

end KeyedIR
