import KeyedIR.Proofs.Record.RoundTrip
/-! # Modules with lost references

Saving leaves a lost reference out of the container, and with it at most a whole first value of a
lost variable. What else depends on the reference is stored without it. So a saved module is loaded
only if none of its lost references stands where an expression has to be, and no list of statements
consists of first values of lost variables alone. In place of a module that is not readable in this
sense the error for a missing key comes back; a readable one comes back without its lost references.
-/

namespace KeyedIR

set_option autoImplicit false

open Logged

/-- A module that is well-formed but for lost references and for NaN. -/
structure Module.ScopedOrLost (m : Module) : Prop where
  /-- What is declared and referred to can be seen from where the reference stands. -/
  visible : ∀ site target, m.Occurs site (.ref target) →
    m.declares site.inside target = true → site.horizon.Shows target
  complete : ∀ site op operand, m.Occurs site (.unary op operand) → op.isUnary = true

namespace Module

theorem ScopedOrLost.standing {m : Module} (h : m.ScopedOrLost) (site : Site) (e : Expr)
    (hoccurs : m.Occurs site e) : Load.Standing (m.declares site.inside) site.horizon e := by
  cases e with
  | ref target =>
    cases hdeclared : m.declares site.inside target with
    | false => exact .inl (by rw [Expr.isLost, hdeclared]; rfl)
    | true => exact .inr (h.visible site target hoccurs hdeclared)
  | unary op operand => exact .inr (h.complete site op operand hoccurs)
  | _ => exact .inr trivial

/-- A module with lost references is loaded after it was saved, into whatever forest, exactly if it
is readable, and then without its labels and its lost references, and without a warning. -/
theorem load_save_pruned {m : Module} (h : m.ScopedOrLost) (t : Forest) :
    (m.Readable → Quiet (load (m.save t)) m.pruned.unlabelled) ∧
      (¬m.Readable → ∃ path,
        (load (m.save t)).result = .error (.access (.missingKey path))) := by
  have hyields := yields_load_save h.standing t
  exact ⟨hyields.quiet, hyields.missing⟩

/-- A lost reference that is returned is left out, and one that is a statement leaves a statement
behind that cannot be read. -/
theorem load_save_pruned_local :
    let inBody (body : List Stmt) : Module := { name := "m", functions := ⟨#[
      { name := "f", returns := { name := "int" }, body }]⟩ }
    let lost : Expr := .ref (.localVar ⟨0⟩)
    (inBody [.ret (some lost)]).ScopedOrLost ∧ (inBody [.eval lost, .ret none]).ScopedOrLost ∧
      (load ((inBody [.ret (some lost)]).save .nil)).result = .ok (inBody [.ret none]) ∧
      (inBody [.eval lost, .ret none]).pruned = inBody [.ret none] ∧
      ∃ path, (load ((inBody [.eval lost, .ret none]).save .nil)).result =
        .error (.access (.missingKey path)) := by
  intro inBody lost
  have hsingle {body : List Stmt} {k : Nat} {f : Function}
      (hf : (inBody body).functions.items[k]? = some f) :
      f = { name := "f", returns := { name := "int" }, body } := by
    have hmem := Array.mem_of_getElem? hf
    exact Array.mem_singleton.1 hmem
  have honly {body : List Stmt} (hbody : Stmt.listParts body = [lost]) (site : Site) (e : Expr)
      (hoccurs : (inBody body).Occurs site e) :
      e = lost ∧ (inBody body).declares site.inside (.localVar ⟨0⟩) = false := by
    cases hoccurs with
    | global hv => cases hv
    | localVar hf hv =>
      obtain rfl := hsingle hf
      cases hv
    | body hf he =>
      obtain rfl := hsingle hf
      rw [hbody] at he
      exact ⟨List.mem_singleton.1 he, rfl⟩
  have hscoped {body : List Stmt} (hbody : Stmt.listParts body = [lost]) :
      (inBody body).ScopedOrLost := by
    refine ⟨fun site target hoccurs hdeclared => ?_, fun site op operand hoccurs => ?_⟩
    · obtain ⟨htarget, hlost⟩ := honly hbody site _ hoccurs
      rw [Expr.ref.inj htarget, hlost] at hdeclared
      cases hdeclared
    · have hexpr : Expr.unary op operand = .ref (.localVar ⟨0⟩) := (honly hbody site _ hoccurs).1
      cases hexpr
  have hreturned : (inBody [.ret (some lost)]).ScopedOrLost := hscoped rfl
  have hstatement : (inBody [.eval lost, .ret none]).ScopedOrLost := hscoped rfl
  have hreadable : (inBody [.ret (some lost)]).Readable := by
    refine ⟨fun i v hv => (by cases hv), fun k f hf => ?_⟩
    obtain rfl := hsingle hf
    refine ⟨fun j v hv => (by cases hv), .inr nofun, fun e he => ?_, trivial⟩
    cases he
    exact .inl rfl
  have hunreadable : ¬(inBody [.eval lost, .ret none]).Readable := by
    intro h
    exact Bool.noConfusion (h.functions 0 _ rfl).body.2.1
  have hpruned : (inBody [.ret (some lost)]).pruned.unlabelled = inBody [.ret none] := by cbv
  refine ⟨hreturned, hstatement, ?_, by cbv, (load_save_pruned hstatement .nil).2 hunreadable⟩
  rw [← hpruned]
  exact ((load_save_pruned hreturned .nil).1 hreadable).1

end Module

end KeyedIR
