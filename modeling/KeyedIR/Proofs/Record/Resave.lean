import KeyedIR.Proofs.Record.LostReferences
/-! # What was loaded can be saved without loss

Saving warns only of references that lead nowhere. A loaded module has none, so it is saved and
loaded again without a warning and comes back as it was.
-/

namespace KeyedIR

set_option autoImplicit false

open Logged

namespace Module

variable {m : Module}

/-- Saving a module with sound expressions warns of nothing. -/
theorem level_saveEvents (hm : ∀ site e, m.Occurs site e → e.Sound site.horizon) :
    ∀ e ∈ m.saveEvents, e.level ≠ .warn := by
  have hnone : m.saveEvents.countP Event.isWarning = 0 :=
    m.countP_saveEvents_eq_zero.2 fun site target hoccurs =>
      isSome_target? hoccurs.fits (hm site _ hoccurs)
  intro e he
  simpa [Event.isWarning] using List.countP_eq_zero.1 hnone e he

/-- Whatever forest a module was loaded from: each of its references leads to a declaration that can
be seen where the reference stands, each operator with two operands has both, and the module can be
saved into any forest and loaded again, which warns of nothing and gives back the same module. -/
theorem resave_of_load {t : Forest} {m : Module} (h : (load t).result = .ok m) :
    (∀ site target, m.Occurs site (.ref target) →
      (m.target? site.inside target).isSome = true ∧ site.horizon.Shows target) ∧
    (∀ site op operand, m.Occurs site (.unary op operand) → op.isUnary = true) ∧
    ∀ base : Forest, (∀ e ∈ m.saveEvents, e.level ≠ .warn) ∧ Quiet (load (m.save base)) m := by
  have hsound := sound_of_load h
  refine ⟨?_, fun _ _ _ hoccurs => hsound.of_occurs hoccurs, ?_⟩
  · intro site target hoccurs
    have hshows : site.horizon.Shows target := hsound.of_occurs hoccurs
    exact ⟨isSome_target? hoccurs.fits hshows, hshows⟩
  · intro base
    have hread := quiet_load_save (fun _ _ => hsound.of_occurs) base
    rw [hsound.plain] at hread
    exact ⟨level_saveEvents fun _ _ => hsound.of_occurs, hread⟩

/-- A global with the key of a function is found by that key, and a NaN is kept. -/
theorem resave_of_load_misnamed :
    let t := Forest.cons "module" none (.string "name" "m" ++
      .branch "globals" (.branch "f0" (.string "name" "a" ++ .string "type" "int") ++
        .branch "g7" (.string "name" "b" ++ .string "type" "int" ++
          .branch "init" (.string "type" "arith-expr" ++
            .branch "lhs" (.string "type" "ident-expr" ++ .string "ref" "f0") ++
            .string "op" "add" ++
            .branch "rhs" (.string "type" "float-const" ++ .leaf "val" (.float .nan)))))) .nil
    let m : Module := { name := "m", globals := ⟨#[{ name := "a", type := { name := "int" } },
      { name := "b", type := { name := "int" },
        init := some (.binary .add (.ref (.global ⟨0⟩)) (.float .nan)) }]⟩ }
    (load t).result = .ok m ∧
      (∀ site target, m.Occurs site (.ref target) →
        (m.target? site.inside target).isSome = true ∧ site.horizon.Shows target) ∧
      (∀ site op operand, m.Occurs site (.unary op operand) → op.isUnary = true) ∧
      ∀ base : Forest, (∀ e ∈ m.saveEvents, e.level ≠ .warn) ∧ Quiet (load (m.save base)) m := by
  intro t m
  have hread : (load t).result = .ok m := by cbv
  exact ⟨hread, resave_of_load hread⟩

end Module

end KeyedIR
