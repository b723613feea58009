import KeyedIR.Proofs.Record.RoundTrip
/-! # What saving logs

Saving labels a module first, so a reference is stored under a label exactly if it leads to a
declaration, and each declaration is stored at the key that its position gives: none is left out.
With that the events of a save follow from the program alone (`Module.saveEvents_eq`).
-/

namespace KeyedIR

set_option autoImplicit false

open Record

/-- The label under which a reference is stored, if it leads to a declaration. -/
def Module.storedLabel (m : Module) (inside : Option Function) (target : Ref) : Option Label :=
  if m.declares inside target then some target.label else none

theorem Module.labelOf_labelled_eq (m : Module) (inside : Option Function) :
    m.labelled.labelOf (inside.map Function.labelled) = m.storedLabel inside :=
  funext (m.labels_labelled inside)

theorem Module.isSome_storedLabel (m : Module) (inside : Option Function) (target : Ref) :
    (m.storedLabel inside target).isSome = m.declares inside target := by
  rw [storedLabel]
  split <;> simp_all

/-- The events of the first values of variables, which are stored below a path. -/
def Arena.initEvents {cls : DeclClass} (labelOf : Ref → Option Label) (path : Path)
    (a : Arena cls Variable) : List Event :=
  a.toList.zipIdx.flatMap fun x =>
    slotEvents labelOf (path ++ [labelKey cls x.2, "init"]) x.1.init

/-- The events of the function at a position. -/
def Function.storeEvents (m : Module) (f : Function) (k : Nat) : List Event :=
  let path := [moduleKey, "funcs", labelKey .function k]
  .writingFunction f.name ⟨.function, k⟩ ::
    (f.locals.initEvents (m.storedLabel (some f)) (path ++ ["locals"]) ++
      Stmt.listEvents (m.storedLabel (some f)) (path ++ ["body"]) 0 f.body)

/-- No declaration is left out after labelling: each is logged under the label of its position. -/
theorem Record.labelledEvents_mapIdx {cls : DeclClass} {α : Type} {name : α → String}
    {label : α → Option Label} {mark : Nat → α → α}
    (hmark : ∀ i x, label (mark i x) = some ⟨cls, i⟩) (events : α → Label → List Event)
    (a : Arena cls α) : labelledEvents name label events (a.mapIdx mark) =
      a.toList.zipIdx.flatMap fun x => events (mark x.2 x.1) ⟨cls, x.2⟩ := by
  rw [labelledEvents, Arena.toList_mapIdx, List.mapIdx_eq_zipIdx_map, List.flatMap_map]
  exact congrArg a.toList.zipIdx.flatMap (funext fun x => by rw [hmark])

theorem Record.labelledEvents_mapIdx_nil {cls : DeclClass} {α : Type} {name : α → String}
    {label : α → Option Label} {mark : Nat → α → α}
    (hmark : ∀ i x, label (mark i x) = some ⟨cls, i⟩) (a : Arena cls α) :
    labelledEvents name label (fun _ _ => []) (a.mapIdx mark) = [] := by
  rw [labelledEvents_mapIdx hmark, List.flatMap_eq_nil_iff]
  exact fun _ _ => rfl

theorem Function.events_labelled (m : Module) (f : Function) (k : Nat) :
    Function.events m.labelled { f.labelled with label := some ⟨.function, k⟩ } ⟨.function, k⟩ =
      f.storeEvents m k := by
  have hlabels : m.labelled.labelOf
      (some { f.labelled with label := some ⟨.function, k⟩ }) = m.storedLabel (some f) :=
    m.labelOf_labelled_eq (some f)
  have hparameters : labelledEvents (·.name) (·.label) (fun _ _ => [])
      f.labelled.parameters = [] :=
    labelledEvents_mapIdx_nil (by intros; rfl) f.parameters
  have hlocals (path : Path) : labelledEvents (·.name) (·.label)
      (·.events (m.storedLabel (some f)) path) f.labelled.locals =
        f.locals.initEvents (m.storedLabel (some f)) path :=
    labelledEvents_mapIdx (by intros; rfl) _ f.locals
  rw [events]
  dsimp only
  rw [hlabels, hparameters, hlocals, List.nil_append]
  rfl

theorem Module.saveEvents_eq (m : Module) : m.saveEvents =
    m.globals.initEvents (m.storedLabel none) [moduleKey, "globals"] ++
      m.functions.toList.zipIdx.flatMap fun x => x.1.storeEvents m x.2 := by
  have htypes : labelledEvents (·.name) (·.label) (fun _ _ => []) m.labelled.types = [] :=
    labelledEvents_mapIdx_nil (by intros; rfl) m.types
  have hglobals : labelledEvents (·.name) (·.label)
      (·.events (m.labelled.labelOf none) [moduleKey, "globals"]) m.labelled.globals =
        m.globals.initEvents (m.storedLabel none) [moduleKey, "globals"] := by
    rw [← m.labelOf_labelled_eq none]
    exact labelledEvents_mapIdx (by intros; rfl) _ m.globals
  have hfunctions : labelledEvents (·.name) (·.label) (·.events m.labelled)
      m.labelled.functions = m.functions.toList.zipIdx.flatMap fun x => x.1.storeEvents m x.2 :=
    (labelledEvents_mapIdx (by intros; rfl) _ m.functions).trans
      (congrArg m.functions.toList.zipIdx.flatMap (funext fun x => x.1.events_labelled m x.2))
  rw [saveEvents, events, htypes, hglobals, hfunctions, List.nil_append]

end KeyedIR
