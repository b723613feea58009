import KeyedIR.Proofs.Program.Labelling
import KeyedIR.Proofs.Record.Events
/-! # Labels from before

Saving labels a module anew, so it stores and logs the same whatever labels the module had, those of
the types that declarations mention included. Together with what labelling does to a module this is
`Module.labelled_afresh`.
-/

namespace KeyedIR

set_option autoImplicit false

open Forest Record

namespace Module

variable (m : Module)

/-! ## What references lead to -/

theorem declares_unlabelled (inside : Option Function) (target : Ref) :
    m.unlabelled.declares (inside.map Function.unlabelled) target =
      m.declares inside target := by
  cases target with
  | global id | function id => simp [declares, target?, unlabelled, Arena.get?_map]
  | parameter id | localVar id =>
    cases inside <;> simp [declares, target?, Function.unlabelled, Arena.get?_map]

theorem storedLabel_unlabelled (inside : Option Function) :
    m.unlabelled.storedLabel (inside.map Function.unlabelled) = m.storedLabel inside := by
  funext target
  rw [storedLabel, storedLabel, declares_unlabelled]

/-! ## What is stored -/

theorem record_unlabelled_variables {cls : DeclClass} (labelOf : Ref → Option Label)
    (a : Arena cls Variable) :
    (a.map Variable.unlabelled).toList.map (·.record labelOf) =
      a.toList.map (·.record labelOf) := by
  rw [Arena.toList_map, List.map_map]
  rfl

theorem record_unlabelled_function (f : Function) :
    f.unlabelled.labelled.record m.unlabelled.labelled = f.labelled.record m.labelled := by
  have hlabels : m.unlabelled.labelled.labelOf (some f.unlabelled.labelled) =
      m.labelled.labelOf (some f.labelled) :=
    (labelOf_labelled_eq _ (some f.unlabelled)).trans
      ((m.storedLabel_unlabelled (some f)).trans (m.labelOf_labelled_eq (some f)).symm)
  have hparameters : f.unlabelled.parameters.toList.map (·.record) =
      f.parameters.toList.map (·.record) := by
    rw [Function.unlabelled, Arena.toList_map, List.map_map]
    rfl
  rw [Function.record_labelled, Function.record_labelled, hlabels, hparameters,
    Function.unlabelled, record_unlabelled_variables]
  rfl

theorem record_unlabelled : m.unlabelled.labelled.record = m.labelled.record := by
  have hlabels : m.unlabelled.labelled.labelOf none = m.labelled.labelOf none :=
    (labelOf_labelled_eq _ none).trans
      ((m.storedLabel_unlabelled none).trans (m.labelOf_labelled_eq none).symm)
  have htypes : m.unlabelled.types.toList.map (fun t => Forest.string "name" t.name) =
      m.types.toList.map fun t => Forest.string "name" t.name := by
    rw [unlabelled, Arena.toList_map, List.map_map]
    rfl
  have hfunctions : m.unlabelled.functions.toList.map (·.labelled.record m.unlabelled.labelled) =
      m.functions.toList.map (·.labelled.record m.labelled) := by
    rw [show m.unlabelled.functions = m.functions.map Function.unlabelled from rfl,
      Arena.toList_map, List.map_map]
    exact List.map_congr_left fun f _ => m.record_unlabelled_function f
  have hglobals : m.unlabelled.globals = m.globals.map Variable.unlabelled := rfl
  rw [record_labelled, record_labelled, htypes, hfunctions, hlabels, hglobals,
    record_unlabelled_variables]
  rfl

theorem saveEdits_unlabelled : m.unlabelled.saveEdits = m.saveEdits := by
  rw [saveEdits, saveEdits, record_unlabelled]

/-! ## What is logged -/

theorem initEvents_unlabelled {cls : DeclClass} (labelOf : Ref → Option Label) (path : Path)
    (a : Arena cls Variable) :
    (a.map Variable.unlabelled).initEvents labelOf path = a.initEvents labelOf path := by
  rw [Arena.initEvents, Arena.toList_map, List.zipIdx_map, List.flatMap_map]
  rfl

theorem storeEvents_unlabelled (f : Function) (k : Nat) :
    f.unlabelled.storeEvents m.unlabelled k = f.storeEvents m k := by
  have hlabels : m.unlabelled.storedLabel (some f.unlabelled) = m.storedLabel (some f) :=
    m.storedLabel_unlabelled (some f)
  rw [Function.storeEvents, Function.storeEvents, hlabels,
    show f.unlabelled.locals = f.locals.map Variable.unlabelled from rfl, initEvents_unlabelled]
  rfl

theorem saveEvents_unlabelled : m.unlabelled.saveEvents = m.saveEvents := by
  have hlabels : m.unlabelled.storedLabel none = m.storedLabel none :=
    m.storedLabel_unlabelled none
  have hglobals : m.unlabelled.globals = m.globals.map Variable.unlabelled := rfl
  have hfunctions : m.unlabelled.functions = m.functions.map Function.unlabelled := rfl
  rw [saveEvents_eq, saveEvents_eq, hlabels, hglobals, hfunctions, initEvents_unlabelled,
    Arena.toList_map, List.zipIdx_map, List.flatMap_map]
  exact congrArg (_ ++ m.functions.toList.zipIdx.flatMap ·)
    (funext fun x => m.storeEvents_unlabelled x.1 x.2)

/-! ## Labels afresh -/

/-- After labelling, whatever labels there were before, the labels of the module and those of each
function tell declarations apart, and nothing but labels of declarations has changed. Modules that
differ in labels only are saved by the same changes and with the same events. -/
theorem labelled_afresh (m : Module) :
    TellsApart m.labelled.owned ∧
      (∀ f ∈ m.labelled.functions.toList, TellsApart f.owned) ∧
      m.labelled.bare = m.bare ∧
      ∀ m' : Module, m'.unlabelled = m.unlabelled →
        m'.saveEdits = m.saveEdits ∧ m'.saveEvents = m.saveEvents := by
  refine ⟨m.tellsApart_labelled, fun f' hf' => ?_, m.bare_labelled, fun m' hsame => ⟨?_, ?_⟩⟩
  · rw [labelled, Arena.toList_mapIdx] at hf'
    obtain ⟨k, hk, rfl⟩ := List.mem_mapIdx.1 hf'
    exact Function.tellsApart_labelled m.functions.toList[k]
  · rw [← m'.saveEdits_unlabelled, hsame, m.saveEdits_unlabelled]
  · rw [← m'.saveEvents_unlabelled, hsame, m.saveEvents_unlabelled]

/-- Two functions with one label, and a global whose type has the label of that global. -/
theorem labelled_afresh_conflicting :
    let body : List Stmt := [.eval (.ref (.function ⟨0⟩)), .ret (some (.ref (.localVar ⟨7⟩)))]
    let plain : Module := { name := "m"
                            globals := ⟨#[{ name := "a", type := { name := "int" } }]⟩
                            functions := ⟨#[{ name := "f", returns := { name := "int" }, body },
                              { name := "g", returns := { name := "int" }, body }]⟩ }
    let stale : Module := { name := "m"
                            globals := ⟨#[{ name := "a"
                                            type := { name := "int", label := some ⟨.global, 0⟩ }
                                            label := some ⟨.function, 1⟩ }]⟩
                            functions := ⟨#[{ name := "f", returns := { name := "int" }, body
                                              label := some ⟨.function, 1⟩ },
                              { name := "g", returns := { name := "int" }, body
                                label := some ⟨.function, 1⟩ }]⟩ }
    stale.unlabelled = plain.unlabelled ∧
      stale.saveEdits = plain.saveEdits ∧ stale.saveEvents = plain.saveEvents := by
  intro body plain stale
  have hsame : stale.unlabelled = plain.unlabelled := by cbv
  exact ⟨hsame, plain.labelled_afresh.2.2.2 stale hsame⟩

end Module

end KeyedIR
