import KeyedIR.Proofs.Record.ReadBack
import KeyedIR.Proofs.Record.Save
/-! # Modules are read back

While a saved module is loaded, the declarations read so far are those of the module up to some
position, without their labels and their lost references, and the names in scope know just these. So
a module whose references are lost or sound is read back without its labels and its lost references
if it is readable. A module with sound expressions only is, and an equal one comes back only then.
-/

namespace KeyedIR

set_option autoImplicit false

open Logged Loading Forest Record

/-! ## Labels -/

/-- In a labelled module, what is referred to has its label if it is declared. -/
theorem Module.labels_labelled (m : Module) (inside : Option Function) :
    Load.Labels (m.declares inside)
      (m.labelled.labelOf (inside.map Function.labelled)) := by
  intro target
  have hmap {α : Type} {declared : α → Declaration} {relabel : α → α} (x : Option α)
      (h : ∀ d, (declared (relabel d)).label = some target.label) :
      ((x.map relabel).map declared).bind Declaration.label =
        if (x.map declared).isSome then some target.label else none := by
    cases x with
    | none => rfl
    | some d => exact h d
  cases target with
  | global id | function id =>
    simp only [labelOf, target?, labelled, declares, Arena.get?_mapIdx]
    exact hmap _ fun _ => rfl
  | parameter id | localVar id =>
    cases inside with
    | none => rfl
    | some f =>
      simp only [labelOf, target?, Function.labelled, declares, Option.map_some, Option.bind_some,
        Arena.get?_mapIdx]
      exact hmap _ fun _ => rfl

/-! ## Declarations read so far -/

namespace Load

/-- The declarations before a position have been read, each as it is read back, and the names in
scope know what can be seen there. -/
structure ReadUpTo {cls : DeclClass} {α : Type} (back : α → α) (items : Arena cls α)
    (seen : Nat → Horizon) (i : Nat) (known : Arena cls α × Scope) : Prop where
  items : known.1.toList = (items.toList.take i).map back
  scope : known.2.Knows (seen i)

section

variable {cls : DeclClass} {α : Type} {back : α → α} {items : Arena cls α}
  {seen : Nat → Horizon}

theorem ReadUpTo.start {scope : Scope} (h : scope.Knows (seen 0)) :
    ReadUpTo back items seen 0 ({}, scope) := ⟨rfl, h⟩

theorem ReadUpTo.nextId_eq {i : Nat} {known : Arena cls α × Scope}
    (h : ReadUpTo back items seen i known) {x : α} (hx : items.toList[i]? = some x) :
    known.1.nextId = .ofNat i := by
  have hlength := congrArg List.length h.items
  have hi := (List.getElem?_eq_some_iff.1 hx).1
  rw [List.length_map, List.length_take, Nat.min_eq_left (Nat.le_of_lt hi)] at hlength
  exact congrArg Id.ofNat hlength

theorem ReadUpTo.push {i : Nat} {known : Arena cls α × Scope}
    (h : ReadUpTo back items seen i known) {x : α} (hx : items.toList[i]? = some x)
    {scope : Scope} (hscope : scope.Knows (seen (i + 1))) :
    ReadUpTo back items seen (i + 1) (known.1.push (back x), scope) := by
  refine ⟨?_, hscope⟩
  have hpush : (known.1.push (back x)).toList = known.1.toList ++ [back x] :=
    Array.toList_push
  rw [hpush, h.items, List.take_add_one, hx, List.map_append]
  rfl

theorem ReadUpTo.eq_map {known : Arena cls α × Scope}
    (h : ReadUpTo back items seen items.toList.length known) : known.1 = items.map back := by
  have hitems := h.items
  rw [List.take_length] at hitems
  obtain ⟨⟨read⟩, scope⟩ := known
  rw [Arena.map, Arena.mk.injEq]
  exact Array.toList_inj.1 (hitems.trans Array.toList_map.symm)

/-- Labelled records are read one after another, each under its condition, if this is so where
those before it are known. -/
theorem yields_declarations (p : α → Prop) (seen : Nat → Horizon) {record : α → Forest}
    (hrecord : ∀ x ∈ items.toList, record x ≠ nil)
    {step : Arena cls α × Scope → String → Loading (Arena cls α × Scope)}
    (hstep : ∀ (i : Nat) (x : α) (known : Arena cls α × Scope), items.items[i]? = some x →
      (numbered (labelKey cls) (items.toList.map record)).child (labelKey cls i) =
        below (record x) → known.1.nextId = .ofNat i → known.2.Knows (seen i) →
      ∃ scope : Scope, YieldsIf (p x) (step known (labelKey cls i))
          (known.1.push (back x), scope) ∧ scope.Knows (seen (i + 1)))
    {scope : Scope} (hscope : scope.Knows (seen 0)) :
    ∃ scope' : Scope, YieldsIf (∀ (i : Nat) (x : α), items.items[i]? = some x → p x)
        ((numbered (labelKey cls) (items.toList.map record)).keys.foldlM step ({}, scope))
        (items.map back, scope') ∧ scope'.Knows (seen items.size) := by
  have hnext : ∀ (i : Nat) (x : α) (known : Arena cls α × Scope), items.toList[i]? = some x →
      (numbered (labelKey cls) (items.toList.map record)).child (labelKey cls i) =
        below (record x) → ReadUpTo back items seen i known →
      ∃ known', YieldsIf (p x) (step known (labelKey cls i)) known' ∧
        ReadUpTo back items seen (i + 1) known' := by
    intro i x known hx hchild hknown
    have hitem : items.items[i]? = some x := by rwa [← Array.getElem?_toList]
    obtain ⟨next, hyields, hnext⟩ := hstep i x known hitem hchild (hknown.nextId_eq hx) hknown.scope
    exact ⟨_, hyields, hknown.push hx hnext⟩
  obtain ⟨⟨read, last⟩, hread, hknown⟩ :=
    yields_foldlM (labelKey_injective cls) hrecord p _ hnext (.start hscope)
  have hitems := hknown.eq_map
  dsimp only at hitems
  rw [hitems] at hread
  refine ⟨last, hread.congr ?_, hknown.scope⟩
  simp only [Arena.toList, Array.getElem?_toList]

end

/-! ## Variables and parameters -/

theorem yields_var {kept : Ref → Bool} {labelOf : Ref → Option Label} {scopes : Scopes}
    {h : Horizon} (hlabels : Labels kept labelOf) (hknows : scopes.Knows h) {v : Variable}
    (hv : ∀ x ∈ Expr.slotParts v.init, Standing kept h x) (path : Path) :
    YieldsIf (Expr.SlotReadable kept v.init) (var scopes path (v.record labelOf))
      (v.pruned kept).unlabelled := by
  rw [Variable.record_eq]
  refine .after (quiet_string (s := v.name) (by simp [child_ofFields, List.lookup])) ?_
  refine .after (quiet_string (s := v.type.name) (by simp [child_ofFields, List.lookup])) ?_
  refine (yields_slot hlabels hknows hv ?_).then_quiet fun _ => .pure _
  simp [child_ofFields, List.lookup]

theorem quiet_typeName {path : Path} {types : Forest} {key : String} {t : TypeName}
    (hchild : types.child key = below (.string "name" t.name)) :
    Quiet (typeName path types key) t.unlabelled := by
  rw [typeName, hchild]
  exact (quiet_string (s := t.name) rfl).bind (.pure _)

theorem quiet_types (path : Path) (a : Arena .type TypeName) :
    let records := numbered (labelKey .type) (a.toList.map fun t => .string "name" t.name)
    Quiet (records.keys.mapM (typeName path records)) (a.toList.map TypeName.unlabelled) := by
  have hne : ∀ t ∈ a.toList, Forest.string "name" t.name ≠ nil := fun _ _ => nofun
  exact quiet_mapM (labelKey_injective .type) hne fun _ _ _ hchild => quiet_typeName hchild

theorem yields_parameter {path : Path} {records : Forest} {i : Nat} {p : Parameter}
    {known : Arena .parameter Parameter × Scope}
    (hchild : records.child (labelKey .parameter i) = below p.record)
    (hnext : known.1.nextId = .ofNat i) (hknows : known.2.Knows { parameters := i }) :
    ∃ scope : Scope, YieldsIf True (parameter path records known (labelKey .parameter i))
        (known.1.push p.unlabelled, scope) ∧ scope.Knows { parameters := i + 1 } := by
  refine ⟨_, ?_, hknows.bind (Horizon.next_parameter _)⟩
  rw [parameter, hchild, Parameter.record_eq, hnext]
  refine .after (quiet_string (s := p.name) (by simp [below, child_ofFields, List.lookup])) ?_
  refine .after (quiet_string (s := p.type.name) (by simp [below, child_ofFields, List.lookup])) ?_
  exact .of_quiet trivial (.pure _)

theorem quiet_parameters (path : Path) (a : Arena .parameter Parameter) :
    let records := numbered (labelKey .parameter) (a.toList.map (·.record))
    ∃ scope : Scope, Quiet (records.keys.foldlM (parameter path records) ({}, {}))
        (a.map Parameter.unlabelled, scope) ∧ scope.Knows { parameters := a.size } := by
  intro records
  have hlist : ∃ scope : Scope,
      YieldsIf (∀ (i : Nat) (p : Parameter), a.items[i]? = some p → True)
        (records.keys.foldlM (parameter path records) ({}, {}))
        (a.map Parameter.unlabelled, scope) ∧ scope.Knows { parameters := a.size } :=
    yields_declarations _ (fun n => { parameters := n }) (fun p _ => p.record_ne_nil)
      (fun _ _ _ _ hchild hnext hknows => yields_parameter hchild hnext hknows) Scope.knows_empty
  obtain ⟨scope, hyields, hknows⟩ := hlist
  exact ⟨scope, hyields.quiet fun _ _ _ => trivial, hknows⟩

theorem yields_localVar {kept : Ref → Bool} {labelOf : Ref → Option Label} {globals : Scope}
    {g f p i : Nat} {path : Path} {records : Forest} {v : Variable}
    {known : Arena .localVar Variable × Scope} (hlabels : Labels kept labelOf)
    (hglobals : globals.Knows { globals := g, functions := f })
    (hv : ∀ x ∈ Expr.slotParts v.init, Standing kept ⟨g, f, p, i⟩ x)
    (hchild : records.child (labelKey .localVar i) = below (v.record labelOf))
    (hnext : known.1.nextId = .ofNat i) (hknows : known.2.Knows { parameters := p, locals := i }) :
    ∃ scope : Scope, YieldsIf (Expr.SlotReadable kept v.init)
        (localVar globals path records known (labelKey .localVar i))
        (known.1.push (v.pruned kept).unlabelled, scope) ∧
      scope.Knows { parameters := p, locals := i + 1 } := by
  refine ⟨_, ?_, hknows.bind (Horizon.next_local _)⟩
  rw [localVar, hchild, hnext]
  exact (yields_var hlabels ⟨hglobals, hknows⟩ hv _).then_quiet fun _ => .pure _

theorem yields_global {kept : Ref → Bool} {labelOf : Ref → Option Label} {path : Path}
    {records : Forest} {i : Nat} {v : Variable} {known : Arena .global Variable × Scope}
    (hlabels : Labels kept labelOf)
    (hv : ∀ x ∈ Expr.slotParts v.init, Standing kept { globals := i } x)
    (hchild : records.child (labelKey .global i) = below (v.record labelOf))
    (hnext : known.1.nextId = .ofNat i) (hknows : known.2.Knows { globals := i }) :
    ∃ scope : Scope, YieldsIf (Expr.SlotReadable kept v.init)
        (global path records known (labelKey .global i))
        (known.1.push (v.pruned kept).unlabelled, scope) ∧ scope.Knows { globals := i + 1 } := by
  refine ⟨_, ?_, hknows.bind (Horizon.next_global _)⟩
  rw [global, hchild, hnext]
  exact (yields_var hlabels ⟨hknows, Scope.knows_empty⟩ hv _).then_quiet fun _ => .pure _

/-! ## Functions -/

theorem child_function (name returns isVariadic isInline parameters locals body : Entry) :
    let fields := ofFields [("name", name), ("return-type", returns), ("variadic", isVariadic),
      ("inline", isInline), ("params", parameters), ("locals", locals), ("body", body)]
    fields.child "name" = name ∧ fields.child "return-type" = returns ∧
      fields.child "variadic" = isVariadic ∧ fields.child "inline" = isInline ∧
      fields.child "params" = parameters ∧ fields.child "locals" = locals ∧
      fields.child "body" = body := by
  simp [child_ofFields, List.lookup]

section

variable {m : Module}
  (hm : ∀ site e, m.Occurs site e → Standing (m.declares site.inside) site.horizon e)
include hm

theorem yields_locals {k : Nat} {f : Function} (hf : m.functions.items[k]? = some f)
    {globals scope : Scope}
    (hglobals : globals.Knows { globals := m.globals.size, functions := k + 1 })
    (hscope : scope.Knows { parameters := f.parameters.size }) (path : Path) :
    let records := numbered (labelKey .localVar)
      (f.locals.toList.map (·.record (m.labelled.labelOf (some f.labelled))))
    ∃ scope' : Scope,
      YieldsIf (∀ (j : Nat) (v : Variable), f.locals.items[j]? = some v →
          Expr.SlotReadable (m.declares (some f)) v.init)
        (records.keys.foldlM (localVar globals path records) ({}, scope))
        (f.locals.map fun v => (v.pruned (m.declares (some f))).unlabelled, scope') ∧
      scope'.Knows { parameters := f.parameters.size, locals := f.locals.size } :=
  yields_declarations _ (fun n => { parameters := f.parameters.size, locals := n })
    (fun v _ => v.record_ne_nil _) (fun _ _ _ hv hchild hnext hknows =>
      yields_localVar (m.labels_labelled (some f)) hglobals
        (fun x hx => hm _ x (.localVar hf hv hx)) hchild hnext hknows) hscope

theorem yields_function {k : Nat} {f : Function} (hf : m.functions.items[k]? = some f)
    {globals : Scope}
    (hglobals : globals.Knows { globals := m.globals.size, functions := k + 1 }) (path : Path) :
    YieldsIf (f.Readable m) (function globals path (f.labelled.record m.labelled))
      (f.pruned m).unlabelled := by
  obtain ⟨hname, hreturns, hvariadic, hinline, hparameters, hlocals, hbody⟩ := child_function
    (text f.name) (text f.returns.name) (flagEntry f.isVariadic) (flagEntry f.isInline)
    (below (numbered (labelKey .parameter) (f.parameters.toList.map (·.record))))
    (below (numbered (labelKey .localVar)
      (f.locals.toList.map (·.record (m.labelled.labelOf (some f.labelled))))))
    (blockEntry f.body (Stmt.listRecord (m.labelled.labelOf (some f.labelled)) 0 f.body))
  obtain ⟨first, hfirst, hfirstKnows⟩ := quiet_parameters (path ++ ["params"]) f.parameters
  obtain ⟨last, hlast, hlastKnows⟩ := yields_locals hm hf hglobals hfirstKnows (path ++ ["locals"])
  have hlabels := m.labels_labelled (some f)
  have hknows : Scopes.Knows ⟨globals, last⟩
      ⟨m.globals.size, k + 1, f.parameters.size, f.locals.size⟩ := ⟨hglobals, hlastKnows⟩
  have hstanding : ∀ s ∈ f.body, ∀ x ∈ s.parts, Standing (m.declares (some f))
      ⟨m.globals.size, k + 1, f.parameters.size, f.locals.size⟩ x :=
    Stmt.forall_listParts.1 fun x hx => hm _ x (.body hf hx)
  have hlist := yields_stmts hlabels (yields_each hlabels hknows hstanding) (path ++ ["body"])
  have hreadable : (∀ (j : Nat) (v : Variable), f.locals.items[j]? = some v →
      Expr.SlotReadable (m.declares (some f)) v.init) ∧
      Stmt.ListReadable (m.declares (some f)) f.body ↔ f.Readable m :=
    ⟨fun h => ⟨h.1, h.2⟩, fun h => ⟨h.locals, h.body⟩⟩
  rw [function, Function.record_labelled]
  refine .after (quiet_string hname) ?_
  refine .after (quiet_string hreturns) ?_
  refine .after (.note rfl) ?_
  refine .after (quiet_flag hvariadic) ?_
  refine .after (quiet_flag hinline) ?_
  rw [hparameters, hlocals, hbody, Function.pruned, Function.unlabelled, Arena.map_map]
  refine .after hfirst ?_
  refine (hlast.bind fun _ => ?_).congr hreadable
  refine .after (.note rfl) ?_
  exact hlist.then_quiet fun _ => .pure _

theorem yields_functions {scope : Scope} (hscope : scope.Knows { globals := m.globals.size })
    (path : Path) :
    let records := numbered (labelKey .function)
      (m.functions.toList.map (·.labelled.record m.labelled))
    ∃ scope' : Scope,
      YieldsIf (∀ (k : Nat) (f : Function), m.functions.items[k]? = some f → f.Readable m)
        (records.keys.foldlM (functionAt path records) ({}, scope))
        (m.functions.map fun f => (f.pruned m).unlabelled, scope') ∧
      scope'.Knows { globals := m.globals.size, functions := m.functions.size } := by
  refine yields_declarations _ (fun n => { globals := m.globals.size, functions := n })
    (fun f _ => f.record_labelled_ne_nil _) (fun k f known hf hchild hnext hknows => ?_) hscope
  have hscope := hknows.bind (Horizon.next_function _)
  refine ⟨_, ?_, hscope⟩
  rw [functionAt, hchild, hnext]
  exact (yields_function hm hf hscope _).then_quiet fun _ => .pure _

theorem yields_globals (path : Path) :
    let records := numbered (labelKey .global)
      (m.globals.toList.map (·.record (m.labelled.labelOf none)))
    ∃ scope : Scope,
      YieldsIf (∀ (i : Nat) (v : Variable), m.globals.items[i]? = some v →
          Expr.SlotReadable (m.declares none) v.init)
        (records.keys.foldlM (global path records) ({}, {}))
        (m.globals.map fun v => (v.pruned (m.declares none)).unlabelled, scope) ∧
      scope.Knows { globals := m.globals.size } :=
  yields_declarations _ (fun n => { globals := n }) (fun v _ => v.record_ne_nil _)
    (fun _ _ _ hv hchild hnext hknows =>
      yields_global (m.labels_labelled none) (fun x hx => hm _ x (.global hv hx)) hchild hnext
        hknows) Scope.knows_empty

end

theorem child_module (name types globals functions : Entry) :
    let fields := ofFields [("name", name), ("typedefs", types), ("globals", globals),
      ("funcs", functions)]
    fields.child "name" = name ∧ fields.child "typedefs" = types ∧
      fields.child "globals" = globals ∧ fields.child "funcs" = functions := by
  simp [child_ofFields, List.lookup]

theorem quiet_noteVersion {t : Forest} (h : t.value? versionPath = some (.string version)) :
    Quiet (noteVersion t) () := by
  rw [noteVersion, h]
  exact .pure ()

end Load

/-! ## Modules -/

namespace Module

/-- A saved module with references that are lost or sound is loaded if it is readable, whatever was
in the forest before. What comes back is without its labels and its lost references. -/
theorem yields_load_save {m : Module}
    (hm : ∀ site e, m.Occurs site e → Load.Standing (m.declares site.inside) site.horizon e)
    (t : Forest) : Load.YieldsIf m.Readable (load (m.save t)) m.pruned.unlabelled := by
  obtain ⟨scope, hglobals, hscope⟩ := Load.yields_globals hm [moduleKey, "globals"]
  obtain ⟨last, hfunctions, -⟩ := Load.yields_functions hm hscope [moduleKey, "funcs"]
  obtain ⟨hname, htypes, hglobalsChild, hfunctionsChild⟩ := Load.child_module (text m.name)
    (below (numbered (labelKey .type) (m.types.toList.map fun t => .string "name" t.name)))
    (below (numbered (labelKey .global)
      (m.globals.toList.map (·.record (m.labelled.labelOf none)))))
    (below (numbered (labelKey .function)
      (m.functions.toList.map (·.labelled.record m.labelled))))
  have hread : (⟨(m.types.toList.map TypeName.unlabelled).toArray⟩ : Arena .type TypeName) =
      m.types.map TypeName.unlabelled := by
    rw [Arena.toList, ← Array.toList_map, Array.toArray_toList]
    rfl
  have hreadable : (∀ (i : Nat) (v : Variable), m.globals.items[i]? = some v →
      Expr.SlotReadable (m.declares none) v.init) ∧
      (∀ (k : Nat) (f : Function), m.functions.items[k]? = some f → f.Readable m) ↔ m.Readable :=
    ⟨fun h => ⟨h.1, h.2⟩, fun h => ⟨h.globals, h.functions⟩⟩
  rw [load, m.child_save t, record_labelled]
  refine .after (Load.quiet_noteVersion (m.value?_save t)) ?_
  rw [Load.module]
  dsimp only
  rw [htypes, hglobalsChild, hfunctionsChild, pruned, unlabelled, Arena.map_map, Arena.map_map]
  refine .after (Load.quiet_string hname) ?_
  refine .after (Load.quiet_types _ m.types) ?_
  refine (hglobals.bind fun _ => ?_).congr hreadable
  refine hfunctions.then_quiet fun _ => Quiet.bind (.note rfl) ?_
  rw [hread]
  exact .pure _

/-- A saved module with sound expressions is loaded without its labels and without a warning,
whatever was in the forest before. -/
theorem quiet_load_save {m : Module} (hm : ∀ site e, m.Occurs site e → e.Sound site.horizon)
    (t : Forest) : Quiet (load (m.save t)) m.unlabelled := by
  obtain ⟨hpruned, hreadable⟩ := pruned_of_declared fun site target hoccurs =>
    isSome_target? hoccurs.fits (hm site _ hoccurs)
  have hyields := yields_load_save (fun site e hoccurs => .inr (hm site e hoccurs)) t
  have hread := hyields.quiet hreadable
  rwa [hpruned] at hread

theorem WellFormed.sound {m : Module} (h : m.WellFormed) (site : Site) (e : Expr)
    (hoccurs : m.Occurs site e) : e.Sound site.horizon := by
  cases e with
  | ref target => exact h.visible site target hoccurs
  | unary op operand => exact h.complete site op operand hoccurs
  | _ => exact trivial

/-- A module gives back an equal module after it was saved, into whatever forest, exactly if it is
well-formed. -/
theorem load_save_iff (m : Module) (t : Forest) :
    (∃ m', (load (m.save t)).result = .ok m' ∧ (m' == m) = true) ↔ m.WellFormed := by
  constructor
  · rintro ⟨m', hread, hequal⟩
    have hsound := sound_of_load hread
    exact wellFormed_of_beq hequal (fun _ _ hoccurs => hsound.of_occurs hoccurs)
      fun _ _ _ hoccurs => hsound.of_occurs hoccurs
  · intro h
    exact ⟨m.unlabelled, (quiet_load_save h.sound t).1, unlabelled_beq h.comparable⟩

end Module

end KeyedIR
