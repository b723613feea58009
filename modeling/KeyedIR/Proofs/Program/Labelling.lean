import KeyedIR.Program.Labelling
import KeyedIR.Proofs.Program.WellFormed
/-! # Labels tell declarations apart

Labelling numbers each list of declarations under the letter of its class. So the labels of one
scope, which are those of the whole module or those of one function, show which list owns a
declaration and have pairwise different texts (`Module.tellsApart_labelled`). Apart from the labels
of the declarations themselves nothing changes (`Module.bare_labelled`).
-/

namespace KeyedIR

set_option autoImplicit false

/-! ## Labels with the classes of their lists -/

/-- The labels of the declarations that an arena owns, each with the class of the arena. -/
def Arena.owned {cls : DeclClass} {α : Type} (label : α → Option Label) (a : Arena cls α) :
    List (DeclClass × Option Label) :=
  a.toList.map fun x => (cls, label x)

/-- The labels of types, globals and functions. -/
def Module.owned (m : Module) : List (DeclClass × Option Label) :=
  m.types.owned (·.label) ++ m.globals.owned (·.label) ++ m.functions.owned (·.label)

/-- The labels of parameters and locals. -/
def Function.owned (f : Function) : List (DeclClass × Option Label) :=
  f.parameters.owned (·.label) ++ f.locals.owned (·.label)

/-- Every declaration has a label, which shows by its first letter which list owns it, and no two of
the labels have the same text. -/
structure TellsApart (owned : List (DeclClass × Option Label)) : Prop where
  shown : ∀ d ∈ owned, ∃ l, d.2 = some l ∧
    l.text.toList.head?.bind DeclClass.ofLetter? = some d.1
  distinct : (owned.map fun d => d.2.map Label.text).Nodup

theorem Label.ofLetter?_head_text (l : Label) :
    l.text.toList.head?.bind DeclClass.ofLetter? = some l.cls := by
  rw [Label.text, String.toList_ofList]
  exact DeclClass.ofLetter?_eq_some_iff.2 rfl

/-! ## Numbered lists -/

/-- The labels of as many declarations of one class, by their positions. -/
def DeclClass.numbers (cls : DeclClass) (n : Nat) : List (DeclClass × Option Label) :=
  (List.range n).map fun i => (cls, some ⟨cls, i⟩)

theorem Arena.owned_mapIdx {cls : DeclClass} {α β : Type} {label : β → Option Label}
    {f : Nat → α → β} (hlabel : ∀ i x, label (f i x) = some ⟨cls, i⟩) (a : Arena cls α) :
    (a.mapIdx f).owned label = cls.numbers a.size := by
  have hpositions : a.toList.zipIdx.map Prod.snd = List.range a.size := by
    rw [List.zipIdx_map_snd, List.range_eq_range']
    rfl
  have hitems : (a.mapIdx f).toList = a.toList.zipIdx.map fun x => f x.2 x.1 :=
    (toList_mapIdx f a).trans List.mapIdx_eq_zipIdx_map
  rw [owned, hitems, DeclClass.numbers, ← hpositions, List.map_map, List.map_map]
  exact List.map_congr_left fun x _ => congrArg (Prod.mk cls) (hlabel x.2 x.1)

theorem DeclClass.mem_numbers {cls : DeclClass} {n : Nat} {d : DeclClass × Option Label} :
    d ∈ cls.numbers n ↔ ∃ i < n, d = (cls, some ⟨cls, i⟩) := by
  simp only [numbers, List.mem_map, List.mem_range, eq_comm]

theorem DeclClass.nodup_numbers (cls : DeclClass) (n : Nat) : (cls.numbers n).Nodup := by
  refine List.Pairwise.map _ (fun i j hne heq => hne ?_) List.nodup_range
  exact congrArg Label.ordinal (Option.some.inj (congrArg Prod.snd heq))

/-- The labels of some lists of declarations, of which each has a class and a length. -/
def numberedLabels (lists : List (DeclClass × Nat)) : List (DeclClass × Option Label) :=
  lists.flatMap fun s => s.1.numbers s.2

theorem exists_label_of_mem_numberedLabels {lists : List (DeclClass × Nat)}
    {d : DeclClass × Option Label} (h : d ∈ numberedLabels lists) :
    ∃ l, d = (l.cls, some l) := by
  obtain ⟨s, -, hs⟩ := List.mem_flatMap.1 h
  obtain ⟨i, -, rfl⟩ := DeclClass.mem_numbers.1 hs
  exact ⟨⟨s.1, i⟩, rfl⟩

theorem nodup_numberedLabels {lists : List (DeclClass × Nat)}
    (hclasses : (lists.map Prod.fst).Nodup) : (numberedLabels lists).Nodup := by
  refine List.pairwise_flatMap.2 ⟨fun s _ => s.1.nodup_numbers s.2, ?_⟩
  refine (List.pairwise_map.1 hclasses).imp ?_
  intro s s' hne d hd d' hd' heq
  obtain ⟨i, -, rfl⟩ := DeclClass.mem_numbers.1 hd
  obtain ⟨j, -, rfl⟩ := DeclClass.mem_numbers.1 hd'
  exact hne (Prod.mk.inj heq).1

/-- Numbered lists of different classes have labels that tell declarations apart. -/
theorem tellsApart_numberedLabels {lists : List (DeclClass × Nat)}
    (hclasses : (lists.map Prod.fst).Nodup) : TellsApart (numberedLabels lists) := by
  constructor
  case shown =>
    intro d hd
    obtain ⟨l, rfl⟩ := exists_label_of_mem_numberedLabels hd
    exact ⟨l, rfl, l.ofLetter?_head_text⟩
  case distinct =>
    refine List.pairwise_map.2 ((nodup_numberedLabels hclasses).imp_of_mem ?_)
    intro d d' hd hd' hne hsame
    obtain ⟨l, rfl⟩ := exists_label_of_mem_numberedLabels hd
    obtain ⟨l', rfl⟩ := exists_label_of_mem_numberedLabels hd'
    have hlabel : l = l' := Label.text_injective (Option.some.inj hsame)
    exact hne (by rw [hlabel])

/-! ## Labelled modules -/

theorem Module.owned_labelled (m : Module) : m.labelled.owned = numberedLabels
    [(.type, m.types.size), (.global, m.globals.size), (.function, m.functions.size)] := by
  have htypes : m.labelled.types.owned (·.label) = DeclClass.numbers .type m.types.size :=
    Arena.owned_mapIdx (by intros; rfl) m.types
  have hglobals : m.labelled.globals.owned (·.label) = DeclClass.numbers .global m.globals.size :=
    Arena.owned_mapIdx (by intros; rfl) m.globals
  have hfunctions : m.labelled.functions.owned (·.label) =
      DeclClass.numbers .function m.functions.size :=
    Arena.owned_mapIdx (by intros; rfl) m.functions
  rw [owned, htypes, hglobals, hfunctions]
  simp [numberedLabels]

theorem Function.owned_labelled (f : Function) : f.labelled.owned = numberedLabels
    [(.parameter, f.parameters.size), (.localVar, f.locals.size)] := by
  have hparameters : f.labelled.parameters.owned (·.label) =
      DeclClass.numbers .parameter f.parameters.size :=
    Arena.owned_mapIdx (by intros; rfl) f.parameters
  have hlocals : f.labelled.locals.owned (·.label) = DeclClass.numbers .localVar f.locals.size :=
    Arena.owned_mapIdx (by intros; rfl) f.locals
  rw [owned, hparameters, hlocals]
  simp [numberedLabels]

theorem Module.tellsApart_labelled (m : Module) : TellsApart m.labelled.owned := by
  have hclasses : [DeclClass.type, .global, .function].Nodup := by decide
  rw [owned_labelled]
  exact tellsApart_numberedLabels hclasses

theorem Function.tellsApart_labelled (f : Function) : TellsApart f.labelled.owned := by
  have hclasses : [DeclClass.parameter, .localVar].Nodup := by decide
  rw [owned_labelled]
  exact tellsApart_numberedLabels hclasses

/-! ## What labelling leaves alone -/

/-- The function without the labels of its own and of its declarations. The types that it mentions
keep theirs. -/
def Function.bare (f : Function) : Function :=
  { f with
    parameters := f.parameters.map fun p => { p with label := none }
    locals := f.locals.map fun v => { v with label := none }
    label := none }

/-- The module without the labels of its declarations. The types that they mention keep theirs. -/
def Module.bare (m : Module) : Module :=
  { m with
    types := m.types.map fun t => { t with label := none }
    globals := m.globals.map fun v => { v with label := none }
    functions := m.functions.map Function.bare }

theorem Arena.map_mapIdx_of {cls : DeclClass} {α β : Type} {f : Nat → α → α} {g : α → β}
    (h : ∀ i x, g (f i x) = g x) (a : Arena cls α) : (a.mapIdx f).map g = a.map g := by
  refine congrArg Arena.mk (Array.ext_getElem? fun i => ?_)
  rw [mapIdx, Array.getElem?_map, Array.getElem?_mapIdx, Array.getElem?_map, Option.map_map]
  exact congrArg (Option.map · a.items[i]?) (funext (h i))

theorem Function.bare_labelled (f : Function) : f.labelled.bare = f.bare := by
  rw [bare, labelled, Arena.map_mapIdx_of (by intros; rfl), Arena.map_mapIdx_of (by intros; rfl)]
  rfl

theorem Module.bare_labelled (m : Module) : m.labelled.bare = m.bare := by
  have hfunction (i : Nat) (f : Function) :
      Function.bare { f.labelled with label := some ⟨.function, i⟩ } = f.bare :=
    f.bare_labelled
  rw [bare, labelled, Arena.map_mapIdx_of (by intros; rfl), Arena.map_mapIdx_of (by intros; rfl),
    Arena.map_mapIdx_of hfunction]
  rfl

end KeyedIR
