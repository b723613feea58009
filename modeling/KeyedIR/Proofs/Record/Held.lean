import KeyedIR.Proofs.Record.Binding
import KeyedIR.Proofs.Record.Warned
/-! # What a loaded module holds

A module that was loaded has one declaration for each key, and what it has at the place of a
declaration was read there. Whatever loading came to at that place stands in the module, unless a
record on the way was read as nothing, of which there is a warning (`Load.keeps_of_load`).
-/

namespace KeyedIR

set_option autoImplicit false

open Logged Loading

/-- The first value of a local of the function, or its body. -/
def Function.fragment? (f : Function) : Option Nat → Option Fragment
  | some j => f.locals.items[j]?.map fun v => .slot v.init
  | none => some (.stmts f.body)

/-- What the module has at a place. -/
def Module.fragment? (m : Module) : Place → Option Fragment
  | .global i => m.globals.items[i]?.map fun v => .slot v.init
  | .localVar k j => m.functions.items[k]?.bind (·.fragment? (some j))
  | .body k => m.functions.items[k]?.bind (·.fragment? none)

theorem Module.fragment?_inFunction (m : Module) (k : Nat) (part : Option Nat) :
    m.fragment? (.inFunction k part) = m.functions.items[k]?.bind (·.fragment? part) := by
  cases part <;> rfl

namespace Load

/-- The module has a fragment where a task stands. The first task of a place stands for what the
module has there, and the parts of a task that are not left out stand, in their order, for what its
fragment consists of. -/
inductive Holds (t : Forest) (m : Module) (place : Place) : Task → Fragment → Prop
  | start {task : Task} {fragment : Fragment} (hstart : Starts t place task)
      (hplace : m.fragment? place = some fragment) : Holds t m place task fragment
  | part {task part : Task} {fragment found : Fragment} (h : Holds t m place task fragment)
      (hmade : fragment.IsMadeOf (task.parts.map Task.fragment?)) (hpart : part ∈ task.parts)
      (hfound : part.fragment? = some found) : Holds t m place part found

/-- The task is, or is below, a record that is read as nothing. -/
def LeftOut (t : Forest) (place : Place) (task : Task) : Prop :=
  ∃ record, VisitsAt t place record ∧ record.Dropped ∧ record.ComesTo task

/-! ## Declarations -/

/-- The computation starts with one task for each of some fragments, reads the task as that
fragment, and warns exactly if one of these readings does. -/
structure Covers {ι : Type} (starts : ι → Task → Prop) (fragment? : ι → Option Fragment)
    (warned : Prop) : Prop where
  read : ∀ i task, starts i task →
    ∃ fragment, fragment? i = some fragment ∧ task.read = .ok (some fragment)
  started : ∀ i fragment, fragment? i = some fragment → ∃ task, starts i task
  warns : warned ↔ ∃ i task, starts i task ∧ task.Warns

theorem Covers.single {task : Task} {fragment : Fragment}
    (hread : task.read = .ok (some fragment)) :
    Covers (fun (_ : Unit) start => start = task) (fun _ => some fragment) task.Warns where
  read := by
    rintro _ start rfl
    exact ⟨fragment, rfl, hread⟩
  started _ _ _ := ⟨task, rfl⟩
  warns := by simp

/-- Two computations one after another, with the fragments of both under new names. -/
theorem Covers.or {ι κ ν : Type} {starts : ι → Task → Prop} {fragment? : ι → Option Fragment}
    {starts' : κ → Task → Prop} {other? : κ → Option Fragment}
    {both : ν → Task → Prop} {named? : ν → Option Fragment} {warned warned' : Prop}
    (h : Covers starts fragment? warned) (h' : Covers starts' other? warned')
    (first : ι → ν) (second : κ → ν)
    (hstarts : ∀ n task, both n task ↔
      (∃ i, first i = n ∧ starts i task) ∨ ∃ k, second k = n ∧ starts' k task)
    (hfirst : ∀ i, named? (first i) = fragment? i)
    (hsecond : ∀ k, named? (second k) = other? k)
    (hall : ∀ n, (∃ i, first i = n) ∨ ∃ k, second k = n) :
    Covers both named? (warned ∨ warned') where
  read n task htask := by
    rcases (hstarts n task).1 htask with ⟨i, rfl, hstart⟩ | ⟨k, rfl, hstart⟩
    · rw [hfirst]
      exact h.read i task hstart
    · rw [hsecond]
      exact h'.read k task hstart
  started n fragment hfragment := by
    rcases hall n with ⟨i, rfl⟩ | ⟨k, rfl⟩
    · rw [hfirst] at hfragment
      obtain ⟨task, hstart⟩ := h.started i fragment hfragment
      exact ⟨task, (hstarts _ _).2 (.inl ⟨i, rfl, hstart⟩)⟩
    · rw [hsecond] at hfragment
      obtain ⟨task, hstart⟩ := h'.started k fragment hfragment
      exact ⟨task, (hstarts _ _).2 (.inr ⟨k, rfl, hstart⟩)⟩
  warns := by
    rw [h.warns, h'.warns]
    constructor
    · rintro (⟨i, task, hstart, hwarns⟩ | ⟨k, task, hstart, hwarns⟩)
      · exact ⟨_, task, (hstarts _ _).2 (.inl ⟨i, rfl, hstart⟩), hwarns⟩
      · exact ⟨_, task, (hstarts _ _).2 (.inr ⟨k, rfl, hstart⟩), hwarns⟩
    · rintro ⟨n, task, htask, hwarns⟩
      rcases (hstarts n task).1 htask with ⟨i, -, hstart⟩ | ⟨k, -, hstart⟩
      · exact .inl ⟨i, task, hstart, hwarns⟩
      · exact .inr ⟨k, task, hstart, hwarns⟩

theorem reports_var (scopes : Scopes) (path : Path) (children : Forest) :
    Reports False (var scopes path children) fun v warned =>
      Covers (fun (_ : Unit) task => task = .slot scopes path children "init")
        (fun _ => some (.slot v.init)) warned := by
  refine .field (logs_string _ _ _ _) fun name _ => .field (logs_string _ _ _ _) fun type _ => ?_
  refine .bind _ (fun _ _ => Iff.rfl) fun init hinit => .pure ?_
  rw [false_or]
  exact .single (Task.read_slot hinit)

/-- A fold in which each step adds a declaration. -/
theorem covers_foldlM {cls : DeclClass} {α ι : Type}
    {step : Arena cls α × Scope → String → Loading (Arena cls α × Scope)}
    {starts : Arena cls α × Scope → String → ι → Task → Prop} {fragment? : α → ι → Option Fragment}
    (hstep : ∀ known key, Reports False (step known key) fun next warned =>
      ∃ x, next.1 = known.1.push x ∧ Covers (starts known key) (fragment? x) warned)
    {keys : List String} {scope : Scope} {last : Arena cls α × Scope}
    (h : (keys.foldlM step ({}, scope)).result = .ok last) :
    last.1.size = keys.length ∧ Covers (fun (i : Nat × ι) task => ∃ key mid,
        keys[i.1]? = some key ∧ ((keys.take i.1).foldlM step ({}, scope)).result = .ok mid ∧
          starts mid key i.2 task)
      (fun i => last.1.items[i.1]?.bind (fragment? · i.2))
      (Tells Event.Skips (keys.foldlM step ({}, scope))) := by
  have heach : Each (fun i x => ∃ key mid, keys[i]? = some key ∧
      ((keys.take i).foldlM step ({}, scope)).result = .ok mid ∧
        Covers (starts mid key) (fragment? x) (Tells Event.Skips (step mid key)))
      keys.length last.1 := by
    refine foldlM_positions (fun i (known : Arena cls α × Scope) => Each _ i known.1) .start ?_ h
    intro i key mid next hkey hmid heach hnext
    obtain ⟨x, hpush, hcovers⟩ := hstep mid key next hnext
    rw [false_or] at hcovers
    rw [hpush]
    exact heach.push ⟨key, mid, hkey, hmid, hcovers⟩
  have hitem {i : Nat} {key : String} {mid : Arena cls α × Scope} (hkey : keys[i]? = some key)
      (hmid : ((keys.take i).foldlM step ({}, scope)).result = .ok mid) :
      ∃ x, last.1.items[i]? = some x ∧
        Covers (starts mid key) (fragment? x) (Tells Event.Skips (step mid key)) := by
    have hi : i < last.1.items.size := by
      rw [show last.1.items.size = keys.length from heach.size]
      exact (List.getElem?_eq_some_iff.1 hkey).1
    obtain ⟨key', mid', hkey', hmid', hcovers⟩ := heach.item i _ (Array.getElem?_eq_getElem hi)
    cases hkey.symm.trans hkey'
    cases hmid.symm.trans hmid'
    exact ⟨_, Array.getElem?_eq_getElem hi, hcovers⟩
  refine ⟨heach.size, ?_, ?_, ?_⟩
  · rintro ⟨i, part⟩ task ⟨key, mid, hkey, hmid, hstart⟩
    obtain ⟨x, hx, hcovers⟩ := hitem hkey hmid
    obtain ⟨fragment, hfragment, hread⟩ := hcovers.read part task hstart
    exact ⟨fragment, Option.bind_eq_some_iff.2 ⟨x, hx, hfragment⟩, hread⟩
  · rintro ⟨i, part⟩ fragment hfragment
    obtain ⟨x, hx, hfragment⟩ := Option.bind_eq_some_iff.1 hfragment
    obtain ⟨key, mid, hkey, hmid, hcovers⟩ := heach.item i x hx
    obtain ⟨task, hstart⟩ := hcovers.started part fragment hfragment
    exact ⟨task, key, mid, hkey, hmid, hstart⟩
  · rw [tells_foldlM h]
    constructor
    · rintro ⟨i, key, mid, hkey, hmid, htells⟩
      obtain ⟨x, -, hcovers⟩ := hitem hkey hmid
      obtain ⟨part, task, hstart, hwarns⟩ := hcovers.warns.1 htells
      exact ⟨(i, part), task, ⟨key, mid, hkey, hmid, hstart⟩, hwarns⟩
    · rintro ⟨⟨i, part⟩, task, ⟨key, mid, hkey, hmid, hstart⟩, hwarns⟩
      obtain ⟨x, -, hcovers⟩ := hitem hkey hmid
      exact ⟨i, key, mid, hkey, hmid, hcovers.warns.2 ⟨part, task, hstart, hwarns⟩⟩

theorem reports_localVar (globals : Scope) (path : Path) (records : Forest)
    (known : Arena .localVar Variable × Scope) (key : String) :
    Reports False (localVar globals path records known key) fun next warned =>
      ∃ v : Variable, next.1 = known.1.push v ∧
        Covers (fun (_ : Unit) task =>
            task = .slot ⟨globals, known.2⟩ (path ++ [key]) (records.child key).children "init")
          (fun _ => some (.slot v.init)) warned :=
  (reports_var _ _ _).then_pure fun v _ hv => ⟨v, rfl, hv⟩

theorem functionStarts_iff {globals : Scope} {path : Path} {children : Forest}
    {parameters : Arena .parameter Parameter × Scope} {locals : Arena .localVar Variable × Scope}
    (hparameters : (parametersOf path children).result = .ok parameters)
    (hlocals : (localsAt globals parameters.2 path children
      (children.child "locals").children.keys).result = .ok locals)
    (part : Option Nat) (task : Task) :
    FunctionStarts globals path children part task ↔
      (∃ j : Nat × Unit, some j.1 = part ∧ ∃ key known,
        (children.child "locals").children.keys[j.1]? = some key ∧
        (localsAt globals parameters.2 path children
          ((children.child "locals").children.keys.take j.1)).result = .ok known ∧
        task = .slot ⟨globals, known.2⟩ (path ++ ["locals"] ++ [key])
          ((children.child "locals").children.child key).children "init") ∨
      ∃ _ : Unit, none = part ∧
        task = .stmts ⟨globals, locals.2⟩ (path ++ ["body"]) (children.child "body") := by
  constructor
  · intro h
    cases h with
    | @localVar j _ _ _ hparameters' hkey hknown =>
      cases hparameters.symm.trans hparameters'
      exact .inl ⟨(j, ()), rfl, _, _, hkey, hknown, rfl⟩
    | body hparameters' hlocals' =>
      cases hparameters.symm.trans hparameters'
      cases hlocals.symm.trans hlocals'
      exact .inr ⟨(), rfl, rfl⟩
  · rintro (⟨j, rfl, key, known, hkey, hknown, rfl⟩ | ⟨-, rfl, rfl⟩)
    · exact .localVar hparameters hkey hknown
    · exact .body hparameters hlocals

theorem reports_function (globals : Scope) (path : Path) (children : Forest) :
    Reports False (function globals path children) fun f warned =>
      f.locals.size = (children.child "locals").children.keys.length ∧
        Covers (FunctionStarts globals path children) f.fragment? warned := by
  refine .field (logs_string _ _ _ _) fun name _ => .field (logs_string _ _ _ _) fun returns _ =>
    .field (.note (not_skips_of_level rfl)) fun _ _ =>
    .field (logs_flag _ _ _ _) fun isVariadic _ => .field (logs_flag _ _ _ _) fun isInline _ =>
    .field (.foldlM (logs_parameter _ _ _) _ _) fun parameters hparameters => ?_
  refine .bind _ (fun _ _ => Iff.rfl) fun locals hlocals => ?_
  refine .field (.note (not_skips_of_level rfl)) fun _ _ => ?_
  refine .bind _ (fun _ _ => Iff.rfl) fun body hbody => .pure ?_
  obtain ⟨hsize, hcovers⟩ := covers_foldlM
    (reports_localVar globals (path ++ ["locals"]) (children.child "locals").children) hlocals
  rw [false_or]
  refine ⟨hsize, hcovers.or (.single (Task.read_stmts hbody)) (fun j => some j.1) (fun _ => none)
    (functionStarts_iff hparameters hlocals) (fun _ => Option.map_eq_bind) (fun _ => rfl) ?_⟩
  rintro (_ | j)
  · exact .inr ⟨(), rfl⟩
  · exact .inl ⟨(j, ()), rfl⟩

theorem reports_global (path : Path) (records : Forest)
    (known : Arena .global Variable × Scope) (key : String) :
    Reports False (global path records known key) fun next warned =>
      ∃ v : Variable, next.1 = known.1.push v ∧
        Covers (fun (_ : Unit) task =>
            task = .slot ⟨known.2, {}⟩ (path ++ [key]) (records.child key).children "init")
          (fun _ => some (.slot v.init)) warned :=
  (reports_var _ _ _).then_pure fun v _ hv => ⟨v, rfl, hv⟩

theorem reports_functionAt (path : Path) (records : Forest)
    (known : Arena .function Function × Scope) (key : String) :
    Reports False (functionAt path records known key) fun next warned =>
      ∃ f : Function, next.1 = known.1.push f ∧
        Covers (FunctionStarts (known.2.bind key (.function known.1.nextId)) (path ++ [key])
          (records.child key).children) f.fragment? warned :=
  Reports.then_pure (reports_function _ _ _) fun f _ hf => ⟨f, rfl, hf.2⟩

theorem size_locals {t : Forest} {scope : Scope} {functions : Arena .function Function × Scope}
    (hfunctions : (functionsAt t scope t.functionKeys).result = .ok functions) :
    ∀ k f, functions.1.items[k]? = some f →
      f.locals.size = (t.ownedKeys k "locals").length := by
  refine (foldlM_positions (fun k (known : Arena .function Function × Scope) =>
    Each (fun k f => f.locals.size = (t.ownedKeys k "locals").length) k known.1) .start ?_
    hfunctions).item
  intro k key mid next hkey _ heach hnext
  obtain ⟨f, hf, hnext⟩ := bind_ok_iff.1 hnext
  cases hnext
  refine heach.push ?_
  rw [(reports_function _ _ _ f hf).1, Forest.ownedKeys, hkey]
  rfl

/-! ## Modules -/

theorem starts_iff {t : Forest} {globals : Arena .global Variable × Scope}
    (hglobals : (globalsAt t t.globalKeys).result = .ok globals) (place : Place) (task : Task) :
    Starts t place task ↔
      (∃ i : Nat × Unit, Place.global i.1 = place ∧ ∃ key known,
        t.globalKeys[i.1]? = some key ∧
        (globalsAt t (t.globalKeys.take i.1)).result = .ok known ∧
        task = .slot ⟨known.2, {}⟩ (globalsPath ++ [key])
          ((t.entry globalsPath).children.child key).children "init") ∨
      ∃ k : Nat × Option Nat, Place.inFunction k.1 k.2 = place ∧ ∃ key known,
        t.functionKeys[k.1]? = some key ∧
        (functionsAt t globals.2 (t.functionKeys.take k.1)).result = .ok known ∧
        FunctionStarts (known.2.bind key (.function known.1.nextId)) (functionsPath ++ [key])
          ((t.entry functionsPath).children.child key).children k.2 task := by
  constructor
  · intro h
    cases h with
    | @global i _ _ hkey hknown => exact .inl ⟨(i, ()), rfl, _, _, hkey, hknown, rfl⟩
    | @function k _ _ _ part _ hglobals' hkey hknown h =>
      cases hglobals.symm.trans hglobals'
      exact .inr ⟨(k, part), rfl, _, _, hkey, hknown, h⟩
  · rintro (⟨i, rfl, key, known, hkey, hknown, rfl⟩ | ⟨k, rfl, key, known, hkey, hknown, h⟩)
    · exact .global hkey hknown
    · exact .function hglobals hkey hknown h

theorem covers_starts {t : Forest} {globals : Arena .global Variable × Scope}
    {functions : Arena .function Function × Scope}
    (hglobals : (globalsAt t t.globalKeys).result = .ok globals)
    (hfunctions : (functionsAt t globals.2 t.functionKeys).result = .ok functions) {m : Module}
    (hm : m.globals = globals.1 ∧ m.functions = functions.1) :
    Covers (Starts t) m.fragment? (Tells Event.Skips (globalsAt t t.globalKeys) ∨
      Tells Event.Skips (functionsAt t globals.2 t.functionKeys)) := by
  obtain ⟨-, hfirst⟩ := covers_foldlM
    (reports_global globalsPath (t.entry globalsPath).children) hglobals
  obtain ⟨-, hsecond⟩ := covers_foldlM
    (reports_functionAt functionsPath (t.entry functionsPath).children) hfunctions
  rw [← hm.1] at hfirst
  rw [← hm.2] at hsecond
  refine hfirst.or hsecond (fun i => .global i.1) (fun k => .inFunction k.1 k.2)
    (starts_iff hglobals) (fun _ => Option.map_eq_bind) (fun _ => m.fragment?_inFunction _ _) ?_
  intro place
  cases place with
  | global i => exact .inl ⟨(i, ()), rfl⟩
  | localVar k j => exact .inr ⟨(k, some j), rfl⟩
  | body k => exact .inr ⟨(k, none), rfl⟩

theorem logs_noteVersion (t : Forest) : Logs (fun e => ¬e.Skips) (noteVersion t) := by
  unfold noteVersion
  split
  · split
    · exact .pure _
    · exact .note (not_skips_versionDiffers _)
  · exact .note not_skips_versionMissing

/-- The module has one declaration for each key. -/
structure Counted (t : Forest) (m : Module) : Prop where
  globals : m.globals.size = t.globalKeys.length
  functions : m.functions.size = t.functionKeys.length
  locals : ∀ (k : Nat) (f : Function), m.functions.items[k]? = some f →
    f.locals.size = (t.ownedKeys k "locals").length

theorem reports_load (t : Forest) : Reports False (Module.load t) fun m warned =>
    Counted t m ∧ Covers (Starts t) m.fragment? warned := by
  refine .field (logs_noteVersion t) fun _ _ => .field (logs_string _ _ _ _) fun name _ =>
    .field (.mapM (logs_typeName _ _ _) _) fun types _ => ?_
  refine .bind (fun _ => Tells Event.Skips (globalsAt t t.globalKeys)) (fun _ _ => Iff.rfl)
    fun globals hglobals => ?_
  refine .bind (fun _ => Tells Event.Skips (functionsAt t globals.2 t.functionKeys))
    (fun _ _ => Iff.rfl) fun functions hfunctions => ?_
  refine .field (.note (not_skips_of_level rfl)) fun _ _ => .pure ?_
  have hsizeGlobals := ((binds_global _ _).foldlM hglobals).1
  have hsizeFunctions := ((binds_functionAt _ _).foldlM hfunctions).1
  rw [false_or]
  exact ⟨⟨hsizeGlobals.trans (Nat.zero_add _), hsizeFunctions.trans (Nat.zero_add _),
    size_locals hfunctions⟩, covers_starts hglobals hfunctions ⟨rfl, rfl⟩⟩

section

variable {t : Forest} {m : Module} {place : Place} {task : Task} {fragment : Fragment}

theorem covers_load (h : (Module.load t).result = .ok m) :
    Covers (Starts t) m.fragment? (Tells Event.Skips (Module.load t)) := by
  have hcovers := (reports_load t m h).2
  rwa [false_or] at hcovers

/-- What the module has where a task stands is what the task was read as. -/
theorem Holds.read (hload : (Module.load t).result = .ok m) (h : Holds t m place task fragment) :
    task.read = .ok (some fragment) := by
  cases h with
  | start hstart hplace =>
    obtain ⟨fragment', hplace', hread⟩ := (covers_load hload).read place task hstart
    cases hplace.symm.trans hplace'
    exact hread
  | part _ _ _ hfound => exact Task.read_of_fragment? hfound

theorem Holds.visitsAt (h : Holds t m place task fragment) : VisitsAt t place task := by
  induction h with
  | start hstart _ => exact ⟨_, hstart, .refl⟩
  | part _ _ hpart _ ih => exact ih.part hpart

theorem VisitsAt.done (hload : (Module.load t).result = .ok m) (h : VisitsAt t place task) :
    task.Done := by
  obtain ⟨start, hstart, hcomes⟩ := h
  obtain ⟨fragment, -, hread⟩ := (covers_load hload).read place start hstart
  exact Task.Done.of_comesTo ⟨_, hread⟩ hcomes

/-- Whatever loading comes to at a place stands there in the module, unless it is left out with a
record. -/
theorem holds_or_leftOut (hload : (Module.load t).result = .ok m) (h : VisitsAt t place task) :
    (∃ fragment, Holds t m place task fragment) ∨ LeftOut t place task := by
  obtain ⟨start, hstart, hcomes⟩ := h
  induction hcomes with
  | refl =>
    obtain ⟨fragment, hplace, -⟩ := (covers_load hload).read place start hstart
    exact .inl ⟨fragment, .start hstart hplace⟩
  | @tail task part hcomes hpart ih =>
    have hvisits : VisitsAt t place part := ⟨start, hstart, hcomes.tail hpart⟩
    rcases ih with ⟨fragment, hholds⟩ | ⟨record, hrecord, hdropped, hbelow⟩
    · have hmade := (settled task _ (hholds.read hload)).made fragment rfl
      obtain ⟨x, hx⟩ := hvisits.done hload
      cases x with
      | none => exact .inr ⟨part, hvisits, hx, .refl⟩
      | some found => exact .inl ⟨found, hholds.part hmade hpart (Task.fragment?_of_read hx)⟩
    · exact .inr ⟨record, hrecord, hdropped, hbelow.tail hpart⟩

/-- What is left out with a record is warned of. -/
theorem warns_of_leftOut (hload : (Module.load t).result = .ok m) (h : LeftOut t place task) :
    ∃ e ∈ (Module.load t).events, e.Skips := by
  obtain ⟨record, hvisits, hdropped, -⟩ := h
  have hwarns : record.Warns := (settled record none hdropped).warns.2 (.inl rfl)
  obtain ⟨start, hstart, hcomes⟩ := hvisits
  obtain ⟨fragment, -, hread⟩ := (covers_load hload).read place start hstart
  exact (covers_load hload).warns.2 ⟨place, start, hstart, hwarns.of_comesTo ⟨_, hread⟩ hcomes⟩

end

/-- The module is what loading came to. It has one declaration for each key, and what it has, at a
place and below, is what the task that stands there was read as. What loading came to stands in the
module, unless it is left out with a record, of which there is a warning. -/
structure Keeps (t : Forest) (m : Module) : Prop extends Counted t m where
  started : ∀ place fragment, m.fragment? place = some fragment →
    ∃ task, Holds t m place task fragment
  read : ∀ place task fragment, Holds t m place task fragment →
    VisitsAt t place task ∧ task.read = .ok (some fragment) ∧
      fragment.IsMadeOf (task.parts.map Task.fragment?)
  holds : ∀ place task, VisitsAt t place task → (∃ fragment, Holds t m place task fragment) ∨
    LeftOut t place task ∧ ∃ e ∈ (Module.load t).events, e.Skips

theorem keeps_of_load {t : Forest} {m : Module} (hload : (Module.load t).result = .ok m) :
    Keeps t m where
  toCounted := (reports_load t m hload).1
  started place fragment hplace := by
    obtain ⟨task, hstart⟩ := (covers_load hload).started place fragment hplace
    exact ⟨task, .start hstart hplace⟩
  read place task fragment h := by
    have hread := h.read hload
    exact ⟨h.visitsAt, hread, (settled task _ hread).made fragment rfl⟩
  holds place task h :=
    (holds_or_leftOut hload h).imp_right fun hleft => ⟨hleft, warns_of_leftOut hload hleft⟩

end Load

end KeyedIR
