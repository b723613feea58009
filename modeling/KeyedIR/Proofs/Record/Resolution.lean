import KeyedIR.Proofs.Record.Held
import KeyedIR.Proofs.Record.Lookups
import KeyedIR.Proofs.Record.Sourced
import KeyedIR.Record.Save
/-! # Names are resolved by position

Every reference of a module that was loaded is what a name at its place stands for by its position,
and what each name stands for is found in the module where the name was read. A module cannot be
loaded if one of the names that are read stands for nothing, and loading ends in an unresolved name
only then (`Module.names_resolve_by_position`).
-/

namespace KeyedIR

set_option autoImplicit false

open Logged Loading

/-- Each reference of a module at a place is allowed at the path of its name, for some path where
the record of the place is stored. -/
def Module.RefsAt (allowed : Path → Ref → Prop) (m : Module) : Place → Prop
  | .global i => ∀ v, m.globals.items[i]? = some v → ∃ path, Expr.SlotRefsAt allowed v.init path
  | .localVar k j => ∀ f v, m.functions.items[k]? = some f → f.locals.items[j]? = some v →
    ∃ path, Expr.SlotRefsAt allowed v.init path
  | .body k => ∀ f, m.functions.items[k]? = some f → ∃ path, Stmt.ListRefsAt allowed f.body path

namespace Load

/-! ## Declarations -/

/-- The references in the first value of a variable are allowed where they stand. -/
abbrev VariableRefs (allowed : Path → Ref → Prop) (v : Variable) : Prop :=
  ∃ path, Expr.SlotRefsAt allowed v.init path

/-- The same for the parts of a function, with what is allowed in each of them. -/
structure FunctionRefs (allowed : Option Nat → Path → Ref → Prop) (f : Function) : Prop where
  locals : ∀ (j : Nat) (v : Variable), f.locals.items[j]? = some v →
    VariableRefs (allowed (some j)) v
  body : ∃ path, Stmt.ListRefsAt (allowed none) f.body path

section

variable {R : Reading → Prop}

theorem traced_of_var {scopes : Scopes} {path : Path} {children : Forest}
    {allowed : Path → Ref → Prop} (h : Admits R allowed (VarReads scopes path children)) :
    Traced R (VariableRefs allowed) (var scopes path children) := by
  refine .bind (traced_string ..) fun name hname _ => ?_
  refine .bind (traced_string ..) fun type htype _ => ?_
  refine .bind (traced_of_slot fun r hr => h r ⟨⟨name, hname⟩, ⟨type, htype⟩, hr⟩)
    fun init _ hinit => ?_
  exact .pure ⟨_, hinit⟩

theorem traced_typeName (path : Path) (types : Forest) (key : String) :
    Traced R (fun _ => True) (typeName path types key) :=
  .bind (traced_string ..) fun _ _ _ => .pure trivial

theorem traced_parameters (path : Path) (children : Forest) :
    Traced R (fun _ => True) (parametersOf path children) := by
  refine .foldlM (fun _ _ => True) (fun _ key known _ _ _ => ?_) trivial
  refine .bind (traced_string ..) fun name _ _ => ?_
  exact .bind (traced_string ..) fun type _ _ => .pure trivial

theorem traced_locals {globals scope : Scope} {path : Path} {children : Forest}
    {allowed : Nat → Path → Ref → Prop}
    (h : ∀ j key known, (children.child "locals").children.keys[j]? = some key →
      (localsAt globals scope path children
        ((children.child "locals").children.keys.take j)).result = .ok known →
      Admits R (allowed j) (VarReads ⟨globals, known.2⟩ (path ++ ["locals"] ++ [key])
        ((children.child "locals").children.child key).children)) :
    Traced R (fun known => Each (fun j => VariableRefs (allowed j))
        (children.child "locals").children.keys.length known.1)
      (localsAt globals scope path children (children.child "locals").children.keys) := by
  refine .foldlM (fun j (known : Arena .localVar Variable × Scope) =>
    Each (fun j => VariableRefs (allowed j)) j known.1)
    (fun j key known hkey hknown hv => ?_) .start
  refine .bind (traced_of_var (h j key known hkey hknown)) fun v _ hrefs => ?_
  exact .pure (hv.push hrefs)

theorem traced_of_function {globals : Scope} {path : Path} {children : Forest}
    {allowed : Option Nat → Path → Ref → Prop}
    (h : ∀ part, Admits R (allowed part) (FunctionReads globals path children part)) :
    Traced R (FunctionRefs allowed) (function globals path children) := by
  refine .bind (traced_string ..) fun name hname _ => ?_
  refine .bind (traced_string ..) fun returns hreturns _ => ?_
  refine .bind (traced_note _) fun _ _ _ => ?_
  refine .bind (traced_flag ..) fun isVariadic hvariadic _ => ?_
  refine .bind (traced_flag ..) fun isInline hinline _ => ?_
  have hhead : HeadRead path children :=
    ⟨⟨name, hname⟩, ⟨returns, hreturns⟩, ⟨isVariadic, hvariadic⟩, ⟨isInline, hinline⟩⟩
  refine .bind (traced_parameters path children) fun parameters hparameters _ => ?_
  refine .bind (traced_locals fun j key known hkey hknown r hr =>
    h (some j) r (.localVar hhead hparameters hkey hknown hr)) fun locals hlocals hrefs => ?_
  refine .bind (traced_note _) fun _ _ _ => ?_
  refine .bind (traced_of_stmts fun r hr => h none r (.body hhead hparameters hlocals hr))
    fun body _ hbody => ?_
  exact .pure ⟨hrefs.item, _, hbody⟩

/-! ## Modules -/

theorem traced_noteVersion (t : Forest) : Traced R (fun _ => True) (noteVersion t) := by
  unfold noteVersion
  split
  · split
    · exact .pure trivial
    · exact traced_note _
  · exact traced_note _

variable {t : Forest} {allowed : Place → Path → Ref → Prop}

theorem traced_globals (h : ∀ place, Admits R (allowed place) (Reads t place))
    (htypes : TypesRead t) :
    Traced R (fun known => Each (fun i => VariableRefs (allowed (.global i)))
      t.globalKeys.length known.1) (globalsAt t t.globalKeys) := by
  refine .foldlM (fun i (known : Arena .global Variable × Scope) =>
    Each (fun i => VariableRefs (allowed (.global i))) i known.1)
    (fun i key known hkey hknown hv => ?_) .start
  refine .bind (traced_of_var fun r hr => h _ r (.global htypes hkey hknown hr))
    fun v _ hrefs => ?_
  exact .pure (hv.push hrefs)

theorem traced_functions (h : ∀ place, Admits R (allowed place) (Reads t place))
    {globals : Arena .global Variable × Scope} (htypes : TypesRead t)
    (hglobals : (globalsAt t t.globalKeys).result = .ok globals) :
    Traced R (fun known => Each (fun k => FunctionRefs fun part => allowed (.inFunction k part))
      t.functionKeys.length known.1) (functionsAt t globals.2 t.functionKeys) := by
  refine .foldlM (fun k (known : Arena .function Function × Scope) =>
    Each (fun k => FunctionRefs fun part => allowed (.inFunction k part)) k known.1)
    (fun k key known hkey hknown hf => ?_) .start
  refine .bind (traced_of_function fun part r hr =>
    h _ r (.function htypes hglobals hkey hknown hr)) fun f _ hrefs => ?_
  exact .pure (hf.push hrefs)

theorem traced_load (h : ∀ place, Admits R (allowed place) (Reads t place)) :
    Traced R (fun m : Module => ∀ place, m.RefsAt (allowed place) place) (Module.load t) := by
  refine .bind (traced_noteVersion t) fun _ _ _ => ?_
  refine .bind (traced_string ..) fun name hname _ => ?_
  refine .bind (.mapM fun before key after _ _ => traced_typeName ..) fun types htypes _ => ?_
  have hstart : TypesRead t := ⟨⟨name, hname⟩, ⟨types, htypes⟩⟩
  -- The functions are read with the scope that reading all globals ends in.
  refine .bind (traced_globals h hstart) fun globals hglobals hg => ?_
  refine .bind (traced_functions h hstart hglobals) fun functions _ hf => ?_
  refine .bind (traced_note _) fun _ _ _ => .pure fun place => ?_
  cases place with
  | global i => exact hg.item i
  | localVar k j => exact fun f v hk hv => (hf.item k f hk).locals j v hv
  | body k => exact fun f hk => (hf.item k f hk).body

end

/-- What is found for a name stands in the module where the name was read, unless it is left out
with a record. -/
theorem refersTo_or_leftOut {t : Forest} {m : Module} (hload : (Module.load t).result = .ok m)
    {place : Place} {r : Reading} {target : Ref} (hr : Reads t place r)
    (hfound : r.found = .ok target) : ∃ task, task.LooksUp r ∧
      ((∃ fragment, Holds t m place task fragment ∧ fragment.RefersTo target) ∨
        LeftOut t place task ∧ ∃ e ∈ (Module.load t).events, e.Skips) := by
  obtain ⟨task, hvisits, hlooks⟩ := hr.lookedUp
  refine ⟨task, hlooks, ?_⟩
  rcases holds_or_leftOut hload hvisits with ⟨fragment, hholds⟩ | hleft
  · exact .inl ⟨fragment, hholds, hlooks.refersTo (hholds.read hload) hfound⟩
  · exact .inr ⟨hleft, warns_of_leftOut hload hleft⟩

end Load

namespace Module

/-- What is found for a name that is read is what it stands for by its position, and if that is
nothing, loading ends with that fault. Loading ends in an unresolved name only if it was read and
stands for nothing. Each reference of a module that was loaded is what was found for the name that
is stored in its place. Conversely what was found for a name stands in the module where the name was
read, unless it is left out with a record that is read as nothing, of which there is a warning. -/
theorem names_resolve_by_position {t : Forest} (ht : t.Distinct) :
    (∀ place r, Load.Reads t place r → r.found = (place.names t).resolve r.use r.name ∧
      ∀ reason, r.found = .error reason →
        (load t).result = .error (.unresolved r.path r.name reason)) ∧
    (∀ path name reason, (load t).result = .error (.unresolved path name reason) →
      ∃ place r, Load.Reads t place r ∧ r.path = path ∧ r.name = name ∧
        r.found = .error reason) ∧
    (∀ m, (load t).result = .ok m → ∀ place, m.RefsAt (fun path target =>
      ∃ r, Load.Reads t place r ∧ r.path = path ∧ r.found = .ok target) place) ∧
    ∀ m, (load t).result = .ok m → ∀ place r target, Load.Reads t place r →
      r.found = .ok target → ∃ task, task.LooksUp r ∧
        ((∃ fragment, Load.Holds t m place task fragment ∧ fragment.RefersTo target) ∨
          Load.LeftOut t place task ∧ ∃ e ∈ (load t).events, e.Skips) := by
  have htraced : Load.Traced (fun r => ∃ place, Load.Reads t place r)
      (fun m : Module => ∀ place, m.RefsAt (fun path target =>
        ∃ r, Load.Reads t place r ∧ r.path = path ∧ r.found = .ok target) place) (load t) := by
    apply Load.traced_load
    intro place r hr
    exact ⟨⟨place, hr⟩, fun target htarget => ⟨r, hr, rfl, htarget⟩⟩
  refine ⟨fun place r hr => ⟨hr.found_eq ht, Load.fails_of_reads hr⟩, ?_, htraced.result,
    fun m hload place r target => Load.refersTo_or_leftOut hload⟩
  intro path name reason h
  obtain ⟨r, ⟨place, hr⟩, hfault⟩ := htraced.fault path name reason h
  exact ⟨place, r, hr, hfault⟩

/-- A function with the key of a global hides it, but not from the globals. -/
theorem names_resolve_by_position_hidden :
    let declared name := Forest.string "name" name ++ .string "type" "int"
    let use := Forest.string "type" "ident-expr" ++ .string "ref" "g0"
    let t := Forest.branch "module" (.string "name" "m" ++
      .branch "globals" (.branch "g0" (declared "a") ++
        .branch "g1" (declared "b" ++ .branch "init" use)) ++
      .branch "funcs" (.branch "g0" (.string "name" "f" ++ .string "return-type" "int" ++
        .branch "body" (.branch "s0" (.string "type" "ret-stmt" ++ .branch "expr" use)))))
    t.Distinct ∧
    (∃ r, Load.Reads t (.global 1) r ∧ r.found = .ok (.global ⟨0⟩)) ∧
    ((Place.global 1).names t).find "g0" = .ok (.global ⟨0⟩) ∧
    (∃ r, Load.Reads t (.body 0) r ∧ r.found = .ok (.function ⟨0⟩)) ∧
    ((Place.body 0).names t).find "g0" = .ok (.function ⟨0⟩) := by
  intro declared use t
  have ht : t.Distinct := by decide
  let a : Variable := { name := "a", type := { name := "int" } }
  let b : Variable := { name := "b", type := { name := "int" }, init := some (.ref (.global ⟨0⟩)) }
  let f : Function :=
    { name := "f", returns := { name := "int" }, body := [.ret (some (.ref (.function ⟨0⟩)))] }
  let m : Module := { name := "m", globals := ⟨#[a, b]⟩, functions := ⟨#[f]⟩ }
  have hread : (load t).result = .ok m := by cbv
  obtain ⟨-, -, hrefs, -⟩ := names_resolve_by_position ht
  obtain ⟨path, hglobal⟩ := hrefs m hread (.global 1) b rfl
  obtain ⟨path', hbody⟩ := hrefs m hread (.body 0) f rfl
  obtain ⟨r, hr, -, hfound⟩ := hglobal _ rfl
  obtain ⟨⟨key, hret⟩, -⟩ := hbody
  obtain ⟨r', hr', -, hfound'⟩ := hret _ rfl
  exact ⟨ht, ⟨r, hr, hfound⟩, by cbv, ⟨r', hr', hfound'⟩, by cbv⟩

end Module

end KeyedIR
