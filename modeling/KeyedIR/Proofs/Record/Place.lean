import KeyedIR.Proofs.Forest.Keys
import KeyedIR.Proofs.Logged
import KeyedIR.Record.Load
/-! # What names stand for by their positions

At each place of a stored module some keys can be seen: those of the globals and functions up to
there, and those of the parameters and locals of the function around it. A name stands for the
declaration whose key it is, functions before globals and locals before parameters. The scopes that
come from binding these keys one after another answer the same (`Names.resolve_scopes`).
-/

namespace KeyedIR

set_option autoImplicit false

/-! ## Places -/

/-- Where a name stands: in the first value of a global, in that of a local of a function, or in the
body of a function. -/
inductive Place where
  | global (i : Nat)
  | localVar (k j : Nat)
  | body (k : Nat)

/-- A name is used as an expression, or for the variable that gets its first value. -/
inductive Use where
  | reference
  | target

/-- The keys that can be seen, each list in the order of the declarations. -/
structure Names where
  globals : List String := []
  functions : List String := []
  parameters : List String := []
  locals : List String := []

namespace Forest

def globalKeys (t : Forest) : List String := t.keysBelow [Record.moduleKey, "globals"]

def functionKeys (t : Forest) : List String := t.keysBelow [Record.moduleKey, "funcs"]

/-- The keys of a list that function number `k` owns. -/
def ownedKeys (t : Forest) (k : Nat) (list : String) : List String :=
  match t.functionKeys[k]? with
  | some key => t.keysBelow [Record.moduleKey, "funcs", key, list]
  | none => []

end Forest

/-- A global sees the globals before it. Inside a function all globals can be seen, the functions up
to this one and its parameters; a local sees the locals before it, and the body all of them. -/
def Place.names (t : Forest) : Place → Names
  | .global i => { globals := t.globalKeys.take i }
  | .localVar k j =>
    { globals := t.globalKeys, functions := t.functionKeys.take (k + 1),
      parameters := t.ownedKeys k "params", locals := (t.ownedKeys k "locals").take j }
  | .body k =>
    { globals := t.globalKeys, functions := t.functionKeys.take (k + 1),
      parameters := t.ownedKeys k "params", locals := t.ownedKeys k "locals" }

namespace Names

/-- The declaration whose key a name is. The first letter decides whether it is one of the module or
one of the function. -/
def find (names : Names) (name : String) : Except ResolutionFault Ref :=
  match name.toList.head? with
  | some 'g' | some 'f' =>
    match names.functions.idxOf? name, names.globals.idxOf? name with
    | some j, _ => .ok (.function (.ofNat j))
    | none, some i => .ok (.global (.ofNat i))
    | none, none => .error .unbound
  | some 'p' | some 'l' =>
    match names.locals.idxOf? name, names.parameters.idxOf? name with
    | some j, _ => .ok (.localVar (.ofNat j))
    | none, some i => .ok (.parameter (.ofNat i))
    | none, none => .error .unbound
  | _ => .error .unknownClass

/-- Only a global or a local gets a first value. -/
def resolve (names : Names) : Use → String → Except ResolutionFault Ref
  | .reference, name => names.find name
  | .target, name =>
    match names.find name with
    | .ok (.function _) | .ok (.parameter _) => .error .notAVariable
    | found => found

structure Distinct (names : Names) : Prop where
  globals : names.globals.Nodup
  functions : names.functions.Nodup
  parameters : names.parameters.Nodup
  locals : names.locals.Nodup

end Names

/-! ## Distinct keys -/

theorem Forest.Distinct.nodup_keys {t : Forest} (h : t.Distinct) : t.keys.Nodup := by
  induction t with
  | nil => exact .nil
  | cons key value children rest _ ih => exact List.nodup_cons.2 ⟨h.1, ih h.2.2⟩

theorem Place.distinct_names {t : Forest} (h : t.Distinct) (place : Place) :
    (place.names t).Distinct := by
  have hkeys (p : Path) : (t.keysBelow p).Nodup := (h.entry p).nodup_keys
  have howned (k : Nat) (list : String) : (t.ownedKeys k list).Nodup := by
    unfold Forest.ownedKeys
    split
    · exact hkeys _
    · exact .nil
  cases place with
  | global i => exact ⟨(hkeys _).sublist (List.take_sublist ..), .nil, .nil, .nil⟩
  | localVar k j =>
    exact ⟨hkeys _, (hkeys _).sublist (List.take_sublist ..), howned k _,
      (howned k _).sublist (List.take_sublist ..)⟩
  | body k => exact ⟨hkeys _, (hkeys _).sublist (List.take_sublist ..), howned k _, howned k _⟩

/-! ## Scopes -/

/-- What is found for a name, as a reference in both uses. -/
def Scopes.resolve (scopes : Scopes) : Use → String → Except ResolutionFault Ref
  | .reference, name => scopes.target? name
  | .target, name => VarRef.toRef <$> scopes.variable? name

/-- The first letter of a name tells which scope is searched. -/
theorem Scopes.target?_of_letter (scopes : Scopes) {name : String} (cls : DeclClass)
    (htype : cls ≠ .type) (hname : name.toList.head? = some cls.letter) :
    scopes.target? name =
      match (if cls.isModuleWide then scopes.globals else scopes.locals).lookup name with
      | some target => .ok target
      | none => .error .unbound := by
  have hcls : name.toList.head?.bind DeclClass.ofLetter? = some cls := by
    rw [hname, Option.bind_some]
    exact DeclClass.ofLetter?_eq_some_iff.2 rfl
  rw [target?, hcls]
  cases cls with
  | type => exact absurd rfl htype
  | global | function | parameter | localVar => rfl

theorem Scopes.target?_of_no_letter (scopes : Scopes) {name : String}
    (hname : ∀ cls : DeclClass, cls ≠ .type → name.toList.head? ≠ some cls.letter) :
    scopes.target? name = .error .unknownClass := by
  unfold target?
  split
  case h_1 | h_2 => rfl
  case h_3 cls htype hcls =>
    obtain ⟨c, hc, hletter⟩ := Option.bind_eq_some_iff.1 hcls
    rw [DeclClass.ofLetter?_eq_some_iff.1 hletter] at hc
    exact absurd hc (hname cls htype)

namespace Scope

/-- Binds keys one after another to the declarations from a position on. -/
def bindFrom (target : Nat → Ref) : Nat → List String → Scope → Scope
  | _, [], s => s
  | position, key :: rest, s => bindFrom target (position + 1) rest (s.bind key (target position))

theorem bindFrom_concat (target : Nat → Ref) (position : Nat) (keys : List String) (key : String)
    (s : Scope) : bindFrom target position (keys ++ [key]) s =
      (bindFrom target position keys s).bind key (target (position + keys.length)) := by
  induction keys generalizing position s with
  | nil => rfl
  | cons key' rest ih =>
    rw [List.cons_append, bindFrom, ih, List.length_cons, Nat.add_assoc, Nat.add_comm 1]
    rfl

theorem lookup_bindFrom {keys : List String} (hkeys : keys.Nodup) (target : Nat → Ref)
    (position : Nat) (s : Scope) (name : String) :
    (bindFrom target position keys s).lookup name =
      match keys.idxOf? name with
      | some i => some (target (position + i))
      | none => s.lookup name := by
  induction keys generalizing position s with
  | nil => rfl
  | cons key rest ih =>
    obtain ⟨hnew, hrest⟩ := List.nodup_cons.1 hkeys
    rw [bindFrom, ih hrest, List.idxOf?_cons]
    by_cases hname : key = name
    · subst hname
      rw [List.idxOf?_eq_none_iff.2 hnew]
      simp
    · rw [if_neg (by simpa using hname)]
      cases rest.idxOf? name with
      | some i => exact congrArg (fun n => some (target n)) (Nat.succ_add_eq_add_succ position i)
      | none => exact lookup_bind_of_ne (Ne.symm hname)

end Scope

namespace Names

/-- The scopes that bind the keys that can be seen, functions after globals and locals after
parameters. -/
def scopes (names : Names) : Scopes where
  globals := .bindFrom (fun i => .function (.ofNat i)) 0 names.functions
    (.bindFrom (fun i => .global (.ofNat i)) 0 names.globals {})
  locals := .bindFrom (fun i => .localVar (.ofNat i)) 0 names.locals
    (.bindFrom (fun i => .parameter (.ofNat i)) 0 names.parameters {})

/-- What is found in one scope that binds two lists of keys, the second of them first. -/
theorem lookup_both {first second : List String} (hfirst : first.Nodup) (hsecond : second.Nodup)
    (target target' : Nat → Ref) (name : String) :
    (Scope.bindFrom target 0 first (.bindFrom target' 0 second {})).lookup name =
      match first.idxOf? name, second.idxOf? name with
      | some j, _ => some (target j)
      | none, some i => some (target' i)
      | none, none => none := by
  rw [Scope.lookup_bindFrom hfirst, Scope.lookup_bindFrom hsecond]
  simp only [Nat.zero_add]
  cases first.idxOf? name <;> cases second.idxOf? name <;> rfl

variable {names : Names} (h : names.Distinct)
include h

theorem target?_scopes (name : String) : names.scopes.target? name = names.find name := by
  have hwide (cls : DeclClass) (htype : cls ≠ .type) (hscope : cls.isModuleWide = true)
      (hname : name.toList.head? = some cls.letter) : names.scopes.target? name =
        match names.functions.idxOf? name, names.globals.idxOf? name with
        | some j, _ => .ok (.function (.ofNat j))
        | none, some i => .ok (.global (.ofNat i))
        | none, none => .error .unbound := by
    rw [Scopes.target?_of_letter _ cls htype hname, if_pos hscope, scopes,
      lookup_both h.functions h.globals]
    cases names.functions.idxOf? name <;> cases names.globals.idxOf? name <;> rfl
  have howned (cls : DeclClass) (htype : cls ≠ .type) (hscope : ¬ cls.isModuleWide = true)
      (hname : name.toList.head? = some cls.letter) : names.scopes.target? name =
        match names.locals.idxOf? name, names.parameters.idxOf? name with
        | some j, _ => .ok (.localVar (.ofNat j))
        | none, some i => .ok (.parameter (.ofNat i))
        | none, none => .error .unbound := by
    rw [Scopes.target?_of_letter _ cls htype hname, if_neg hscope, scopes,
      lookup_both h.locals h.parameters]
    cases names.locals.idxOf? name <;> cases names.parameters.idxOf? name <;> rfl
  unfold find
  split
  case h_1 hname => exact hwide .global nofun rfl hname
  case h_2 hname => exact hwide .function nofun rfl hname
  case h_3 hname => exact howned .parameter nofun nofun hname
  case h_4 hname => exact howned .localVar nofun nofun hname
  case h_5 hg hf hp hl =>
    apply Scopes.target?_of_no_letter
    intro cls htype
    cases cls with
    | type => exact absurd rfl htype
    | global => exact hg
    | function => exact hf
    | parameter => exact hp
    | localVar => exact hl

theorem resolve_scopes (use : Use) (name : String) :
    names.scopes.resolve use name = names.resolve use name := by
  cases use with
  | reference => exact target?_scopes h name
  | target =>
    rw [Scopes.resolve, Scopes.variable?, target?_scopes h, resolve]
    cases names.find name with
    | error reason => rfl
    | ok target => cases target <;> rfl

end Names

end KeyedIR
