import KeyedIR.Proofs.Forest.Reachable
import KeyedIR.Proofs.Record.Place
import KeyedIR.Proofs.Record.Tasks
/-! # Faults tell the truth

The fault that ends a loading says something about one path below the record of the module: that
nothing is stored there, or which value is and what is wrong with it. All of this is so in the
forest that was loaded (`Module.trueOf_of_load`). Where no key has a dot, the text of the path leads
back to it.
-/

namespace KeyedIR

set_option autoImplicit false

open Logged Loading

/-! ## What faults say -/

def AccessError.path : AccessError → Path
  | missingKey path | wrongKind path _ _ => path

def RecordFault.path : RecordFault → Path
  | access fault => fault.path
  | unresolved path _ _ | invalidStatementList path _ | unknownOperator path _ _
  | integerOutOfRange path _ => path

/-- The words that are stored for the operators of a family. -/
def OperatorFamily.words : OperatorFamily → List String
  | arithmetic => ArithmeticOp.all.map ArithmeticOp.word
  | comparison => ComparisonOp.all.map ComparisonOp.word
  | assignment => AssignmentOp.all.map AssignmentOp.word

/-- The name is empty, or it starts with none of the letters of what can be referred to. -/
def HasNoClass (name : String) : Prop := ∀ c ∈ name.toList.head?, c ∉ ['g', 'f', 'p', 'l']

def AccessError.TrueOf (t : Forest) : AccessError → Prop
  | missingKey path => t.value? path = none
  | wrongKind path expected found =>
    (∃ v, t.value? path = some v ∧ v.kind = found) ∧ found ≠ expected

/-- What a fault says is so in a forest. -/
def RecordFault.TrueOf (t : Forest) : RecordFault → Prop
  | access fault => fault.TrueOf t
  | unresolved path name reason =>
    t.value? path = some (.string name) ∧ (reason = .unknownClass ↔ HasNoClass name)
  | invalidStatementList path found =>
    t.value? path = some found ∧ (t.keysBelow path ≠ [] ∨ found ≠ .string Record.emptyList)
  | unknownOperator path family name =>
    t.value? path = some (.string name) ∧ name ∉ family.words
  | integerOutOfRange path n =>
    t.value? path = some (.integer n) ∧ (n.toInt < -2147483648 ∨ 2147483647 < n.toInt)

/-! ## Names and words -/

namespace Scopes

variable {scopes : Scopes} {name : String}

theorem target?_eq_unknownClass_iff :
    scopes.target? name = .error .unknownClass ↔ HasNoClass name := by
  have hletters : ['g', 'f', 'p', 'l'] = [DeclClass.global, .function, .parameter, .localVar].map
      DeclClass.letter := rfl
  constructor
  · intro h c hc hmem
    rw [hletters] at hmem
    obtain ⟨cls, hcls, rfl⟩ := List.mem_map.1 hmem
    have htype : cls ≠ .type := by
      rintro rfl
      simp at hcls
    rw [target?_of_letter scopes cls htype hc] at h
    split at h <;> cases h
  · intro h
    apply target?_of_no_letter
    intro cls htype hc
    refine h cls.letter hc ?_
    cases cls with
    | type => exact absurd rfl htype
    | global | function | parameter | localVar => decide

theorem variable_eq_unknownClass_iff :
    scopes.variable? name = .error .unknownClass ↔ HasNoClass name := by
  have hsame : scopes.variable? name = .error .unknownClass ↔
      scopes.target? name = .error .unknownClass := by
    unfold Scopes.variable?
    cases scopes.target? name with
    | ok target => cases target <;> simp [Ref.toVarRef?]
    | error reason => simp
  exact hsame.trans target?_eq_unknownClass_iff

end Scopes

theorem OperatorFamily.not_mem_map_of_find? {α : Type} {all : List α} {word : α → String}
    {s : String} (h : all.find? (word · == s) = none) : s ∉ all.map word := by
  intro hmem
  obtain ⟨op, hop, rfl⟩ := List.mem_map.1 hmem
  exact List.find?_eq_none.1 h op hop (beq_self_eq_true _)

theorem Forest.keys_ne_nil {t : Forest} (h : t ≠ .nil) : t.keys ≠ [] := by
  cases t with
  | nil => exact absurd rfl h
  | cons key value children rest => exact List.cons_ne_nil key rest.keys

namespace Entry

variable {e : Entry} {path : Path}

theorem value_of_stringAt {s : String} (h : e.stringAt path = .ok s) :
    e.value = some (.string s) := by
  obtain ⟨value, below⟩ := e
  rcases value with - | v | v | v <;> cases h
  rfl

theorem value_of_intAt {n : Int64} (h : e.intAt path = .ok n) : e.value = some (.integer n) := by
  obtain ⟨value, below⟩ := e
  rcases value with - | v | v | v <;> cases h
  rfl

end Entry

theorem Loading.ok_of_ofAccess {α : Type} {r : Except AccessError α} {x : α}
    (h : (ofAccess r).result = .ok x) : r = .ok x := by
  cases r with
  | ok y => exact congrArg Except.ok (Except.ok.inj h)
  | error fault => cases h

namespace Load

/-! ## Where loading looks -/

/-- Loading may look at a path: it leads from the record of the module down over names of fields,
which have no dot, and over keys that are stored. -/
inductive Reached (t : Forest) : Path → Prop
  | top {key : String} (hkey : '.' ∉ key.toList) : Reached t [Record.moduleKey, key]
  | field {path : Path} {key : String} (h : Reached t path) (hkey : '.' ∉ key.toList) :
      Reached t (path ++ [key])
  | item {path : Path} {key : String} (h : Reached t path) (hkey : key ∈ t.keysBelow path) :
      Reached t (path ++ [key])

theorem Reached.below_module {t : Forest} {path : Path} (h : Reached t path) :
    ∃ key rest, path = Record.moduleKey :: key :: rest := by
  induction h with
  | top => exact ⟨_, [], rfl⟩
  | field _ _ ih | item _ _ ih =>
    obtain ⟨key, rest, rfl⟩ := ih
    exact ⟨key, rest ++ [_], rfl⟩

theorem Reached.no_dot {t : Forest} (ht : t.EveryKey ('.' ∉ ·.toList)) {path : Path}
    (h : Reached t path) : ∀ key ∈ path, '.' ∉ key.toList := by
  induction h with
  | top hkey => exact List.forall_mem_cons.2 ⟨by decide, List.forall_mem_singleton.2 hkey⟩
  | field _ hkey ih => exact List.forall_mem_append.2 ⟨ih, List.forall_mem_singleton.2 hkey⟩
  | @item path _ _ hkey ih =>
    have hstored := (ht.entry path).keys _ hkey
    exact List.forall_mem_append.2 ⟨ih, List.forall_mem_singleton.2 hstored⟩

/-- A record that is read at a path has the children that the forest has there. -/
structure StandsAt (t : Forest) (path : Path) (children : Forest) : Prop where
  reached : Reached t path
  children_eq : children = (t.entry path).children

section

variable {t : Forest} {path : Path} {children : Forest} {key : String}

theorem StandsAt.child_eq (h : StandsAt t path children) (key : String) :
    children.child key = t.entry (path ++ [key]) := by
  rw [h.children_eq, entry_concat]

theorem StandsAt.field (h : StandsAt t path children) (hkey : '.' ∉ key.toList) :
    StandsAt t (path ++ [key]) (children.child key).children :=
  ⟨h.reached.field hkey, congrArg Entry.children (h.child_eq key)⟩

theorem StandsAt.item (h : StandsAt t path children) (hkey : key ∈ children.keys) :
    StandsAt t (path ++ [key]) (children.child key).children := by
  refine ⟨h.reached.item ?_, congrArg Entry.children (h.child_eq key)⟩
  rwa [h.children_eq] at hkey

end

/-! ## Reading values -/

/-- A fault at a path where loading looks, which tells the truth about it. -/
structure Honest (t : Forest) (e : RecordFault) : Prop where
  reached : Reached t e.path
  trueOf : e.TrueOf t

section

variable {α : Type} {t : Forest} {path : Path} {children : Forest} {key : String}

/-- What a record lacks at a path where a value of some kind is wanted. -/
inductive Lacks (t : Forest) (path : Path) (expected : Kind) : AccessError → Prop
  | missing (h : t.value? path = none) : Lacks t path expected (.missingKey path)
  | wrong {v : Value} (h : t.value? path = some v) (hkind : v.kind ≠ expected) :
      Lacks t path expected (.wrongKind path expected v.kind)

theorem Lacks.honest {expected : Kind} {fault : AccessError} (h : Lacks t path expected fault)
    (hpath : Reached t path) : Honest t (.access fault) := by
  cases h with
  | missing hnone => exact ⟨hpath, hnone⟩
  | wrong hsome hkind => exact ⟨hpath, ⟨_, hsome, rfl⟩, hkind⟩

theorem lacks_of_typed (t : Forest) (path : Path) :
    (∀ fault, t.stringAt path = .error fault → Lacks t path .string fault) ∧
      (∀ fault, t.intAt path = .error fault → Lacks t path .integer fault) ∧
      (∀ fault, t.floatAt path = .error fault → Lacks t path .float fault) := by
  simp only [Forest.stringAt, Forest.intAt, Forest.floatAt, Entry.stringAt, Entry.intAt,
    Entry.floatAt, Entry.valueAt]
  cases hvalue : (t.entry path).value with
  | none =>
    refine ⟨?_, ?_, ?_⟩
    all_goals
      rintro _ ⟨⟩
      exact .missing hvalue
  | some v =>
    cases v
    all_goals
      refine ⟨?_, ?_, ?_⟩ <;> rintro _ ⟨⟩
      all_goals
        refine .wrong hvalue fun hkind => ?_
        cases hkind

/-- Whatever the computation ends in, its fault is honest. -/
abbrev Truthful (t : Forest) (c : Loading α) : Prop := Faults (Honest t) c

theorem Truthful.of_lacks {r : Except AccessError α} {expected : Kind} (hpath : Reached t path)
    (h : ∀ fault, r = .error fault → Lacks t path expected fault) : Truthful t (ofAccess r) := by
  intro e he
  cases r with
  | ok x => cases he
  | error fault =>
    cases he
    exact (h fault rfl).honest hpath

theorem StandsAt.truthful_string (h : StandsAt t path children) (hkey : '.' ∉ key.toList) :
    Truthful t (string path children key) := by
  unfold string
  rw [h.child_eq]
  exact .of_lacks (h.reached.field hkey) (lacks_of_typed t (path ++ [key])).1

theorem StandsAt.truthful_int (h : StandsAt t path children) (hkey : '.' ∉ key.toList) :
    Truthful t (ofAccess ((children.child key).intAt (path ++ [key]))) := by
  rw [h.child_eq]
  exact .of_lacks (h.reached.field hkey) (lacks_of_typed t (path ++ [key])).2.1

theorem StandsAt.truthful_float (h : StandsAt t path children) (hkey : '.' ∉ key.toList) :
    Truthful t (ofAccess ((children.child key).floatAt (path ++ [key]))) := by
  rw [h.child_eq]
  exact .of_lacks (h.reached.field hkey) (lacks_of_typed t (path ++ [key])).2.2

theorem StandsAt.value_of_string (h : StandsAt t path children) {s : String}
    (hs : (string path children key).result = .ok s) :
    t.value? (path ++ [key]) = some (.string s) := by
  rw [string, h.child_eq] at hs
  exact Entry.value_of_stringAt (Loading.ok_of_ofAccess hs)

theorem StandsAt.value_of_int (h : StandsAt t path children) {n : Int64}
    (hn : (ofAccess ((children.child key).intAt (path ++ [key]))).result = .ok n) :
    t.value? (path ++ [key]) = some (.integer n) := by
  rw [h.child_eq] at hn
  exact Entry.value_of_intAt (Loading.ok_of_ofAccess hn)

theorem StandsAt.truthful_reference (h : StandsAt t path children) (hkey : '.' ∉ key.toList)
    {find : String → Except ResolutionFault α}
    (hfind : ∀ name, find name = .error .unknownClass ↔ HasNoClass name) :
    Truthful t (reference find path children key) := by
  refine (h.truthful_string hkey).bind fun name hname => ?_
  cases hfound : find name with
  | ok target => exact .pure target
  | error reason =>
    refine .fail ⟨h.reached.field hkey, h.value_of_string hname, ?_⟩
    rw [← hfind, hfound, Except.error.injEq]

theorem StandsAt.truthful_operator (h : StandsAt t path children) (family : OperatorFamily)
    {ofWord? : String → Option α} (hwords : ∀ word, ofWord? word = none → word ∉ family.words) :
    Truthful t (operator family ofWord? path children) := by
  refine (h.truthful_string (by decide)).bind fun word hword => ?_
  cases hop : ofWord? word with
  | some op => exact .pure op
  | none =>
    exact .fail ⟨h.reached.field (by decide), h.value_of_string hword, hwords word hop⟩

theorem StandsAt.truthful_flag (h : StandsAt t path children) (hkey : '.' ∉ key.toList) :
    Truthful t (flag path children key) := by
  unfold flag
  dsimp only
  split
  · exact .pure false
  · exact (h.truthful_int hkey).bind fun n _ => .pure (n != 0)

theorem StandsAt.truthful_int32 (h : StandsAt t path children) :
    Truthful t (int32 path children) := by
  refine (h.truthful_int (by decide)).bind fun n hn => ?_
  split
  case isTrue => exact .pure _
  case isFalse hrange =>
    refine .fail ⟨h.reached.field (by decide), h.value_of_int hn, ?_⟩
    have hmin : Int32.minValue.toInt = -2147483648 := by decide
    have hmax : Int32.maxValue.toInt = 2147483647 := by decide
    omega

theorem StandsAt.honest_of_nil (h : StandsAt t path children) (hnil : children = .nil) :
    Honest t (.access (.missingKey (path ++ ["type"]))) := by
  refine ⟨h.reached.field (by decide), ?_⟩
  show (t.entry (path ++ ["type"])).value = none
  rw [← h.child_eq, hnil]
  rfl

theorem Truthful.whenPresent {present : Bool} {c : Loading (Option Expr)} (hc : Truthful t c) :
    Truthful t (Loading.whenPresent present c) := by
  unfold Loading.whenPresent
  split
  · exact hc
  · exact .pure none

end

/-! ## Expressions and statements -/

section

variable {t : Forest}

theorem StandsAt.truthful_expr {path : Path} {children : Forest} (h : StandsAt t path children)
    (scopes : Scopes) : Truthful t (expr scopes path children) := by
  unfold expr
  split
  case isTrue hnil => exact .fail (h.honest_of_nil hnil)
  case isFalse hne =>
    have hoperand (key : String) (hkey : '.' ∉ key.toList) :
        Truthful t (expr scopes (path ++ [key]) (children.child key).children) :=
      have := Forest.size_child_lt hne key
      (h.field hkey).truthful_expr scopes
    refine (h.truthful_string (by decide)).bind fun word _ => ?_
    split
    case h_1 => exact (Faults.note _).bind fun _ _ => .pure none
    case h_2 =>
      refine .bind ?_ fun target _ => .pure _
      exact h.truthful_reference (by decide) fun name => Scopes.target?_eq_unknownClass_iff
    case h_3 => exact h.truthful_int32.bind fun n _ => .pure _
    case h_4 => exact (h.truthful_float (by decide)).bind fun x _ => .pure _
    case h_5 =>
      refine .bind ?_ fun op _ => .bind (hoperand "lhs" (by decide)) fun lhs _ => ?_
      · exact h.truthful_operator .arithmetic fun word => OperatorFamily.not_mem_map_of_find?
      cases lhs with
      | none => exact .pure none
      | some lhs =>
        dsimp only
        split
        · refine .bind (hoperand "rhs" (by decide)).whenPresent fun rhs _ => ?_
          cases rhs <;> exact .pure _
        · exact .bind (hoperand "rhs" (by decide)) fun rhs _ => .pure _
    case h_6 =>
      refine .bind ?_ fun op _ => .bind (hoperand "lhs" (by decide)) fun lhs _ =>
        .bind (hoperand "rhs" (by decide)) fun rhs _ => .pure _
      exact h.truthful_operator .comparison fun word => OperatorFamily.not_mem_map_of_find?
    case h_7 =>
      refine .bind ?_ fun op _ => .bind (hoperand "lhs" (by decide)) fun lhs _ =>
        .bind (hoperand "rhs" (by decide)) fun rhs _ => .pure _
      exact h.truthful_operator .assignment fun word => OperatorFamily.not_mem_map_of_find?
termination_by children.size

theorem StandsAt.truthful_slot {path : Path} {children : Forest} (h : StandsAt t path children)
    (scopes : Scopes) {key : String} (hkey : '.' ∉ key.toList) :
    Truthful t (slot scopes path children key) :=
  ((h.field hkey).truthful_expr scopes).whenPresent

mutual

theorem StandsAt.truthful_stmt {path : Path} {children : Forest} (h : StandsAt t path children)
    (scopes : Scopes) : Truthful t (stmt scopes path children) := by
  unfold stmt
  split
  case isTrue hnil => exact .fail (h.honest_of_nil hnil)
  case isFalse hne =>
    have hsmaller := Forest.size_child_lt hne
    refine (h.truthful_string (by decide)).bind fun word _ => ?_
    split
    case h_1 => exact (Faults.note _).bind fun _ _ => .pure none
    case h_2 tag _ =>
      refine (Faults.note _).bind fun _ _ => ?_
      cases tag with
      | init =>
        refine .bind ?_ fun target _ => .bind ((h.field (by decide)).truthful_expr scopes)
          fun value _ => .pure _
        exact h.truthful_reference (by decide) fun name => Scopes.variable_eq_unknownClass_iff
      | eval => exact ((h.field (by decide)).truthful_expr scopes).bind fun e _ => .pure _
      | loop =>
        refine .bind (truthful_stmts (h.reached.field (by decide)) (h.child_eq _) scopes)
          fun start _ => ?_
        refine .bind (h.truthful_slot scopes (by decide)) fun cond _ => ?_
        refine .bind (h.truthful_slot scopes (by decide)) fun test _ => ?_
        refine .bind (h.truthful_slot scopes (by decide)) fun step _ => ?_
        exact .bind (truthful_stmts (h.reached.field (by decide)) (h.child_eq _) scopes)
          fun body _ => .pure _
      | ret => exact (h.truthful_slot scopes (by decide)).bind fun value _ => .pure _
termination_by 2 * children.size
decreasing_by
  all_goals
    have := hsmaller "decl1"
    have := hsmaller "body"
    omega

theorem truthful_stmts {path : Path} {e : Entry} (hpath : Reached t path) (he : e = t.entry path)
    (scopes : Scopes) : Truthful t (stmts scopes path e) := by
  have hvalue : t.value? path = e.value := congrArg Entry.value he.symm
  unfold stmts
  split
  case isTrue hnil =>
    split
    case h_1 s hs =>
      split
      case isTrue => exact .pure []
      case isFalse hmarker =>
        exact .fail ⟨hpath, hvalue.trans hs, .inr fun hsame => hmarker (Value.string.inj hsame)⟩
    case h_2 found hother hfound =>
      exact .fail ⟨hpath, hvalue.trans hfound, .inr (hother Record.emptyList)⟩
    case h_3 hnone => exact .fail ⟨hpath, hvalue.trans hnone⟩
  case isFalse hne =>
    have hsmaller := Forest.size_child_lt hne
    split
    case h_1 found hfound =>
      refine .fail ⟨hpath, hvalue.trans hfound, .inl ?_⟩
      rw [Forest.keysBelow, ← he]
      exact Forest.keys_ne_nil hne
    case h_2 =>
      have h : StandsAt t path e.children := ⟨hpath, congrArg Entry.children he⟩
      refine .bind (.mapM fun key hkey => ?_) fun read _ => .pure _
      exact (h.item hkey).truthful_stmt scopes
termination_by 2 * e.children.size + 1
decreasing_by
  have := hsmaller key
  omega

end

/-! ## Declarations -/

section

variable {path : Path} {children : Forest}

theorem StandsAt.truthful_var (h : StandsAt t path children) (scopes : Scopes) :
    Truthful t (var scopes path children) := by
  refine (h.truthful_string (by decide)).bind fun name _ => ?_
  refine (h.truthful_string (by decide)).bind fun type _ => ?_
  exact (h.truthful_slot scopes (by decide)).bind fun init _ => .pure _

theorem StandsAt.truthful_parameters (h : StandsAt t path children)
    (known : Arena .parameter Parameter × Scope) :
    Truthful t (children.keys.foldlM (parameter path children) known) := by
  refine .foldlM (fun known key hkey => ?_) known
  refine ((h.item hkey).truthful_string (by decide)).bind fun name _ => ?_
  exact ((h.item hkey).truthful_string (by decide)).bind fun type _ => .pure _

theorem StandsAt.truthful_locals (h : StandsAt t path children) (globals : Scope)
    (known : Arena .localVar Variable × Scope) :
    Truthful t (children.keys.foldlM (localVar globals path children) known) :=
  .foldlM (fun _ _ hkey => ((h.item hkey).truthful_var _).bind fun _ _ => .pure _) known

theorem StandsAt.truthful_function (h : StandsAt t path children) (globals : Scope) :
    Truthful t (function globals path children) := by
  refine (h.truthful_string (by decide)).bind fun name _ => ?_
  refine (h.truthful_string (by decide)).bind fun returns _ => ?_
  refine (Faults.note _).bind fun _ _ => ?_
  refine (h.truthful_flag (by decide)).bind fun isVariadic _ => ?_
  refine (h.truthful_flag (by decide)).bind fun isInline _ => ?_
  refine ((h.field (by decide)).truthful_parameters _).bind fun parameters _ => ?_
  refine ((h.field (by decide)).truthful_locals globals _).bind fun locals _ => ?_
  refine (Faults.note _).bind fun _ _ => ?_
  exact (truthful_stmts (h.reached.field (by decide)) (h.child_eq _) _).bind fun body _ => .pure _

end

/-! ## Modules -/

theorem truthful_noteVersion (t : Forest) : Truthful t (noteVersion t) := by
  unfold noteVersion
  split
  · split
    · exact .pure ()
    · exact .note _
  · exact .note _

theorem standsAt_top (t : Forest) (key : String) (hkey : '.' ∉ key.toList) :
    StandsAt t [Record.moduleKey, key] (t.entry [Record.moduleKey, key]).children :=
  ⟨.top hkey, rfl⟩

theorem truthful_load (t : Forest) : Truthful t (Module.load t) := by
  refine (truthful_noteVersion t).bind fun _ _ => ?_
  refine .bind ?_ fun name _ => ?_
  -- The record of the module is not below itself, only its fields are.
  · exact Truthful.of_lacks (.top (by decide)) (lacks_of_typed t [Record.moduleKey, "name"]).1
  refine .bind (.mapM fun key hkey => ?_) fun types _ => ?_
  · have h := (standsAt_top t "typedefs" (by decide)).item hkey
    exact (h.truthful_string (by decide)).bind fun name _ => .pure _
  refine .bind (.foldlM (fun known key hkey => ?_) _) fun globals _ => ?_
  · have h := (standsAt_top t "globals" (by decide)).item hkey
    exact (h.truthful_var _).bind fun v _ => .pure _
  refine .bind (.foldlM (fun known key hkey => ?_) _) fun functions _ => ?_
  · have h := (standsAt_top t "funcs" (by decide)).item hkey
    exact (h.truthful_function _).bind fun f _ => .pure _
  exact (Faults.note _).bind fun _ _ => .pure _

end

end Load

theorem Path.query_text {p : Path} (hp : ∀ key ∈ p, '.' ∉ key.toList) (hne : p ≠ [])
    (hroot : p ≠ [""]) : query p.text = p := by
  have hsplit := split_text hne hp
  unfold query
  split
  case isTrue hempty =>
    rw [String.isEmpty_iff.1 hempty] at hsplit
    exact absurd hsplit.symm hroot
  case isFalse => exact hsplit

namespace Module

/-- The fault that ends a loading is about a path below the record of the module, and what it says
of that path is so. In a forest that comes from nothing by changes the path is the one that its text
names. -/
theorem trueOf_of_load {t : Forest} {e : RecordFault} (h : (load t).result = .error e) :
    (∃ key rest, e.path = Record.moduleKey :: key :: rest) ∧ e.TrueOf t ∧
      (t.Reachable → Path.query e.path.text = e.path) := by
  obtain ⟨hreached, htrue⟩ := Load.truthful_load t e h
  obtain ⟨key, rest, hpath⟩ := hreached.below_module
  refine ⟨⟨key, rest, hpath⟩, htrue, fun ht => ?_⟩
  apply Path.query_text (hreached.no_dot ht.no_dot)
  · simp [hpath]
  · simp [hpath]

/-- The name of a type is a number, and the fault gives back its kind and its path. -/
theorem trueOf_of_load_typedef :
    let path : Path := ["module", "typedefs", "t", "name"]
    ∃ t, Forest.ofText "module:\n  name: \"m\"\n  typedefs:\n    t:\n      name: 1" = .ok t ∧
      (load t).result = .error (.access (.wrongKind path .string .integer)) ∧
      (∃ v, t.value? path = some v ∧ v.kind = .integer) ∧ Path.query path.text = path := by
  intro path
  let t : Forest := .branch "module" (.leaf "name" (.string "m") ++
    .branch "typedefs" (.branch "t" (.leaf "name" (.integer 1))))
  have hread : Forest.ofText "module:\n  name: \"m\"\n  typedefs:\n    t:\n      name: 1" =
      .ok t := by cbv
  have hload : (load t).result = .error (.access (.wrongKind path .string .integer)) := by cbv
  obtain ⟨-, ⟨hfound, -⟩, hquery⟩ := trueOf_of_load hload
  exact ⟨t, hread, hload, hfound, hquery (.ofText hread)⟩

end Module

end KeyedIR
