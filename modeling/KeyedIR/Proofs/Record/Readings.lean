import KeyedIR.Proofs.Forest.Fields
import KeyedIR.Proofs.Record.Logs
import KeyedIR.Proofs.Record.Place
/-! # The names that loading reads

When a module is loaded, references are read one after another, as far as what stands before them
could be read. `Load.Reads` says which names are read, at which place, and what is found for each. A
name for which nothing is found ends the loading with that fault (`Load.fails_of_reads`).
-/

namespace KeyedIR

set_option autoImplicit false

open Logged Loading

/-- A name that is read: where it is stored, how it is used and what is found for it. -/
structure Reading where
  path : Path
  name : String
  use : Use
  found : Except ResolutionFault Ref

namespace Load

/-! ## Expressions and statements -/

/-- The record of an expression says which kind of expression it is. -/
def ExprKind (path : Path) (children : Forest) (tag : ExprTag) : Prop :=
  ∃ word, (string path children "type").result = .ok word ∧ ExprTag.ofWord? word = some tag

def StmtKind (path : Path) (children : Forest) (tag : StmtTag) : Prop :=
  ∃ word, (string path children "type").result = .ok word ∧ StmtTag.ofWord? word = some tag

/-- The operator of an expression can be read. In the arithmetic family the second operand is read
only if the first one is not left out. -/
inductive OperatorRead (path : Path) (children : Forest) : (needsFirst : Bool) → Prop
  | arithmetic {op : ArithmeticOp} (htag : ExprKind path children .arithmetic)
      (hop : (operator .arithmetic ArithmeticOp.ofWord? path children).result = .ok op) :
      OperatorRead path children true
  | compare {op : ComparisonOp} (htag : ExprKind path children .compare)
      (hop : (operator .comparison ComparisonOp.ofWord? path children).result = .ok op) :
      OperatorRead path children false
  | assign {op : AssignmentOp} (htag : ExprKind path children .assign)
      (hop : (operator .assignment AssignmentOp.ofWord? path children).result = .ok op) :
      OperatorRead path children false

/-- Reading the expression with the given children comes to a name. -/
inductive ExprReads (scopes : Scopes) : Path → Forest → Reading → Prop
  | reference {path : Path} {children : Forest} {name : String}
      (htag : ExprKind path children .ref)
      (hname : (string path children "ref").result = .ok name) :
      ExprReads scopes path children
        ⟨path ++ ["ref"], name, .reference, scopes.resolve .reference name⟩
  | lhs {path : Path} {children : Forest} {r : Reading} {needsFirst : Bool}
      (hop : OperatorRead path children needsFirst)
      (h : ExprReads scopes (path ++ ["lhs"]) (children.child "lhs").children r) :
      ExprReads scopes path children r
  | rhs {path : Path} {children : Forest} {r : Reading} {needsFirst : Bool} {lhs : Option Expr}
      (hop : OperatorRead path children needsFirst)
      (hlhs : (expr scopes (path ++ ["lhs"]) (children.child "lhs").children).result = .ok lhs)
      (hfirst : needsFirst = true → lhs ≠ none)
      (h : ExprReads scopes (path ++ ["rhs"]) (children.child "rhs").children r) :
      ExprReads scopes path children r

/-- Reading a list of statements comes to the statement of a key. -/
def ReachesStmt (scopes : Scopes) (path : Path) (e : Entry) (key : String) : Prop :=
  e.value = none ∧ ∃ before after, e.children.keys = before ++ key :: after ∧
    ∀ key' ∈ before, ∃ s,
      (stmt scopes (path ++ [key']) (e.children.child key').children).result = .ok s

/-- The list of statements in the head of a loop can be read. -/
def StartRead (scopes : Scopes) (path : Path) (children : Forest) : Prop :=
  ∃ start, (stmts scopes (path ++ ["decl1"]) (children.child "decl1")).result = .ok start

/-- The expressions at some keys can be read, or are not there. -/
def SlotsRead (scopes : Scopes) (path : Path) (children : Forest) (keys : List String) : Prop :=
  ∀ key ∈ keys, ∃ e, (slot scopes path children key).result = .ok e

/-- Reading the statement with the given children comes to a name. -/
inductive StmtReads (scopes : Scopes) : Path → Forest → Reading → Prop
  | target {path : Path} {children : Forest} {name : String}
      (htag : StmtKind path children .init)
      (hname : (string path children "var").result = .ok name) :
      StmtReads scopes path children ⟨path ++ ["var"], name, .target, scopes.resolve .target name⟩
  | value {path : Path} {children : Forest} {r : Reading} {v : VarRef}
      (htag : StmtKind path children .init)
      (htarget : (Load.reference scopes.variable? path children "var").result = .ok v)
      (h : ExprReads scopes (path ++ ["expr"]) (children.child "expr").children r) :
      StmtReads scopes path children r
  | eval {path : Path} {children : Forest} {r : Reading} (htag : StmtKind path children .eval)
      (h : ExprReads scopes (path ++ ["expr"]) (children.child "expr").children r) :
      StmtReads scopes path children r
  | start {path : Path} {children : Forest} {r : Reading} {key : String}
      (htag : StmtKind path children .loop)
      (hkey : ReachesStmt scopes (path ++ ["decl1"]) (children.child "decl1") key)
      (h : StmtReads scopes (path ++ ["decl1"] ++ [key])
        ((children.child "decl1").children.child key).children r) :
      StmtReads scopes path children r
  | slot {path : Path} {children : Forest} {r : Reading} {key : String}
      {earlier later : List String} (htag : StmtKind path children .loop)
      (hstart : StartRead scopes path children)
      (hkey : ["expr1", "expr2", "expr3"] = earlier ++ key :: later)
      (hearlier : SlotsRead scopes path children earlier)
      (h : ExprReads scopes (path ++ [key]) (children.child key).children r) :
      StmtReads scopes path children r
  | body {path : Path} {children : Forest} {r : Reading} {key : String}
      (htag : StmtKind path children .loop) (hstart : StartRead scopes path children)
      (hslots : SlotsRead scopes path children ["expr1", "expr2", "expr3"])
      (hkey : ReachesStmt scopes (path ++ ["body"]) (children.child "body") key)
      (h : StmtReads scopes (path ++ ["body"] ++ [key])
        ((children.child "body").children.child key).children r) :
      StmtReads scopes path children r
  | ret {path : Path} {children : Forest} {r : Reading} (htag : StmtKind path children .ret)
      (h : ExprReads scopes (path ++ ["expr"]) (children.child "expr").children r) :
      StmtReads scopes path children r

/-- Reading the list of statements at an entry comes to a name. -/
def StmtsRead (scopes : Scopes) (path : Path) (e : Entry) (r : Reading) : Prop :=
  ∃ key, ReachesStmt scopes path e key ∧
    StmtReads scopes (path ++ [key]) (e.children.child key).children r

/-! ## Declarations -/

/-- Reading the first value of a variable comes to a name. -/
structure VarReads (scopes : Scopes) (path : Path) (children : Forest) (r : Reading) : Prop where
  name : ∃ s, (string path children "name").result = .ok s
  type : ∃ s, (string path children "type").result = .ok s
  init : ExprReads scopes (path ++ ["init"]) (children.child "init").children r

/-- What a function starts with can be read. -/
structure HeadRead (path : Path) (children : Forest) : Prop where
  name : ∃ s, (string path children "name").result = .ok s
  returns : ∃ s, (string path children "return-type").result = .ok s
  isVariadic : ∃ b, (flag path children "variadic").result = .ok b
  isInline : ∃ b, (flag path children "inline").result = .ok b

def parametersOf (path : Path) (children : Forest) : Loading (Arena .parameter Parameter × Scope) :=
  let stored := (children.child "params").children
  stored.keys.foldlM (parameter (path ++ ["params"]) stored) ({}, {})

/-- Reads the locals at some keys, one after another. -/
def localsAt (globals scope : Scope) (path : Path) (children : Forest) (keys : List String) :
    Loading (Arena .localVar Variable × Scope) :=
  keys.foldlM (localVar globals (path ++ ["locals"]) (children.child "locals").children) ({}, scope)

/-- Reading a function comes to a name, in the first value of the local at a position or in the
body. -/
inductive FunctionReads (globals : Scope) (path : Path) (children : Forest) :
    Option Nat → Reading → Prop
  | localVar {j : Nat} {key : String} {parameters : Arena .parameter Parameter × Scope}
      {locals : Arena .localVar Variable × Scope} {r : Reading} (hhead : HeadRead path children)
      (hparameters : (parametersOf path children).result = .ok parameters)
      (hkey : (children.child "locals").children.keys[j]? = some key)
      (hlocals : (localsAt globals parameters.2 path children
        ((children.child "locals").children.keys.take j)).result = .ok locals)
      (h : VarReads ⟨globals, locals.2⟩ (path ++ ["locals"] ++ [key])
        ((children.child "locals").children.child key).children r) :
      FunctionReads globals path children (some j) r
  | body {parameters : Arena .parameter Parameter × Scope}
      {locals : Arena .localVar Variable × Scope} {r : Reading} (hhead : HeadRead path children)
      (hparameters : (parametersOf path children).result = .ok parameters)
      (hlocals : (localsAt globals parameters.2 path children
        (children.child "locals").children.keys).result = .ok locals)
      (h : StmtsRead ⟨globals, locals.2⟩ (path ++ ["body"]) (children.child "body") r) :
      FunctionReads globals path children none r

def globalsPath : Path := [Record.moduleKey, "globals"]

def functionsPath : Path := [Record.moduleKey, "funcs"]

def typesPath : Path := [Record.moduleKey, "typedefs"]

/-- What a module starts with can be read. -/
structure TypesRead (t : Forest) : Prop where
  name : ∃ s, (string [Record.moduleKey] (t.child Record.moduleKey).children "name").result = .ok s
  types : ∃ types, ((t.keysBelow typesPath).mapM
    (typeName typesPath (t.entry typesPath).children)).result = .ok types

/-- Reads the globals at some keys, one after another. -/
def globalsAt (t : Forest) (keys : List String) : Loading (Arena .global Variable × Scope) :=
  keys.foldlM (global globalsPath (t.entry globalsPath).children) ({}, {})

/-- Reads the functions at some keys, one after another. -/
def functionsAt (t : Forest) (scope : Scope) (keys : List String) :
    Loading (Arena .function Function × Scope) :=
  keys.foldlM (functionAt functionsPath (t.entry functionsPath).children) ({}, scope)

end Load

/-- The place inside a function: the first value of a local, or the body. -/
def Place.inFunction (k : Nat) : Option Nat → Place
  | some j => .localVar k j
  | none => .body k

namespace Load

/-- Loading comes to a name at a place. -/
inductive Reads (t : Forest) : Place → Reading → Prop
  | global {i : Nat} {key : String} {known : Arena .global Variable × Scope} {r : Reading}
      (htypes : TypesRead t) (hkey : t.globalKeys[i]? = some key)
      (hknown : (globalsAt t (t.globalKeys.take i)).result = .ok known)
      (h : VarReads ⟨known.2, {}⟩ (globalsPath ++ [key])
        ((t.entry globalsPath).children.child key).children r) :
      Reads t (.global i) r
  | function {k : Nat} {key : String} {globals : Arena .global Variable × Scope}
      {known : Arena .function Function × Scope} {part : Option Nat} {r : Reading}
      (htypes : TypesRead t) (hglobals : (globalsAt t t.globalKeys).result = .ok globals)
      (hkey : t.functionKeys[k]? = some key)
      (hknown : (functionsAt t globals.2 (t.functionKeys.take k)).result = .ok known)
      (h : FunctionReads (known.2.bind key (.function known.1.nextId)) (functionsPath ++ [key])
        ((t.entry functionsPath).children.child key).children part r) :
      Reads t (.inFunction k part) r

/-! ## What is found -/

theorem ExprReads.found_eq {scopes : Scopes} {path : Path} {children : Forest} {r : Reading}
    (h : ExprReads scopes path children r) : r.found = scopes.resolve r.use r.name := by
  induction h with
  | reference => rfl
  | lhs _ _ ih | rhs _ _ _ _ ih => exact ih

theorem StmtReads.found_eq {scopes : Scopes} {path : Path} {children : Forest} {r : Reading}
    (h : StmtReads scopes path children r) : r.found = scopes.resolve r.use r.name := by
  induction h with
  | target => rfl
  | value _ _ h | eval _ h | slot _ _ _ _ h | ret _ h => exact h.found_eq
  | start _ _ _ ih | body _ _ _ _ _ ih => exact ih

/-! ## Names that stand for nothing -/

/-- The computation ends in a fault if nothing is found for the name. -/
def Fails {α : Type} (r : Reading) (c : Loading α) : Prop :=
  ∀ reason, r.found = .error reason → c.result = .error (.unresolved r.path r.name reason)

section

variable {α β σ : Type} {r : Reading}

theorem Fails.bind {c : Loading α} (h : Fails r c) (next : α → Loading β) :
    Fails r (c >>= next) := fun reason hr => bind_of_error (h reason hr)

theorem Fails.after {c : Loading α} {next : α → Loading β} {x : α} (hc : c.result = .ok x)
    (h : Fails r (next x)) : Fails r (c >>= next) :=
  fun reason hr => (bind_of_ok hc).trans (h reason hr)

theorem Fails.mapM {f : α → Loading β} {before after : List α} {x : α}
    (hbefore : ∀ y ∈ before, ∃ z, (f y).result = .ok z) (h : Fails r (f x)) :
    Fails r ((before ++ x :: after).mapM f) := by
  induction before with
  | nil =>
    rw [List.nil_append, List.mapM_cons]
    exact h.bind _
  | cons y before ih =>
    obtain ⟨⟨z, hz⟩, hbefore⟩ := List.forall_mem_cons.1 hbefore
    rw [List.cons_append, List.mapM_cons]
    exact .after hz ((ih hbefore).bind _)

theorem Fails.foldlM {step : σ → α → Loading σ} {xs : List α} {i : Nat} {x : α} {s s' : σ}
    (hx : xs[i]? = some x) (hbefore : ((xs.take i).foldlM step s).result = .ok s')
    (h : Fails r (step s' x)) : Fails r (xs.foldlM step s) := by
  obtain ⟨hi, rfl⟩ := List.getElem?_eq_some_iff.1 hx
  have hsplit : xs.take i ++ xs[i] :: xs.drop (i + 1) = xs := by
    rw [← List.drop_eq_getElem_cons hi, List.take_append_drop]
  rw [← hsplit, List.foldlM_append]
  refine .after hbefore ?_
  rw [List.foldlM_cons]
  exact h.bind _

theorem fails_of_reference {find : String → Except ResolutionFault α} {path : Path}
    {children : Forest} {key name : String} (hname : (string path children key).result = .ok name)
    (hfind : ∀ reason, r.found = .error reason → find name = .error reason)
    (hpath : r.path = path ++ [key]) (hr : r.name = name) :
    Fails r (reference find path children key) := by
  refine .after hname fun reason hreason => ?_
  rw [hfind reason hreason, hpath, hr]
  rfl

end

section

variable {scopes : Scopes} {path : Path} {children : Forest} {r : Reading}

theorem ne_nil_of_string {key s : String} (h : (string path children key).result = .ok s) :
    children ≠ .nil := by
  rintro rfl
  cases h

/-- What is read of an expression or a statement after its kind. -/
theorem Fails.ofKind {α : Type} {word : String} {missing : Loading α} {next : String → Loading α}
    (hword : (string path children "type").result = .ok word) (h : Fails r (next word)) :
    Fails r (if _h : children = .nil then missing else string path children "type" >>= next) := by
  rw [dif_neg (ne_nil_of_string hword)]
  exact .after hword h

theorem ExprReads.ne_nil (h : ExprReads scopes path children r) : children ≠ .nil := by
  have hkind {path : Path} {children : Forest} {tag : ExprTag} (h : ExprKind path children tag) :
      children ≠ .nil := by
    obtain ⟨word, hword, -⟩ := h
    exact ne_nil_of_string hword
  cases h with
  | reference htag => exact hkind htag
  | lhs hop | rhs hop => cases hop <;> exact hkind ‹_›

theorem ExprReads.isPresent {e : Entry} (h : ExprReads scopes path e.children r) :
    e.isPresent = true :=
  Entry.isPresent_iff.2 fun he => h.ne_nil (congrArg Entry.children he)

theorem fails_of_exprReads (h : ExprReads scopes path children r) :
    Fails r (expr scopes path children) := by
  induction h with
  | reference htag hname =>
    obtain ⟨word, hword, htag⟩ := htag
    unfold expr
    refine .ofKind hword ?_
    rw [htag]
    exact (fails_of_reference hname (fun _ hreason => hreason) rfl rfl).bind _
  | lhs hop _ ih =>
    cases hop with
    | arithmetic htag hop | compare htag hop | assign htag hop =>
      obtain ⟨word, hword, htag⟩ := htag
      unfold expr
      refine .ofKind hword ?_
      rw [htag]
      exact .after hop (ih.bind _)
  | @rhs path children r needsFirst lhs hop hlhs hfirst hrhs ih =>
    cases hop with
    | arithmetic htag hop =>
      obtain ⟨word, hword, htag⟩ := htag
      obtain ⟨lhs, rfl⟩ := Option.ne_none_iff_exists'.1 (hfirst rfl)
      unfold expr
      refine .ofKind hword ?_
      rw [htag]
      refine .after hop (.after hlhs ?_)
      dsimp only
      split
      · rw [whenPresent, if_pos hrhs.isPresent]
        exact ih.bind _
      · exact ih.bind _
    | compare htag hop | assign htag hop =>
      obtain ⟨word, hword, htag⟩ := htag
      unfold expr
      refine .ofKind hword ?_
      rw [htag]
      exact .after hop (.after hlhs (ih.bind _))

theorem fails_of_slot {key : String}
    (h : ExprReads scopes (path ++ [key]) (children.child key).children r) :
    Fails r (slot scopes path children key) := by
  rw [slot, whenPresent, if_pos h.isPresent]
  exact fails_of_exprReads h

theorem fails_of_stmts {e : Entry} {key : String} (hkey : ReachesStmt scopes path e key)
    (h : Fails r (stmt scopes (path ++ [key]) (e.children.child key).children)) :
    Fails r (stmts scopes path e) := by
  obtain ⟨hvalue, before, after, hkeys, hbefore⟩ := hkey
  have hne : e.children ≠ .nil := by
    intro hnil
    rw [hnil] at hkeys
    exact List.append_ne_nil_of_right_ne_nil _ (List.cons_ne_nil _ _) hkeys.symm
  unfold stmts
  rw [dif_neg hne, hvalue]
  dsimp only
  rw [hkeys]
  exact (Fails.mapM hbefore h).bind _

theorem fails_of_stmtReads (h : StmtReads scopes path children r) :
    Fails r (stmt scopes path children) := by
  induction h with
  | target htag hname =>
    obtain ⟨word, hword, htag⟩ := htag
    unfold stmt
    refine .ofKind hword ?_
    rw [htag]
    refine .after rfl ((fails_of_reference hname ?_ rfl rfl).bind _)
    intro reason hreason
    rw [Scopes.resolve] at hreason
    cases hfind : scopes.variable? _ with
    | ok v => rw [hfind] at hreason; cases hreason
    | error => rw [hfind] at hreason; cases hreason; rfl
  | value htag htarget h =>
    obtain ⟨word, hword, htag⟩ := htag
    unfold stmt
    refine .ofKind hword ?_
    rw [htag]
    exact .after rfl (.after htarget ((fails_of_exprReads h).bind _))
  | eval htag h =>
    obtain ⟨word, hword, htag⟩ := htag
    unfold stmt
    refine .ofKind hword ?_
    rw [htag]
    exact .after rfl ((fails_of_exprReads h).bind _)
  | start htag hkey _ ih =>
    obtain ⟨word, hword, htag⟩ := htag
    unfold stmt
    refine .ofKind hword ?_
    rw [htag]
    exact .after rfl ((fails_of_stmts hkey ih).bind _)
  | @slot path children r key earlier later htag hstart hkey hearlier h =>
    obtain ⟨word, hword, htag⟩ := htag
    obtain ⟨start, hstart⟩ := hstart
    unfold stmt
    refine .ofKind hword ?_
    rw [htag]
    refine .after rfl (.after hstart ?_)
    -- The key is the one of the first, the second or the third expression of the head.
    rcases earlier with _ | ⟨first, _ | ⟨second, _ | ⟨third, earlier⟩⟩⟩
    · cases hkey
      exact (fails_of_slot h).bind _
    · cases hkey
      obtain ⟨cond, hcond⟩ := hearlier "expr1" (by simp)
      exact .after hcond ((fails_of_slot h).bind _)
    · cases hkey
      obtain ⟨cond, hcond⟩ := hearlier "expr1" (by simp)
      obtain ⟨test, htest⟩ := hearlier "expr2" (by simp)
      exact .after hcond (.after htest ((fails_of_slot h).bind _))
    · simp at hkey
  | body htag hstart hslots hkey _ ih =>
    obtain ⟨word, hword, htag⟩ := htag
    obtain ⟨start, hstart⟩ := hstart
    obtain ⟨cond, hcond⟩ := hslots "expr1" (by simp)
    obtain ⟨test, htest⟩ := hslots "expr2" (by simp)
    obtain ⟨step, hstep⟩ := hslots "expr3" (by simp)
    unfold stmt
    refine .ofKind hword ?_
    rw [htag]
    refine .after rfl (.after hstart (.after hcond (.after htest (.after hstep ?_))))
    exact (fails_of_stmts hkey ih).bind _
  | ret htag h =>
    obtain ⟨word, hword, htag⟩ := htag
    unfold stmt
    refine .ofKind hword ?_
    rw [htag]
    exact .after rfl ((fails_of_slot h).bind _)

theorem fails_of_varReads (h : VarReads scopes path children r) :
    Fails r (var scopes path children) := by
  obtain ⟨⟨name, hname⟩, ⟨type, htype⟩, hinit⟩ := h
  exact .after hname (.after htype ((fails_of_slot hinit).bind _))

end

theorem fails_of_functionReads {globals : Scope} {path : Path} {children : Forest}
    {part : Option Nat} {r : Reading} (h : FunctionReads globals path children part r) :
    Fails r (function globals path children) := by
  cases h with
  | localVar hhead hparameters hkey hlocals h =>
    obtain ⟨⟨name, hname⟩, ⟨returns, hreturns⟩, ⟨variadic, hvariadic⟩, ⟨inline, hinline⟩⟩ := hhead
    refine .after hname (.after hreturns (.after rfl (.after hvariadic (.after hinline
      (.after hparameters ?_)))))
    exact (Fails.foldlM hkey hlocals ((fails_of_varReads h).bind _)).bind _
  | body hhead hparameters hlocals h =>
    obtain ⟨⟨name, hname⟩, ⟨returns, hreturns⟩, ⟨variadic, hvariadic⟩, ⟨inline, hinline⟩⟩ := hhead
    obtain ⟨key, hkey, h⟩ := h
    refine .after hname (.after hreturns (.after rfl (.after hvariadic (.after hinline
      (.after hparameters (.after hlocals (.after rfl ?_)))))))
    exact (fails_of_stmts hkey (fails_of_stmtReads h)).bind _

/-- A name that nothing is found for ends the loading. -/
theorem fails_of_reads {t : Forest} {place : Place} {r : Reading} (h : Reads t place r) :
    Fails r (Module.load t) := by
  have hversion := (noteVersion_spec t).1
  cases h with
  | global htypes hkey hknown h =>
    obtain ⟨⟨name, hname⟩, ⟨types, htypes⟩⟩ := htypes
    refine .after hversion (.after hname (.after htypes ?_))
    exact (Fails.foldlM hkey hknown ((fails_of_varReads h).bind _)).bind _
  | function htypes hglobals hkey hknown h =>
    obtain ⟨⟨name, hname⟩, ⟨types, htypes⟩⟩ := htypes
    refine .after hversion (.after hname (.after htypes (.after hglobals ?_)))
    exact (Fails.foldlM hkey hknown ((fails_of_functionReads h).bind _)).bind _

end Load

end KeyedIR
