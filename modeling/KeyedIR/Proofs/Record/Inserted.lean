import KeyedIR.Proofs.Forest.Edits
import KeyedIR.Proofs.Record.Tasks
/-! # Unknown statements make no difference

A record of an unknown kind in a list of statements is left out. So where there are statements, one
more of that kind changes neither the module that is loaded nor the fault that ends the loading,
wherever the list stands and wherever in the list it is (`Module.load_insert_unknown`).
-/

namespace KeyedIR

set_option autoImplicit false

open Logged Loading

/-! ## Inserting -/

namespace Forest

/-- The forest with one more entry before the entry at a position, or else at the end. -/
def insertAt (key : String) (e : Entry) : Nat → Forest → Forest
  | 0, t => cons key e.value e.children t
  | _ + 1, nil => cons key e.value e.children nil
  | position + 1, cons key' value children rest =>
    cons key' value children (insertAt key e position rest)

/-- Replaces the forest below a path by a function of it. -/
def mapBelow (f : Forest → Forest) : Path → Forest → Forest
  | [], t => f t
  | key :: p, t => t.mapChildren key (mapBelow f p)

variable {t : Forest} {key : String}

theorem keys_insertAt (key : String) (e : Entry) (position : Nat) (t : Forest) :
    (insertAt key e position t).keys = t.keys.take position ++ key :: t.keys.drop position := by
  induction t generalizing position with
  | nil => cases position <;> rfl
  | cons key' value children rest _ ih =>
    cases position with
    | zero => rfl
    | succ position => exact congrArg (key' :: ·) (ih position)

theorem child_insertAt_self (h : key ∉ t.keys) (e : Entry) (position : Nat) :
    (insertAt key e position t).child key = e := by
  induction t generalizing position with
  | nil => cases position <;> exact if_pos rfl
  | cons key' value children rest _ ih =>
    rw [keys, List.mem_cons, not_or] at h
    cases position with
    | zero => exact if_pos rfl
    | succ position => rw [insertAt, child, if_neg (Ne.symm h.1), ih h.2]

theorem child_insertAt_of_ne {other : String} (h : other ≠ key) (e : Entry) (position : Nat)
    (t : Forest) : (insertAt key e position t).child other = t.child other := by
  induction t generalizing position with
  | nil => cases position <;> exact if_neg h.symm
  | cons key' value children rest _ ih =>
    cases position with
    | zero => exact if_neg h.symm
    | succ position => rw [insertAt, child, child, ih]

theorem child_mapChildren_of_mem (h : key ∈ t.keys) (f : Forest → Forest) :
    (t.mapChildren key f).child key = ⟨(t.child key).value, f (t.child key).children⟩ := by
  induction t with
  | nil => cases h
  | cons key' value children rest _ ih =>
    by_cases hkey : key' = key
    · simp [mapChildren, child, hkey]
    · have hrest : key ∈ rest.keys := (List.mem_cons.1 h).resolve_left (Ne.symm hkey)
      simp [mapChildren, child, hkey, ih hrest]

theorem eq_nil_iff_of_keys_eq {u : Forest} (h : t.keys = u.keys) : t = nil ↔ u = nil := by
  cases t <;> cases u <;> simp_all [keys]

/-- A key with something below it is there. -/
theorem mem_keys_of_descend {p : Path} (h : ((t.child key).descend p).children ≠ nil) :
    key ∈ t.keys := by
  by_contra hnew
  rw [child_of_not_mem hnew, Entry.descend_empty] at h
  exact h rfl

end Forest

namespace Logged

variable {ε α β : Type}

/-- An element that comes to nothing is not seen in what is left of the results. -/
theorem result_mapM_insert {f : α → Logged ε (Option β)} {x : α} (hx : (f x).result = .ok none)
    (before after : List α) :
    ((before ++ x :: after).mapM f).result.map List.reduceOption =
      ((before ++ after).mapM f).result.map List.reduceOption := by
  induction before with
  | nil =>
    rw [List.nil_append, List.nil_append, List.mapM_cons, bind_of_ok hx, result_bind]
    cases (after.mapM f).result <;> rfl
  | cons y before ih =>
    rw [List.cons_append, List.cons_append, List.mapM_cons, List.mapM_cons, result_bind,
      result_bind]
    cases (f y).result with
    | error e => rfl
    | ok z =>
      have hcons (c : Logged ε (List (Option β))) :
          (c >>= fun rest => pure (z :: rest)).result.map List.reduceOption =
            (c.result.map List.reduceOption).map (z.toList ++ ·) := by
        rw [result_bind]
        cases c.result with
        | error e => rfl
        | ok rest => cases z <;> rfl
      exact (hcons _).trans ((congrArg _ ih).trans (hcons _).symm)

end Logged

namespace Load

variable {t u : Forest} {path : Path}

/-! ## Records that differ in their lists -/

theorem string_of_child_eq {key : String} (h : t.child key = u.child key) (path : Path) :
    string path t key = string path u key := by
  rw [string, string, h]

theorem reference_of_child_eq {α : Type} (find : String → Except ResolutionFault α) {key : String}
    (h : t.child key = u.child key) (path : Path) :
    reference find path t key = reference find path u key := by
  rw [reference, reference, string_of_child_eq h]

theorem slot_of_child_eq (scopes : Scopes) {key : String} (h : t.child key = u.child key)
    (path : Path) : slot scopes path t key = slot scopes path u key := by
  rw [slot, slot, h]

/-- Statements that differ only in their lists, and these have the same results. -/
theorem result_stmt_congr (scopes : Scopes) (hkeys : t.keys = u.keys)
    (hfields : ∀ key, key ≠ "decl1" → key ≠ "body" → t.child key = u.child key)
    (hlists : ∀ key, key = "decl1" ∨ key = "body" →
      (stmts scopes (path ++ [key]) (t.child key)).result =
        (stmts scopes (path ++ [key]) (u.child key)).result) :
    (stmt scopes path t).result = (stmt scopes path u).result := by
  by_cases hnil : t = .nil
  · rw [hnil, (Forest.eq_nil_iff_of_keys_eq hkeys).1 hnil]
  have htype := hfields "type" (by decide) (by decide)
  have hvar := hfields "var" (by decide) (by decide)
  have hexpr := hfields "expr" (by decide) (by decide)
  have hfirst := hfields "expr1" (by decide) (by decide)
  have hsecond := hfields "expr2" (by decide) (by decide)
  have hthird := hfields "expr3" (by decide) (by decide)
  rw [stmt.eq_def scopes path t, stmt.eq_def scopes path u, dif_neg hnil,
    dif_neg fun hu => hnil ((Forest.eq_nil_iff_of_keys_eq hkeys).2 hu), string_of_child_eq htype]
  refine result_bind_congr rfl fun word => ?_
  split
  · rfl
  · refine result_bind_congr rfl fun _ => ?_
    split
    case h_1 => rw [reference_of_child_eq _ hvar, hexpr]
    case h_2 => rw [hexpr]
    case h_3 =>
      refine result_bind_congr (hlists _ (.inl rfl)) fun start => ?_
      rw [slot_of_child_eq scopes hfirst, slot_of_child_eq scopes hsecond,
        slot_of_child_eq scopes hthird]
      refine result_bind_congr rfl fun cond => result_bind_congr rfl fun test =>
        result_bind_congr rfl fun step => ?_
      exact result_bind_congr (hlists _ (.inr rfl)) fun body => rfl
    case h_4 => rw [slot_of_child_eq scopes hexpr]

/-- A statement with another list at one of its keys, if that has the same result. -/
theorem result_stmt_mapChildren (scopes : Scopes) {field : String}
    (hfield : field = "decl1" ∨ field = "body") (hmem : field ∈ t.keys) {f : Forest → Forest}
    (hlist : (stmts scopes (path ++ [field])
        ⟨(t.child field).value, f (t.child field).children⟩).result =
      (stmts scopes (path ++ [field]) (t.child field)).result) :
    (stmt scopes path (t.mapChildren field f)).result = (stmt scopes path t).result := by
  refine result_stmt_congr scopes (Forest.keys_mapChildren t field f) (fun key hstart hbody => ?_)
    fun key _ => ?_
  · apply Forest.child_mapChildren_of_ne
    rintro rfl
    exact hfield.elim hstart hbody
  · by_cases hkey : key = field
    · subst hkey
      rw [Forest.child_mapChildren_of_mem hmem]
      exact hlist
    · rw [Forest.child_mapChildren_of_ne t hkey]

/-- What the statements of a list come to, if the list has a statement and no value. -/
theorem result_stmts_of_ne_nil (scopes : Scopes) (path : Path) {e : Entry}
    (hnil : e.children ≠ .nil) : (stmts scopes path e).result =
      match e.value with
      | some found => .error (.invalidStatementList path found)
      | none => (e.children.keys.mapM fun key =>
          stmt scopes (path ++ [key]) (e.children.child key).children).result.map
            List.reduceOption := by
  unfold stmts
  rw [dif_neg hnil]
  cases e.value with
  | some found => rfl
  | none =>
    dsimp only
    rw [result_bind]
    cases (e.children.keys.mapM fun key =>
      stmt scopes (path ++ [key]) (e.children.child key).children).result <;> rfl

/-! ## Lists with one more record -/

/-- The record of a statement of an unknown kind. -/
def IsUnknown (e : Entry) : Prop :=
  ∃ word, (e.children.child "type").value = some (.string word) ∧ ∀ tag : StmtTag, tag.word ≠ word

theorem stmt_of_isUnknown {e : Entry} (h : IsUnknown e) (scopes : Scopes) (path : Path) :
    (stmt scopes path e.children).result = .ok none := by
  obtain ⟨word, hword, hunknown⟩ := h
  have hnil : e.children ≠ .nil := by
    intro hnil
    rw [hnil] at hword
    cases hword
  have hread : (string path e.children "type").result = .ok word := by
    rw [string, Entry.stringAt, Entry.valueAt, hword]
    rfl
  have htag : StmtTag.ofWord? word = none := by
    rw [StmtTag.ofWord?, List.find?_eq_none]
    intro tag _ htag
    exact hunknown tag (beq_iff_eq.1 htag)
  unfold stmt
  rw [dif_neg hnil, bind_of_ok hread, htag]
  rfl

/-- The ways from a list of statements to the lists in its statements: to itself, or on from the
head or the body of a loop. -/
inductive ListPath : Path → Prop
  | here : ListPath []
  | inside (key : String) {field : String} (hfield : field = "decl1" ∨ field = "body") {p : Path}
      (h : ListPath p) : ListPath (key :: field :: p)

section

variable {key : String} {record : Entry} (hrecord : IsUnknown record) (position : Nat)
include hrecord

/-- One more record in a list. -/
theorem result_stmts_insertAt (scopes : Scopes) (path : Path) {e : Entry}
    (hnil : e.children ≠ .nil) (hnew : key ∉ e.children.keys) :
    (stmts scopes path ⟨e.value, e.children.insertAt key record position⟩).result =
      (stmts scopes path e).result := by
  have hnil' : e.children.insertAt key record position ≠ .nil := by
    intro h
    have hkeys := Forest.keys_insertAt key record position e.children
    rw [h] at hkeys
    simp [Forest.keys] at hkeys
  rw [result_stmts_of_ne_nil scopes path hnil, result_stmts_of_ne_nil scopes path hnil']
  cases e.value with
  | some found => rfl
  | none =>
    dsimp only
    -- The other records are read as before, and the new one comes to nothing.
    have hother (other : String) (h : other ∈ e.children.keys) :
        (e.children.insertAt key record position).child other = e.children.child other := by
      apply Forest.child_insertAt_of_ne
      rintro rfl
      exact hnew h
    have hself : (stmt scopes (path ++ [key])
        ((e.children.insertAt key record position).child key).children).result = .ok none := by
      rw [Forest.child_insertAt_self hnew]
      exact stmt_of_isUnknown hrecord scopes _
    rw [Forest.keys_insertAt]
    refine Eq.trans (result_mapM_insert ?_ _ _) ?_
    · exact hself
    · rw [List.take_append_drop]
      refine congrArg (Except.map List.reduceOption) (result_mapM_congr fun other h => ?_)
      rw [hother other h]

/-- One more record in a list below the entry of a list. -/
theorem result_stmts_mapBelow (scopes : Scopes) {p : Path} (hp : ListPath p) (path : Path)
    {e : Entry} (hnil : (e.descend p).children ≠ .nil)
    (hnew : key ∉ (e.descend p).children.keys) :
    (stmts scopes path
        ⟨e.value, e.children.mapBelow (Forest.insertAt key record position) p⟩).result =
      (stmts scopes path e).result := by
  induction hp generalizing path e with
  | here => exact result_stmts_insertAt hrecord position scopes path hnil hnew
  | @inside step field hfield p hp ih =>
    rw [Entry.descend_cons, Entry.descend_cons] at hnil hnew
    have hfieldMem : field ∈ (e.children.child step).children.keys :=
      Forest.mem_keys_of_descend hnil
    have hstepMem : step ∈ e.children.keys := Forest.mem_keys_of_descend (p := field :: p) hnil
    have hne : e.children ≠ .nil := by
      intro hempty
      rw [hempty] at hstepMem
      cases hstepMem
    have hkeys : (e.children.mapBelow (Forest.insertAt key record position)
        (step :: field :: p)).keys = e.children.keys := Forest.keys_mapChildren ..
    rw [result_stmts_of_ne_nil scopes path hne, result_stmts_of_ne_nil scopes path
      (mt (Forest.eq_nil_iff_of_keys_eq hkeys).1 hne), hkeys]
    cases e.value with
    | some found => rfl
    | none =>
      refine congrArg (Except.map List.reduceOption) (result_mapM_congr fun other h => ?_)
      by_cases hother : other = step
      · subst hother
        rw [Forest.mapBelow, Forest.child_mapChildren_of_mem h]
        exact result_stmt_mapChildren scopes hfield hfieldMem (ih _ hnil hnew)
      · rw [Forest.mapBelow, Forest.child_mapChildren_of_ne _ hother]

end

/-! ## Declarations -/

theorem flag_of_child_eq {key : String} (h : t.child key = u.child key) (path : Path) :
    flag path t key = flag path u key := by
  unfold flag
  rw [h]

/-- A function with another body that has the same result. -/
theorem result_function_mapChildren (globals : Scope) (hmem : "body" ∈ t.keys)
    {f : Forest → Forest}
    (hbody : ∀ scopes, (stmts scopes (path ++ ["body"])
        ⟨(t.child "body").value, f (t.child "body").children⟩).result =
      (stmts scopes (path ++ ["body"]) (t.child "body")).result) :
    (function globals path (t.mapChildren "body" f)).result =
      (function globals path t).result := by
  have hfield (key : String) (hkey : key ≠ "body") :
      (t.mapChildren "body" f).child key = t.child key :=
    Forest.child_mapChildren_of_ne t hkey f
  unfold function
  rw [string_of_child_eq (hfield "name" (by decide)),
    string_of_child_eq (hfield "return-type" (by decide)),
    flag_of_child_eq (hfield "variadic" (by decide)),
    flag_of_child_eq (hfield "inline" (by decide)), hfield "params" (by decide),
    hfield "locals" (by decide), Forest.child_mapChildren_of_mem hmem]
  refine result_bind_congr rfl fun name => result_bind_congr rfl fun returns =>
    result_bind_congr rfl fun _ => result_bind_congr rfl fun isVariadic =>
    result_bind_congr rfl fun isInline => result_bind_congr rfl fun parameters =>
    result_bind_congr rfl fun locals => result_bind_congr rfl fun _ => ?_
  exact result_bind_congr (hbody _) fun body => rfl

/-- A list of functions with another function at one of its keys. -/
theorem result_functions_mapChildren {key : String} (hmem : key ∈ t.keys) {f : Forest → Forest}
    (hfunction : ∀ globals, (function globals (path ++ [key]) (f (t.child key).children)).result =
      (function globals (path ++ [key]) (t.child key).children).result)
    (known : Arena .function Function × Scope) :
    ((t.mapChildren key f).keys.foldlM (functionAt path (t.mapChildren key f)) known).result =
      (t.keys.foldlM (functionAt path t) known).result := by
  rw [Forest.keys_mapChildren]
  refine result_foldlM_congr (fun known other _ => ?_) known
  unfold functionAt
  refine result_bind_congr ?_ fun _ => rfl
  by_cases hother : other = key
  · subst hother
    rw [Forest.child_mapChildren_of_mem hmem]
    exact hfunction _
  · rw [Forest.child_mapChildren_of_ne t hother]

/-- A module with another list of functions that has the same result. -/
theorem result_module_mapChildren (hmem : "funcs" ∈ t.keys) {f : Forest → Forest}
    (hfunctions : ∀ known, ((f (t.child "funcs").children).keys.foldlM
        (functionAt functionsPath (f (t.child "funcs").children)) known).result =
      ((t.child "funcs").children.keys.foldlM
        (functionAt functionsPath (t.child "funcs").children) known).result) :
    (module (t.mapChildren "funcs" f)).result = (module t).result := by
  have hfield (key : String) (hkey : key ≠ "funcs") :
      (t.mapChildren "funcs" f).child key = t.child key :=
    Forest.child_mapChildren_of_ne t hkey f
  unfold module
  dsimp only
  rw [string_of_child_eq (hfield "name" (by decide)), hfield "typedefs" (by decide),
    hfield "globals" (by decide), Forest.child_mapChildren_of_mem hmem]
  refine result_bind_congr rfl fun name => result_bind_congr rfl fun types =>
    result_bind_congr rfl fun globals => ?_
  exact result_bind_congr (hfunctions _) fun functions => rfl

/-- The paths of lists of statements: the body of a function and the lists in the statements
there. -/
def IsListPath (path : Path) : Prop :=
  ∃ name p, path = functionsPath ++ [name, "body"] ++ p ∧ ListPath p

end Load

/-- If a record of an unknown kind is put anywhere between the statements of a list, at a new key,
the same module is loaded, or loading ends in the same fault. The list can be the body of a function
or stand at any depth in one, but it has to have a record before. -/
theorem Module.load_insert_unknown {t : Forest} {path : Path} (hpath : Load.IsListPath path)
    (hrecords : t.keysBelow path ≠ []) {key : String} (hnew : key ∉ t.keysBelow path)
    {record : Entry} (hrecord : Load.IsUnknown record) (position : Nat) :
    (load (t.mapBelow (Forest.insertAt key record position) path)).result = (load t).result := by
  obtain ⟨name, p, rfl, hp⟩ := hpath
  have hnil : (t.entry (Load.functionsPath ++ [name, "body"] ++ p)).children ≠ .nil := by
    intro hempty
    rw [Forest.keysBelow, hempty] at hrecords
    exact hrecords rfl
  -- Each key on the way down is there, since something is stored below it.
  have hmodule : Record.moduleKey ∈ t.keys :=
    Forest.mem_keys_of_descend (p := ["funcs", name, "body"] ++ p) hnil
  have hfuncs : "funcs" ∈ (t.child Record.moduleKey).children.keys :=
    Forest.mem_keys_of_descend (p := [name, "body"] ++ p) hnil
  have hname : name ∈ ((t.child Record.moduleKey).children.child "funcs").children.keys :=
    Forest.mem_keys_of_descend (p := ["body"] ++ p) hnil
  have hbody : "body" ∈ (((t.child Record.moduleKey).children.child "funcs").children.child
      name).children.keys := Forest.mem_keys_of_descend (p := p) hnil
  rw [Load.result_load, Load.result_load]
  refine (congrArg (fun e : Entry => (Load.module e.children).result)
    (Forest.child_mapChildren_of_mem hmodule _)).trans ?_
  refine Load.result_module_mapChildren hfuncs fun known => ?_
  refine Load.result_functions_mapChildren hname (fun globals => ?_) known
  refine Load.result_function_mapChildren globals hbody fun scopes => ?_
  exact Load.result_stmts_mapBelow hrecord position scopes hp _ hnil hnew

/-- A statement of an unknown kind is put last into the head of a loop, once where the module is
loaded and once where a reference behind it cannot be resolved. -/
theorem Module.load_insert_unknown_nested :
    let field (key word : String) := Forest.leaf key (.string word)
    let use (name : String) := Forest.branch "expr" (field "type" "ident-expr" ++ field "ref" name)
    let t (name : String) := Forest.branch "module" (field "name" "m" ++ .branch "funcs"
      (.branch "f0" (field "name" "f" ++ field "return-type" "int" ++ .branch "body"
        (.branch "s0" (field "type" "for-stmt" ++
          .branch "decl1" (.branch "a" (field "type" "goto-stmt")) ++ field "body" "empty") ++
          .branch "s1" (field "type" "expr-stmt" ++ use name)))))
    let path : Path := ["module", "funcs", "f0", "body", "s0", "decl1"]
    let inserted (name : String) := (t name).mapBelow
      (.insertAt "b" ⟨none, field "type" "asm" ++ use "g7"⟩ 1) path
    (inserted "f0").keysBelow path = ["a", "b"] ∧
      (load (inserted "f0")).result = .ok { name := "m", functions := ⟨#[{
        name := "f", returns := { name := "int" },
        body := [.loop [] none none none [], .eval (.ref (.function ⟨0⟩))] }]⟩ } ∧
      (load (inserted "g0")).result = .error
        (.unresolved ["module", "funcs", "f0", "body", "s1", "expr", "ref"] "g0" .unbound) := by
  intro field use t path inserted
  have hpath : Load.IsListPath path := ⟨"f0", ["s0", "decl1"], rfl, .inside "s0" (.inl rfl) .here⟩
  have hrecord : Load.IsUnknown ⟨none, field "type" "asm" ++ use "g7"⟩ := by
    refine ⟨"asm", rfl, fun tag => ?_⟩
    cases tag <;> decide
  have hkeys (name : String) : (t name).keysBelow path = ["a"] := rfl
  have hsame (name : String) : (load (inserted name)).result = (load (t name)).result := by
    apply load_insert_unknown hpath _ _ hrecord 1
    · rw [hkeys]
      exact List.cons_ne_nil _ _
    · rw [hkeys]
      decide
  refine ⟨rfl, ?_, ?_⟩
  · rw [hsame]
    cbv
  · rw [hsame]
    cbv

end KeyedIR
