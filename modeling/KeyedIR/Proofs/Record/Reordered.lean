import KeyedIR.Proofs.Forest.Keys
import KeyedIR.Proofs.Record.Logs
/-! # What loading depends on

Loading looks at the record below `module` and at the version, and the version only makes it warn.
Of the record it sees the order of the lists, of declarations and of statements, but not the order
of the fields of a record: two forests that differ in nothing else below `module` are loaded in the
same way (`Module.load_of_reorders`).
-/

namespace KeyedIR

set_option autoImplicit false

open Logged Loading

/-! ## Forms -/

/-- What a forest below `module` is read as: the fields of a record, or a list of items that have a
form themselves. Declarations without an expression only have plain fields. -/
inductive Form where
  | module | function | var | fields | stmt | expr
  | list (item : Form)
  | plain

namespace Form

/-- The order of the fields of a record is not looked at. -/
def isRecord : Form → Bool
  | module | function | var | fields | stmt | expr => true
  | list _ | plain => false

/-- The form of what is stored below a key. -/
def ofKey : Form → String → Form
  | module, "typedefs" => list fields
  | module, "globals" => list var
  | module, "funcs" => list function
  | function, "params" => list fields
  | function, "locals" => list var
  | function, "body" | stmt, "decl1" | stmt, "body" => list stmt
  | var, "init" | stmt, "expr" | stmt, "expr1" | stmt, "expr2" | stmt, "expr3"
  | expr, "lhs" | expr, "rhs" => expr
  | list item, _ => item
  | _, _ => plain

end Form

namespace Forest

/-- Two forests are the same up to the order of the fields of records, where the first one is read
as the given form. -/
inductive Reorders : Form → Forest → Forest → Prop
  | nil (form : Form) : Reorders form nil nil
  | cons {form : Form} {key : String} {value : Option Value}
      {children children' rest rest' : Forest}
      (hchildren : Reorders (form.ofKey key) children children')
      (hrest : Reorders form rest rest') :
      Reorders form (cons key value children rest) (cons key value children' rest')
  | swap {form : Form} (hrecord : form.isRecord = true) (key key' : String)
      (value value' : Option Value) (children children' rest : Forest) :
      Reorders form (cons key value children (cons key' value' children' rest))
        (cons key' value' children' (cons key value children rest))
  | trans {form : Form} {t u v : Forest} (first : Reorders form t u) (second : Reorders form u v) :
      Reorders form t v

theorem child_swap {key₁ key₂ : String} (hne : key₁ ≠ key₂) (value₁ value₂ : Option Value)
    (children₁ children₂ rest : Forest) (key : String) :
    (cons key₁ value₁ children₁ (cons key₂ value₂ children₂ rest)).child key =
      (cons key₂ value₂ children₂ (cons key₁ value₁ children₁ rest)).child key := by
  by_cases h₁ : key₁ = key
  · have h₂ : key₂ ≠ key := fun heq => hne (h₁.trans heq.symm)
    simp only [child, if_pos h₁, if_neg h₂]
  · simp only [child, if_neg h₁]

namespace Reorders

variable {form : Form} {t u : Forest}

theorem refl (form : Form) (t : Forest) : Reorders form t t := by
  induction t generalizing form with
  | nil => exact .nil form
  | cons key value children rest ihchildren ihrest => exact .cons (ihchildren _) (ihrest _)

theorem keys_perm (h : Reorders form t u) : t.keys.Perm u.keys := by
  induction h with
  | nil => exact .nil
  | cons _ _ _ ihrest => exact ihrest.cons _
  | swap => exact .swap _ _ _
  | trans _ _ ihfirst ihsecond => exact ihfirst.trans ihsecond

/-- A list keeps its order. -/
theorem keys_eq (h : Reorders form t u) (hlist : form.isRecord = false) : t.keys = u.keys := by
  induction h with
  | nil => rfl
  | cons _ _ _ ihrest => rw [keys, keys, ihrest hlist]
  | swap hrecord => rw [hlist] at hrecord; cases hrecord
  | trans _ _ ihfirst ihsecond => exact (ihfirst hlist).trans (ihsecond hlist)

theorem isEmpty_eq (h : Reorders form t u) : t.isEmpty = u.isEmpty := by
  induction h with
  | nil | cons | swap => rfl
  | trans _ _ ihfirst ihsecond => exact ihfirst.trans ihsecond

theorem eq_nil_iff (h : Reorders form t u) : t = Forest.nil ↔ u = Forest.nil := by
  have hempty := h.isEmpty_eq
  cases t <;> cases u <;> simp_all [isEmpty]

theorem distinct (h : Reorders form t u) (ht : t.Distinct) : u.Distinct := by
  induction h with
  | nil => exact ht
  | cons _ hrest ihchildren ihrest =>
    exact ⟨fun hmem => ht.1 (hrest.keys_perm.mem_iff.2 hmem), ihchildren ht.2.1, ihrest ht.2.2⟩
  | swap _ key key' =>
    obtain ⟨hnew, hchildren, hnew', hchildren', hrest⟩ := ht
    rw [keys, List.mem_cons, not_or] at hnew
    refine ⟨?_, hchildren', hnew.2, hchildren, hrest⟩
    rw [keys, List.mem_cons, not_or]
    exact ⟨Ne.symm hnew.1, hnew'⟩
  | trans _ _ ihfirst ihsecond => exact ihsecond (ihfirst ht)

/-- The entries of a key have equal values, and their children are the same up to order again. -/
theorem child (h : Reorders form t u) (ht : t.Distinct) (key : String) :
    (t.child key).value = (u.child key).value ∧
      Reorders (form.ofKey key) (t.child key).children (u.child key).children := by
  induction h with
  | nil => exact ⟨rfl, .nil _⟩
  | @cons _ key' _ _ _ _ _ hchildren _ _ ihrest =>
    by_cases hkey : key' = key
    · subst hkey
      rw [Forest.child, Forest.child, if_pos rfl, if_pos rfl]
      exact ⟨rfl, hchildren⟩
    · rw [Forest.child, Forest.child, if_neg hkey, if_neg hkey]
      exact ihrest ht.2.2
  | swap _ key₁ key₂ =>
    have hne : key₁ ≠ key₂ := fun heq => ht.1 (heq ▸ List.mem_cons_self)
    rw [child_swap hne]
    exact ⟨rfl, refl _ _⟩
  | trans hfirst _ ihfirst ihsecond =>
    obtain ⟨hvalue, hchildren⟩ := ihfirst ht
    obtain ⟨hvalue', hchildren'⟩ := ihsecond (hfirst.distinct ht)
    exact ⟨hvalue.trans hvalue', hchildren.trans hchildren'⟩

end Reorders

end Forest

namespace Load

variable {form : Form} {t u : Forest}

open Forest (Reorders)

/-! ## Fields -/

theorem valueAt_of_reorders (h : Reorders form t u) (ht : t.Distinct) (path : Path)
    (key : String) : (t.child key).valueAt path = (u.child key).valueAt path := by
  rw [Entry.valueAt, Entry.valueAt, (h.child ht key).1]

theorem string_of_reorders (h : Reorders form t u) (ht : t.Distinct) (path : Path)
    (key : String) : string path t key = string path u key := by
  rw [string, string, Entry.stringAt, Entry.stringAt, valueAt_of_reorders h ht]

theorem reference_of_reorders {α : Type} (find : String → Except ResolutionFault α)
    (h : Reorders form t u) (ht : t.Distinct) (path : Path) (key : String) :
    reference find path t key = reference find path u key := by
  rw [reference, reference, string_of_reorders h ht]

theorem operator_of_reorders {α : Type} (family : OperatorFamily) (ofWord? : String → Option α)
    (h : Reorders form t u) (ht : t.Distinct) (path : Path) :
    operator family ofWord? path t = operator family ofWord? path u := by
  rw [operator, operator, string_of_reorders h ht]

theorem flag_of_reorders (h : Reorders form t u) (ht : t.Distinct) (path : Path) (key : String) :
    flag path t key = flag path u key := by
  simp only [flag, Entry.intAt, valueAt_of_reorders h ht, (h.child ht key).1]

theorem int32_of_reorders (h : Reorders form t u) (ht : t.Distinct) (path : Path) :
    int32 path t = int32 path u := by
  rw [int32, int32, Entry.intAt, Entry.intAt, valueAt_of_reorders h ht]

theorem isPresent_of_reorders (h : Reorders form t u) (ht : t.Distinct) (key : String) :
    (t.child key).isPresent = (u.child key).isPresent := by
  obtain ⟨hvalue, hchildren⟩ := h.child ht key
  rw [Entry.isPresent, Entry.isPresent, hvalue, hchildren.isEmpty_eq]

/-! ## Expressions and statements -/

theorem expr_of_reorders (scopes : Scopes) {t u : Forest} (h : Reorders .expr t u)
    (ht : t.Distinct) (path : Path) : expr scopes path t = expr scopes path u := by
  by_cases hnil : t = .nil
  · rw [hnil, h.eq_nil_iff.1 hnil]
  have hlhs (path : Path) : expr scopes path (t.child "lhs").children =
      expr scopes path (u.child "lhs").children :=
    have := Forest.size_child_lt hnil "lhs"
    expr_of_reorders scopes (h.child ht "lhs").2 (ht.child "lhs") path
  have hrhs (path : Path) : expr scopes path (t.child "rhs").children =
      expr scopes path (u.child "rhs").children :=
    have := Forest.size_child_lt hnil "rhs"
    expr_of_reorders scopes (h.child ht "rhs").2 (ht.child "rhs") path
  rw [expr.eq_def scopes path t, expr.eq_def scopes path u, dif_neg hnil,
    dif_neg fun hu => hnil (h.eq_nil_iff.2 hu)]
  simp only [string_of_reorders h ht, reference_of_reorders _ h ht, int32_of_reorders h ht,
    operator_of_reorders _ _ h ht, isPresent_of_reorders h ht, hlhs, hrhs, Entry.floatAt,
    valueAt_of_reorders h ht]
termination_by t.size

theorem slot_of_reorders (scopes : Scopes) {key : String} (hkey : form.ofKey key = .expr)
    (h : Reorders form t u) (ht : t.Distinct) (path : Path) :
    slot scopes path t key = slot scopes path u key := by
  have hchild := (h.child ht key).2
  rw [hkey] at hchild
  rw [slot, slot, isPresent_of_reorders h ht, expr_of_reorders scopes hchild (ht.child key)]

mutual

theorem stmt_of_reorders (scopes : Scopes) {t u : Forest} (h : Reorders .stmt t u)
    (ht : t.Distinct) (path : Path) : stmt scopes path t = stmt scopes path u := by
  by_cases hnil : t = .nil
  · rw [hnil, h.eq_nil_iff.1 hnil]
  have hexpr (path : Path) : expr scopes path (t.child "expr").children =
      expr scopes path (u.child "expr").children :=
    expr_of_reorders scopes (h.child ht "expr").2 (ht.child "expr") path
  have hslot (key : String) (hkey : Form.stmt.ofKey key = .expr) (path : Path) :
      slot scopes path t key = slot scopes path u key :=
    slot_of_reorders scopes hkey h ht path
  have hstart (path : Path) : stmts scopes path (t.child "decl1") =
      stmts scopes path (u.child "decl1") := by
    have := Forest.size_child_lt hnil "decl1"
    obtain ⟨hvalue, hchildren⟩ := h.child ht "decl1"
    exact stmts_of_reorders scopes hvalue hchildren (ht.child "decl1") path
  have hbody (path : Path) : stmts scopes path (t.child "body") =
      stmts scopes path (u.child "body") := by
    have := Forest.size_child_lt hnil "body"
    obtain ⟨hvalue, hchildren⟩ := h.child ht "body"
    exact stmts_of_reorders scopes hvalue hchildren (ht.child "body") path
  rw [stmt.eq_def scopes path t, stmt.eq_def scopes path u, dif_neg hnil,
    dif_neg fun hu => hnil (h.eq_nil_iff.2 hu)]
  simp only [string_of_reorders h ht, reference_of_reorders _ h ht, hexpr, hstart, hbody,
    hslot "expr" rfl, hslot "expr1" rfl, hslot "expr2" rfl, hslot "expr3" rfl]
termination_by 2 * t.size

theorem stmts_of_reorders (scopes : Scopes) {e e' : Entry} (hvalue : e.value = e'.value)
    (h : Reorders (.list .stmt) e.children e'.children) (he : e.children.Distinct) (path : Path) :
    stmts scopes path e = stmts scopes path e' := by
  by_cases hnil : e.children = .nil
  · rw [stmts.eq_def scopes path e, stmts.eq_def scopes path e', dif_pos hnil,
      dif_pos (h.eq_nil_iff.1 hnil), hvalue]
  have hstmt (key : String) : stmt scopes (path ++ [key]) (e.children.child key).children =
      stmt scopes (path ++ [key]) (e'.children.child key).children :=
    have := Forest.size_child_lt hnil key
    stmt_of_reorders scopes (h.child he key).2 (he.child key) _
  rw [stmts.eq_def scopes path e, stmts.eq_def scopes path e', dif_neg hnil,
    dif_neg fun hu => hnil (h.eq_nil_iff.2 hu), hvalue, h.keys_eq rfl]
  simp only [hstmt]
termination_by 2 * e.children.size + 1

end

/-! ## Declarations -/

theorem var_of_reorders (scopes : Scopes) (h : Reorders .var t u) (ht : t.Distinct)
    (path : Path) : var scopes path t = var scopes path u := by
  have hinit : slot scopes path t "init" = slot scopes path u "init" :=
    slot_of_reorders scopes rfl h ht path
  simp only [var, string_of_reorders h ht, hinit]

theorem typeName_of_reorders (h : Reorders (.list .fields) t u) (ht : t.Distinct) (path : Path) :
    typeName path t = typeName path u := by
  funext key
  simp only [typeName, string_of_reorders (h.child ht key).2 (ht.child key)]

theorem parameter_of_reorders (h : Reorders (.list .fields) t u) (ht : t.Distinct) (path : Path) :
    parameter path t = parameter path u := by
  funext known key
  simp only [parameter, string_of_reorders (h.child ht key).2 (ht.child key)]

theorem localVar_of_reorders (globals : Scope) (h : Reorders (.list .var) t u) (ht : t.Distinct)
    (path : Path) : localVar globals path t = localVar globals path u := by
  funext known key
  rw [localVar, localVar, var_of_reorders _ (h.child ht key).2 (ht.child key)]

theorem global_of_reorders (h : Reorders (.list .var) t u) (ht : t.Distinct) (path : Path) :
    global path t = global path u := by
  funext known key
  rw [global, global, var_of_reorders _ (h.child ht key).2 (ht.child key)]

theorem function_of_reorders (globals : Scope) (h : Reorders .function t u) (ht : t.Distinct)
    (path : Path) : function globals path t = function globals path u := by
  obtain ⟨-, hparams⟩ := h.child ht "params"
  obtain ⟨-, hlocals⟩ := h.child ht "locals"
  obtain ⟨hvalue, hbody⟩ := h.child ht "body"
  simp only [function, string_of_reorders h ht, flag_of_reorders h ht,
    parameter_of_reorders hparams (ht.child "params"), hparams.keys_eq rfl,
    localVar_of_reorders globals hlocals (ht.child "locals"), hlocals.keys_eq rfl,
    stmts_of_reorders _ hvalue hbody (ht.child "body")]

theorem functionAt_of_reorders (h : Reorders (.list .function) t u) (ht : t.Distinct)
    (path : Path) : functionAt path t = functionAt path u := by
  funext known key
  simp only [functionAt, function_of_reorders _ (h.child ht key).2 (ht.child key)]

theorem module_of_reorders (h : Reorders .module t u) (ht : t.Distinct) :
    module t = module u := by
  obtain ⟨-, htypes⟩ := h.child ht "typedefs"
  obtain ⟨-, hglobals⟩ := h.child ht "globals"
  obtain ⟨-, hfuncs⟩ := h.child ht "funcs"
  simp only [module, string_of_reorders h ht,
    typeName_of_reorders htypes (ht.child "typedefs"), htypes.keys_eq rfl,
    global_of_reorders hglobals (ht.child "globals"), hglobals.keys_eq rfl,
    functionAt_of_reorders hfuncs (ht.child "funcs"), hfuncs.keys_eq rfl]

end Load

/-- Loading depends on the record below `module` alone, and not on the order of fields there. Only
the warning about the version depends on the version; it is given once if that is not the version
of the format, and else not at all. -/
theorem Module.load_of_reorders {t u : Forest} (ht : (t.child Record.moduleKey).children.Distinct)
    (h : Forest.Reorders .module (t.child Record.moduleKey).children
      (u.child Record.moduleKey).children) :
    (load t).result = (load u).result ∧
      (load t).events.filter (!·.tellsVersion) = (load u).events.filter (!·.tellsVersion) ∧
      ∀ s : Forest, (load s).events.countP Event.tellsVersion =
        if s.value? Record.versionPath = some (.string Record.version) then 0 else 1 := by
  have hmodule := Load.module_of_reorders h ht
  refine ⟨?_, ?_, Load.countP_events_load⟩
  · rw [Load.result_load, Load.result_load, hmodule]
  · rw [Load.filter_events_load, Load.filter_events_load, hmodule]

/-- In the second forest the name of the module stands behind its functions, and the value of a
constant before its type. -/
theorem Module.load_of_reorders_swapped :
    let field (key word : String) := Forest.leaf key (.string word)
    let value := Forest.leaf "val" (.integer 3)
    let record (returned : Forest) := Forest.branch "funcs" (.branch "f0"
      (field "name" "f" ++ field "return-type" "int" ++
        .branch "body" (.branch "s0" (field "type" "ret-stmt" ++ .branch "expr" returned))))
    let t := Forest.branch "module" (field "name" "m" ++ record (field "type" "int-const" ++ value))
    let u := Forest.branch "OILCan" (field "version" "0.2.0") ++
      .branch "module" (record (value ++ field "type" "int-const") ++ field "name" "m")
    (load t).result = (load u).result ∧
      (load t).events.countP Event.tellsVersion = 1 ∧
      (load u).events.countP Event.tellsVersion = 0 := by
  intro field value record t u
  have ht : (t.child Record.moduleKey).children.Distinct := by decide
  have hconstant : Forest.Reorders .expr (field "type" "int-const" ++ value)
      (value ++ field "type" "int-const") := .swap rfl _ _ _ _ _ _ _
  have hstmt : Forest.Reorders .stmt
      (field "type" "ret-stmt" ++ .branch "expr" (field "type" "int-const" ++ value))
      (field "type" "ret-stmt" ++ .branch "expr" (value ++ field "type" "int-const")) :=
    .cons (.refl _ _) (.cons hconstant (.refl _ _))
  have hrecord : Forest.Reorders .module (record (field "type" "int-const" ++ value))
      (record (value ++ field "type" "int-const")) :=
    .cons (.cons (.cons (.refl _ _) (.cons (.refl _ _)
      (.cons (.cons hstmt (.refl _ _)) (.refl _ _)))) (.refl _ _)) (.refl _ _)
  have h : Forest.Reorders .module (t.child Record.moduleKey).children
      (u.child Record.moduleKey).children :=
    .trans (.cons (.refl _ _) hrecord) (.swap rfl _ _ _ _ _ _ _)
  obtain ⟨hresult, -, hversion⟩ := load_of_reorders ht h
  exact ⟨hresult, hversion t, hversion u⟩

end KeyedIR
