import KeyedIR.Proofs.Record.Held
/-! # What loading leaves out

Loading warns that it skips something exactly if one of the lists or expressions that it comes to
is not read in full. If it does not, the module holds all of them, and each list of statements has a
statement for each of its keys (`Module.load_skips_iff`).
-/

namespace KeyedIR

set_option autoImplicit false

open Logged Loading

namespace Load

/-! ## Lists that are read in full -/

/-- Each key of the entry has a statement in the list, in the order of the keys. -/
def ReadInFull (scopes : Scopes) (path : Path) (e : Entry) (l : List Stmt) : Prop :=
  List.Forall₂ (fun key s =>
    (stmt scopes (path ++ [key]) (e.children.child key).children).result = .ok (some s))
    e.children.keys l

theorem forall₂_reduceOption {α β : Type} {R : α → Option β → Prop} {xs : List α}
    {ys : List (Option β)} (h : List.Forall₂ R xs ys) (hnone : none ∉ ys) :
    List.Forall₂ (fun x y => R x (some y)) xs ys.reduceOption := by
  induction h with
  | nil => exact .nil
  | @cons x y _ _ hxy _ ih =>
    rw [List.mem_cons, not_or] at hnone
    obtain ⟨y, rfl⟩ := Option.ne_none_iff_exists'.1 (Ne.symm hnone.1)
    rw [List.reduceOption_cons_of_some]
    exact .cons hxy (ih hnone.2)

theorem readInFull_of_stmts {scopes : Scopes} {path : Path} {e : Entry} {l : List Stmt}
    (hl : (stmts scopes path e).result = .ok l)
    (h : ¬(Task.stmts scopes path e).LeavesOut) : ReadInFull scopes path e l := by
  obtain ⟨read, hread, rfl, -⟩ := stmts_read hl
  have hall := mapM_ok_iff.1 hread
  refine forall₂_reduceOption hall fun hnone => h ⟨_, hl, ?_⟩
  rw [hall.length_eq]
  exact List.reduceOption_length_lt_iff.2 hnone

theorem isSome_of_slot {scopes : Scopes} {path : Path} {children : Forest} {key : String}
    {e : Option Expr} (he : (slot scopes path children key).result = .ok e)
    (h : ¬(Task.slot scopes path children key).LeavesOut) :
    e.isSome = (children.child key).isPresent := by
  cases hpresent : (children.child key).isPresent with
  | true =>
    rw [Option.isSome_iff_ne_none]
    rintro rfl
    exact h ⟨hpresent, he⟩
  | false =>
    rw [slot, whenPresent, hpresent] at he
    cases he
    rfl

/-- What is read first of the body of a function. -/
theorem starts_body {t : Forest} {k : Nat} {task : Task} (h : Starts t (.body k) task) :
    ∃ key scopes, t.functionKeys[k]? = some key ∧
      task = .stmts scopes (functionsPath ++ [key, "body"])
        (t.entry (functionsPath ++ [key, "body"])) := by
  generalize hplace : Place.body k = place at h
  cases h with
  | global => cases hplace
  | @function _ key _ _ part _ _ hkey _ h =>
    cases part with
    | some j => cases hplace
    | none =>
      cases hplace
      cases h with
      | body => exact ⟨key, _, hkey, rfl⟩

/-! ## Warnings -/

section

variable {t : Forest} {m : Module} (hload : (Module.load t).result = .ok m)
include hload

theorem skips_iff : (∃ e ∈ (Module.load t).events, e.Skips) ↔
    ∃ task, Visits t task ∧ task.LeavesOut := by
  have hcovers := covers_load hload
  refine hcovers.warns.trans ⟨?_, ?_⟩
  · rintro ⟨place, start, hstart, hwarns⟩
    obtain ⟨fragment, -, hread⟩ := hcovers.read place start hstart
    have hlost := (settled start _ hread).warns.1 hwarns
    obtain ⟨task, htask, hleaves⟩ := hlost.resolve_left (Option.some_ne_none fragment)
    exact ⟨task, ⟨place, start, hstart, htask⟩, hleaves⟩
  · rintro ⟨task, ⟨place, start, hstart, htask⟩, hleaves⟩
    obtain ⟨fragment, -, hread⟩ := hcovers.read place start hstart
    have hwarns := (settled start _ hread).warns.2 (.inr ⟨task, htask, hleaves⟩)
    exact ⟨place, start, hstart, hwarns⟩

variable (hquiet : ∀ e ∈ (Module.load t).events, ¬e.Skips)
include hquiet

theorem not_leavesOut_of_quiet {task : Task} (h : Visits t task) : ¬task.LeavesOut := by
  intro hleaves
  obtain ⟨event, hevent, hskips⟩ := (skips_iff hload).2 ⟨task, h, hleaves⟩
  exact hquiet event hevent hskips

/-- Without a warning the module holds all that loading came to. -/
theorem holds_of_quiet {place : Place} {task : Task} (h : VisitsAt t place task) :
    ∃ fragment, Holds t m place task fragment ∧ task.read = .ok (some fragment) := by
  rcases holds_or_leftOut hload h with ⟨fragment, hholds⟩ | hleft
  · exact ⟨fragment, hholds, hholds.read hload⟩
  · obtain ⟨event, hevent, hskips⟩ := warns_of_leftOut hload hleft
    exact absurd hskips (hquiet event hevent)

/-- Without a warning the body of each function has a statement for each key of its list. -/
theorem readInFull_body {k : Nat} {f : Function} (hf : m.functions.items[k]? = some f) :
    ∃ key scopes, t.functionKeys[k]? = some key ∧
      ReadInFull scopes (functionsPath ++ [key, "body"])
        (t.entry (functionsPath ++ [key, "body"])) f.body := by
  have hbody : m.fragment? (.body k) = some (.stmts f.body) := by
    rw [Module.fragment?, hf]
    rfl
  obtain ⟨task, hstart⟩ := (covers_load hload).started _ _ hbody
  obtain ⟨fragment, hfragment, hread⟩ := (covers_load hload).read _ _ hstart
  cases hbody.symm.trans hfragment
  obtain ⟨key, scopes, hkey, rfl⟩ := starts_body hstart
  obtain ⟨l, hl, hfragment⟩ := Task.exists_of_map_ok hread
  cases hfragment
  have hvisits : Visits t _ := ⟨_, _, hstart, .refl⟩
  exact ⟨key, scopes, hkey, readInFull_of_stmts hl (not_leavesOut_of_quiet hload hquiet hvisits)⟩

end

end Load

/-- If a module is loaded, there is a warning that something is skipped exactly if loading came to
a list with fewer statements than keys, or to an expression that is stored and read as empty; each
of them stands in the forest at its path, and the module holds what they came to. Without such a
warning, each list of statements that loading came to stands in the module with one statement for
each key, in their order, each expression that need not be there stands in the module if it is
stored, and the body of each function of the module is such a list. -/
theorem Module.load_skips_iff {t : Forest} {m : Module} (h : (load t).result = .ok m) :
    ((∃ e ∈ (load t).events, e.Skips) ↔ ∃ task, Load.Visits t task ∧ task.LeavesOut) ∧
    (∀ task, Load.Visits t task → task.StandsIn t) ∧
    Load.Keeps t m ∧
    ((∀ e ∈ (load t).events, ¬e.Skips) →
      (∀ place scopes path e, Load.VisitsAt t place (.stmts scopes path e) →
        ∃ l, (Load.stmts scopes path e).result = .ok l ∧ Load.ReadInFull scopes path e l ∧
          Load.Holds t m place (.stmts scopes path e) (.stmts l)) ∧
      (∀ place scopes path children key,
        Load.VisitsAt t place (.slot scopes path children key) →
        ∃ e, (Load.slot scopes path children key).result = .ok e ∧
          e.isSome = (children.child key).isPresent ∧
          Load.Holds t m place (.slot scopes path children key) (.slot e)) ∧
      ∀ (k : Nat) (f : Function), m.functions.items[k]? = some f →
        ∃ key scopes, t.functionKeys[k]? = some key ∧
          Load.ReadInFull scopes (Load.functionsPath ++ [key, "body"])
            (t.entry (Load.functionsPath ++ [key, "body"])) f.body) := by
  refine ⟨Load.skips_iff h, fun task hvisits => hvisits.standsIn, Load.keeps_of_load h,
    fun hquiet => ⟨fun place scopes path e hvisits => ?_,
      fun place scopes path children key hvisits => ?_,
      fun k f hf => Load.readInFull_body h hquiet hf⟩⟩
  · have hin := Load.not_leavesOut_of_quiet h hquiet ⟨place, hvisits⟩
    obtain ⟨fragment, hholds, hread⟩ := Load.holds_of_quiet h hquiet hvisits
    obtain ⟨l, hl, hfragment⟩ := Load.Task.exists_of_map_ok hread
    cases hfragment
    exact ⟨l, hl, Load.readInFull_of_stmts hl hin, hholds⟩
  · have hin := Load.not_leavesOut_of_quiet h hquiet ⟨place, hvisits⟩
    obtain ⟨fragment, hholds, hread⟩ := Load.holds_of_quiet h hquiet hvisits
    obtain ⟨e, he, hfragment⟩ := Load.Task.exists_of_map_ok hread
    cases hfragment
    exact ⟨e, he, Load.isSome_of_slot he hin, hholds⟩

/-- A statement returns an expression of an unknown kind, so it is kept and returns nothing. -/
theorem Module.load_skips_iff_unknown :
    let field (key word : String) := Forest.leaf key (.string word)
    let returned := field "type" "ret-stmt" ++ .branch "expr" (field "type" "call-expr")
    let t := Forest.branch "module" (field "name" "m" ++ .branch "funcs" (.branch "f0"
      (field "name" "f" ++ field "return-type" "int" ++ .branch "body" (.branch "s0" returned))))
    let m : Module := { name := "m", functions := ⟨#[
      { name := "f", returns := { name := "int" }, body := [.ret none] }]⟩ }
    (∃ e ∈ (load t).events, e.Skips) ∧ (∃ task, Load.Visits t task ∧ task.LeavesOut) ∧
      Load.Keeps t m := by
  intro field returned t m
  have hread : (load t).result = .ok m := by cbv
  have hevents : (load t).events = [.versionMissing,
      .readingFunction "f" ["module", "funcs", "f0"], .namesInScope 0 ["module", "funcs", "f0"],
      .readingStatement .ret ["module", "funcs", "f0", "body", "s0"],
      .unsupportedExpression "call-expr" ["module", "funcs", "f0", "body", "s0", "expr"],
      .readModule "m" 1] := by cbv
  have hmem : .unsupportedExpression "call-expr" ["module", "funcs", "f0", "body", "s0", "expr"] ∈
      (load t).events := by
    rw [hevents]
    simp
  have hskips : ∃ e ∈ (load t).events, e.Skips :=
    ⟨_, hmem, Load.skips_unsupportedExpression _ _⟩
  obtain ⟨hiff, -, hkeeps, -⟩ := load_skips_iff hread
  exact ⟨hskips, hiff.1 hskips, hkeeps⟩

end KeyedIR
