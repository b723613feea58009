import KeyedIR.Proofs.Logged
import KeyedIR.Proofs.Program.Equality
import KeyedIR.Proofs.Record.Scope
/-! # What is loaded is sound

Whatever the keys of a forest are, the names that are bound while it is read stand for declarations
that can be seen. So in an expression that was read every reference is to a declaration that can be
seen, and every operator has the operands it takes, also where parts of unknown kinds were left out.
-/

namespace KeyedIR

set_option autoImplicit false

open Logged Loading

/-- A single expression, its operands apart, is one that can be read where some declarations can be
seen. -/
def Expr.Sound (h : Horizon) : Expr → Prop
  | .ref target => h.Shows target
  | .unary op _ => op.isUnary = true
  | _ => True

structure Variable.Sound (h : Horizon) (v : Variable) : Prop where
  init : ∀ x ∈ Expr.slotParts v.init, x.Sound h
  plain : v.unlabelled = v

/-- The expressions of a function are sound, and no label is set. The function stands behind others,
and all globals are known. -/
structure Function.Sound (globals position : Nat) (f : Function) : Prop where
  locals : ∀ (j : Nat) (v : Variable), f.locals.items[j]? = some v →
    v.Sound ⟨globals, position + 1, f.parameters.size, j⟩
  body : ∀ x ∈ Stmt.listParts f.body,
    x.Sound ⟨globals, position + 1, f.parameters.size, f.locals.size⟩
  plain : f.unlabelled = f

structure Module.Sound (m : Module) : Prop where
  globals : ∀ (i : Nat) (v : Variable), m.globals.items[i]? = some v → v.Sound { globals := i }
  functions : ∀ (k : Nat) (f : Function), m.functions.items[k]? = some f →
    f.Sound m.globals.size k
  plain : m.unlabelled = m

theorem Stmt.forall_listParts {l : List Stmt} {p : Expr → Prop} :
    (∀ x ∈ Stmt.listParts l, p x) ↔ ∀ s ∈ l, ∀ x ∈ s.parts, p x := by
  induction l with
  | nil => exact iff_of_true nofun nofun
  | cons s rest ih =>
    rw [Stmt.listParts, List.forall_mem_append, List.forall_mem_cons, ih]

namespace Load

variable {scopes : Scopes} {h : Horizon}

/-! ## Expressions and statements -/

theorem find_of_reference {α : Type} {find : String → Except ResolutionFault α} {path : Path}
    {children : Forest} {key : String} {target : α}
    (hread : (reference find path children key).result = .ok target) :
    ∃ name, find name = .ok target := by
  obtain ⟨name, -, hread⟩ := bind_ok_iff.1 hread
  split at hread <;> cases hread
  exact ⟨name, ‹_›⟩

theorem sound_pair {e l r : Expr} (he : e.Sound h) (hl : ∀ x ∈ l.parts, x.Sound h)
    (hr : ∀ x ∈ r.parts, x.Sound h) : ∀ x ∈ e :: (l.parts ++ r.parts), x.Sound h := by
  rw [List.forall_mem_cons, List.forall_mem_append]
  exact ⟨he, hl, hr⟩

theorem sound_of_expr (hs : scopes.Within h) {path : Path} {children : Forest} {e : Expr}
    (hread : (expr scopes path children).result = .ok (some e)) : ∀ x ∈ e.parts, x.Sound h := by
  unfold expr at hread
  split at hread
  case isTrue => cases hread
  case isFalse =>
    obtain ⟨word, -, hread⟩ := bind_ok_iff.1 hread
    split at hread
    case h_1 => cases hread
    case h_2 =>
      obtain ⟨target, htarget, hread⟩ := bind_ok_iff.1 hread
      cases hread
      obtain ⟨name, hname⟩ := find_of_reference htarget
      intro x hx
      rw [List.mem_singleton.1 hx]
      exact hs.shows_target hname
    case h_3 | h_4 =>
      obtain ⟨constant, -, hread⟩ := bind_ok_iff.1 hread
      cases hread
      intro x hx
      rw [List.mem_singleton.1 hx]
      trivial
    case h_5 =>
      obtain ⟨op, -, hread⟩ := bind_ok_iff.1 hread
      obtain ⟨lhs, hlhs, hread⟩ := bind_ok_iff.1 hread
      cases lhs with
      | none => cases hread
      | some lhs =>
        have hl := sound_of_expr hs hlhs
        dsimp only at hread
        split at hread
        case isTrue hop =>
          obtain ⟨rhs, hrhs, hread⟩ := bind_ok_iff.1 hread
          cases rhs with
          | some rhs =>
            cases hread
            unfold whenPresent at hrhs
            split at hrhs
            case isFalse => cases hrhs
            case isTrue => exact sound_pair trivial hl (sound_of_expr hs hrhs)
          | none =>
            cases hread
            exact List.forall_mem_cons.2 ⟨hop, hl⟩
        case isFalse =>
          obtain ⟨rhs, hrhs, hread⟩ := bind_ok_iff.1 hread
          cases rhs with
          | some rhs => cases hread; exact sound_pair trivial hl (sound_of_expr hs hrhs)
          | none => cases hread
    case h_6 | h_7 =>
      obtain ⟨op, -, hread⟩ := bind_ok_iff.1 hread
      obtain ⟨lhs, hlhs, hread⟩ := bind_ok_iff.1 hread
      obtain ⟨rhs, hrhs, hread⟩ := bind_ok_iff.1 hread
      cases lhs with
      | none => cases hread
      | some lhs =>
        cases rhs with
        | none => cases hread
        | some rhs =>
          cases hread
          exact sound_pair trivial (sound_of_expr hs hlhs) (sound_of_expr hs hrhs)
termination_by children.size
decreasing_by all_goals exact Forest.size_child_lt (by assumption) _

theorem sound_of_slot (hs : scopes.Within h) {path : Path} {children : Forest} {key : String}
    {e : Option Expr} (hread : (slot scopes path children key).result = .ok e) :
    ∀ x ∈ Expr.slotParts e, x.Sound h := by
  cases e with
  | none => exact nofun
  | some e =>
    unfold slot whenPresent at hread
    split at hread
    case isFalse => cases hread
    case isTrue => exact sound_of_expr hs hread

mutual

theorem sound_of_stmt (hs : scopes.Within h) {path : Path} {children : Forest} {s : Stmt}
    (hread : (stmt scopes path children).result = .ok (some s)) : ∀ x ∈ s.parts, x.Sound h := by
  unfold stmt at hread
  split at hread
  case isTrue => cases hread
  case isFalse hne =>
    have hsmaller := Forest.size_child_lt hne
    obtain ⟨word, -, hread⟩ := bind_ok_iff.1 hread
    split at hread
    case h_1 => cases hread
    case h_2 tag _ =>
      obtain ⟨-, -, hread⟩ := bind_ok_iff.1 hread
      cases tag with
      | init =>
        obtain ⟨target, htarget, hread⟩ := bind_ok_iff.1 hread
        obtain ⟨value, hvalue, hread⟩ := bind_ok_iff.1 hread
        cases value with
        | none => cases hread
        | some value =>
          cases hread
          obtain ⟨name, hname⟩ := find_of_reference htarget
          exact List.forall_mem_cons.2 ⟨hs.shows_variable hname, sound_of_expr hs hvalue⟩
      | eval =>
        obtain ⟨e, he, hread⟩ := bind_ok_iff.1 hread
        cases e with
        | none => cases hread
        | some e => cases hread; exact sound_of_expr hs he
      | loop =>
        obtain ⟨start, hstart, hread⟩ := bind_ok_iff.1 hread
        obtain ⟨cond, hcond, hread⟩ := bind_ok_iff.1 hread
        obtain ⟨test, htest, hread⟩ := bind_ok_iff.1 hread
        obtain ⟨step, hstep, hread⟩ := bind_ok_iff.1 hread
        obtain ⟨body, hbody, hread⟩ := bind_ok_iff.1 hread
        cases hread
        simp only [Stmt.parts, List.forall_mem_append]
        refine ⟨?_, ?_, ?_, ?_, ?_⟩
        · exact sound_of_stmts hs hstart
        · exact sound_of_slot hs hcond
        · exact sound_of_slot hs htest
        · exact sound_of_slot hs hstep
        · exact sound_of_stmts hs hbody
      | ret =>
        obtain ⟨e, he, hread⟩ := bind_ok_iff.1 hread
        cases hread
        exact sound_of_slot hs he
termination_by 2 * children.size
decreasing_by
  all_goals
    have := hsmaller "decl1"
    have := hsmaller "body"
    omega

theorem sound_of_stmts (hs : scopes.Within h) {path : Path} {e : Entry} {l : List Stmt}
    (hread : (stmts scopes path e).result = .ok l) : ∀ x ∈ Stmt.listParts l, x.Sound h := by
  unfold stmts at hread
  split at hread
  case isTrue =>
    split at hread
    case h_1 =>
      split at hread
      case isTrue => cases hread; exact nofun
      case isFalse => cases hread
    case h_2 | h_3 => cases hread
  case isFalse hne =>
    have hsmaller := Forest.size_child_lt hne
    split at hread
    case h_1 => cases hread
    case h_2 =>
      obtain ⟨read, hlist, hread⟩ := bind_ok_iff.1 hread
      cases hread
      have hall : ∀ s ∈ read, ∀ s' ∈ s, ∀ x ∈ s'.parts, x.Sound h := by
        refine forall_of_mapM ?_ hlist
        intro key _ s hkey s' hs'
        cases hs'
        exact sound_of_stmt hs hkey
      rw [Stmt.forall_listParts]
      intro s hmem
      obtain ⟨_, hread, hsome⟩ := List.mem_filterMap.1 hmem
      exact hall _ hread s hsome
termination_by 2 * e.children.size + 1
decreasing_by
  have := hsmaller key
  omega

end

/-! ## Declarations -/

theorem sound_of_var (hs : scopes.Within h) {path : Path} {children : Forest} {v : Variable}
    (hread : (var scopes path children).result = .ok v) : v.Sound h := by
  obtain ⟨name, -, hread⟩ := bind_ok_iff.1 hread
  obtain ⟨type, -, hread⟩ := bind_ok_iff.1 hread
  obtain ⟨init, hinit, hread⟩ := bind_ok_iff.1 hread
  cases hread
  exact ⟨sound_of_slot hs hinit, rfl⟩

/-- What is known after some declarations of a class: each of them has a property that depends on
its position, and what is bound can be seen where so many of them can be seen. -/
structure Known {cls : DeclClass} {α : Type} (p : Nat → α → Prop) (seen : Nat → Horizon)
    (known : Arena cls α × Scope) : Prop where
  items : ∀ (i : Nat) (x : α), known.1.items[i]? = some x → p i x
  scope : known.2.Within (seen known.1.size)

section

variable {cls : DeclClass} {α : Type} {p : Nat → α → Prop} {seen : Nat → Horizon}

theorem Known.start {scope : Scope} (hscope : scope.Within (seen 0)) :
    Known p seen (({} : Arena cls α), scope) :=
  ⟨fun _ _ hx => by simp at hx, hscope⟩

theorem Known.push {known : Arena cls α × Scope} (hknown : Known p seen known) {x : α}
    (hx : p known.1.size x) {scope : Scope} (hscope : scope.Within (seen (known.1.size + 1))) :
    Known p seen (known.1.push x, scope) := by
  refine ⟨?_, ?_⟩
  · intro i y hy
    rw [Arena.push, Array.getElem?_push] at hy
    split at hy
    case isTrue hi => cases hy; exact hi ▸ hx
    case isFalse => exact hknown.items i y hy
  · have hsize : (known.1.push x).size = known.1.size + 1 := Array.size_push x
    rwa [hsize]

theorem Known.map_eq {f : α → α} {known : Arena cls α × Scope}
    (hknown : Known p seen known) (hf : ∀ i x, p i x → f x = x) : known.1.map f = known.1 :=
  Arena.map_eq_self fun i x hx => hf i x (hknown.items i x hx)

end

abbrev Parameters : Arena .parameter Parameter × Scope → Prop :=
  Known (fun _ p => p.unlabelled = p) fun n => { parameters := n }

/-- Each local is sound where the locals before it can be seen. -/
abbrev Locals (globals functions parameters : Nat) : Arena .localVar Variable × Scope → Prop :=
  Known (fun j v => v.Sound ⟨globals, functions, parameters, j⟩)
    fun n => { parameters := parameters, locals := n }

abbrev Globals : Arena .global Variable × Scope → Prop :=
  Known (fun i v => v.Sound { globals := i }) fun n => { globals := n }

abbrev Functions (globals : Nat) : Arena .function Function × Scope → Prop :=
  Known (fun k f => f.Sound globals k) fun n => { globals := globals, functions := n }

theorem parameters_step {path : Path} {records : Forest} {key : String}
    {known known' : Arena .parameter Parameter × Scope} (hknown : Parameters known)
    (hread : (parameter path records known key).result = .ok known') : Parameters known' := by
  obtain ⟨name, -, hread⟩ := bind_ok_iff.1 hread
  obtain ⟨type, -, hread⟩ := bind_ok_iff.1 hread
  cases hread
  exact hknown.push rfl (hknown.scope.bind (Horizon.next_parameter _) key)

theorem locals_step {scope : Scope} {globals functions parameters : Nat} {path : Path}
    {records : Forest} {key : String} {known known' : Arena .localVar Variable × Scope}
    (hscope : scope.Within { globals := globals, functions := functions })
    (hknown : Locals globals functions parameters known)
    (hread : (localVar scope path records known key).result = .ok known') :
    Locals globals functions parameters known' := by
  obtain ⟨v, hv, hread⟩ := bind_ok_iff.1 hread
  cases hread
  exact hknown.push (sound_of_var ⟨hscope, hknown.scope⟩ hv)
    (hknown.scope.bind (Horizon.next_local _) key)

theorem sound_of_function {scope : Scope} {globals position : Nat} {path : Path}
    {children : Forest} {f : Function}
    (hscope : scope.Within { globals := globals, functions := position + 1 })
    (hread : (function scope path children).result = .ok f) : f.Sound globals position := by
  obtain ⟨name, -, hread⟩ := bind_ok_iff.1 hread
  obtain ⟨returns, -, hread⟩ := bind_ok_iff.1 hread
  obtain ⟨-, -, hread⟩ := bind_ok_iff.1 hread
  obtain ⟨isVariadic, -, hread⟩ := bind_ok_iff.1 hread
  obtain ⟨isInline, -, hread⟩ := bind_ok_iff.1 hread
  obtain ⟨⟨parameters, first⟩, hparameters, hread⟩ := bind_ok_iff.1 hread
  obtain ⟨⟨locals, second⟩, hlocals, hread⟩ := bind_ok_iff.1 hread
  obtain ⟨-, -, hread⟩ := bind_ok_iff.1 hread
  obtain ⟨body, hbody, hread⟩ := bind_ok_iff.1 hread
  cases hread
  have hfirst : Parameters (parameters, first) :=
    foldlM_invariant Parameters (fun _ _ _ hknown hstep => parameters_step hknown hstep)
      (.start (Scope.within_empty _)) hparameters
  have hsecond : Locals globals (position + 1) parameters.size (locals, second) :=
    foldlM_invariant _ (fun _ _ _ hknown hstep => locals_step hscope hknown hstep)
      (.start hfirst.scope) hlocals
  refine ⟨hsecond.items, sound_of_stmts ⟨hscope, hsecond.scope⟩ hbody, ?_⟩
  have hp := hfirst.map_eq fun _ _ hx => hx
  have hl := hsecond.map_eq fun _ _ hx => hx.plain
  dsimp only at hp hl
  rw [Function.unlabelled, hp, hl]
  rfl

theorem globals_step {path : Path} {records : Forest} {key : String}
    {known known' : Arena .global Variable × Scope} (hknown : Globals known)
    (hread : (global path records known key).result = .ok known') : Globals known' := by
  obtain ⟨v, hv, hread⟩ := bind_ok_iff.1 hread
  cases hread
  exact hknown.push (sound_of_var ⟨hknown.scope, Scope.within_empty _⟩ hv)
    (hknown.scope.bind (Horizon.next_global _) key)

theorem functions_step {globals : Nat} {path : Path} {records : Forest} {key : String}
    {known known' : Arena .function Function × Scope} (hknown : Functions globals known)
    (hread : (functionAt path records known key).result = .ok known') :
    Functions globals known' := by
  -- The key is bound before the function is read, so that the function can refer to itself.
  have hscope := hknown.scope.bind (Horizon.next_function _) key
  obtain ⟨f, hf, hread⟩ := bind_ok_iff.1 hread
  cases hread
  exact hknown.push (sound_of_function hscope hf) hscope

theorem plain_of_typeName {path : Path} {types : Forest} {key : String} {t : TypeName}
    (hread : (typeName path types key).result = .ok t) : t.unlabelled = t := by
  obtain ⟨name, -, hread⟩ := bind_ok_iff.1 hread
  cases hread
  rfl

end Load

/-- A module that was loaded is sound. -/
theorem Module.sound_of_load {t : Forest} {m : Module} (hread : (load t).result = .ok m) :
    m.Sound := by
  obtain ⟨-, -, hread⟩ := bind_ok_iff.1 hread
  obtain ⟨name, -, hread⟩ := bind_ok_iff.1 hread
  obtain ⟨types, htypes, hread⟩ := bind_ok_iff.1 hread
  obtain ⟨⟨globals, first⟩, hglobals, hread⟩ := bind_ok_iff.1 hread
  obtain ⟨⟨functions, second⟩, hfunctions, hread⟩ := bind_ok_iff.1 hread
  obtain ⟨-, -, hread⟩ := bind_ok_iff.1 hread
  cases hread
  have hplain : ∀ t ∈ types, t.unlabelled = t :=
    forall_of_mapM (fun _ _ _ hkey => Load.plain_of_typeName hkey) htypes
  have hfirst : Load.Globals (globals, first) :=
    foldlM_invariant Load.Globals (fun _ _ _ hknown hstep => Load.globals_step hknown hstep)
      (.start (Scope.within_empty _)) hglobals
  have hsecond : Load.Functions globals.size (functions, second) :=
    foldlM_invariant _ (fun _ _ _ hknown hstep => Load.functions_step hknown hstep)
      (.start hfirst.scope) hfunctions
  refine ⟨hfirst.items, hsecond.items, ?_⟩
  have ht : types.map TypeName.unlabelled = types :=
    (List.map_congr_left hplain).trans (List.map_id types)
  have hg := hfirst.map_eq fun _ _ hv => hv.plain
  have hf := hsecond.map_eq fun _ _ hf => hf.plain
  dsimp only at hg hf
  rw [Module.unlabelled, hg, hf, Arena.map, List.map_toArray, ht]

theorem Module.Sound.of_occurs {m : Module} (hm : m.Sound) {site : Site} {e : Expr}
    (h : m.Occurs site e) : e.Sound site.horizon := by
  cases h with
  | global hv he => exact (hm.globals _ _ hv).init e he
  | localVar hf hv he => exact ((hm.functions _ _ hf).locals _ _ hv).init e he
  | body hf he => exact (hm.functions _ _ hf).body e he

end KeyedIR
