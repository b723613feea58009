import KeyedIR.Proofs.Logged
import KeyedIR.Record.Load
/-! # What loading logs

Reading the fields of a record logs nothing. The version is told about before the record of the
module is read, at most once, and never after that.
-/

namespace KeyedIR

set_option autoImplicit false

open Logged Loading

namespace Load

/-! ## Fields -/

variable (p : Event → Prop)

theorem logs_string (path : Path) (children : Forest) (key : String) :
    Logs p (string path children key) := .ofExcept _

theorem logs_reference {α : Type} (find : String → Except ResolutionFault α)
    (path : Path) (children : Forest) (key : String) :
    Logs p (reference find path children key) := by
  refine (logs_string p path children key).bind fun name => ?_
  split
  · exact .pure _
  · exact .fail _

theorem logs_operator {α : Type} (family : OperatorFamily)
    (ofWord? : String → Option α) (path : Path) (children : Forest) :
    Logs p (operator family ofWord? path children) := by
  refine (logs_string p path children "op").bind fun word => ?_
  split
  · exact .pure _
  · exact .fail _

theorem logs_flag (path : Path) (children : Forest) (key : String) :
    Logs p (flag path children key) := by
  unfold flag
  dsimp only
  split
  · exact .pure _
  · exact .bind (.ofExcept _) fun n => .pure _

theorem logs_int32 (path : Path) (children : Forest) :
    Logs p (int32 path children) := by
  refine .bind (.ofExcept _) fun n => ?_
  split
  · exact .pure _
  · exact .fail _

theorem logs_typeName (path : Path) (types : Forest) (key : String) :
    Logs p (typeName path types key) :=
  (logs_string p _ _ _).bind fun _ => .pure _

theorem logs_parameter (path : Path) (parameters : Forest)
    (known : Arena .parameter Parameter × Scope) (key : String) :
    Logs p (parameter path parameters known key) :=
  (logs_string p _ _ _).bind fun _ => (logs_string p _ _ _).bind fun _ => .pure _

end Load

/-! ## The version -/

/-- The event is about the version of the format. -/
def Event.tellsVersion : Event → Bool
  | .versionDiffers _ | .versionMissing => true
  | _ => false

namespace Load

theorem load_eq (t : Forest) :
    Module.load t = noteVersion t >>= fun _ => module (t.child Record.moduleKey).children := rfl

/-- The computation logs nothing about the version. -/
def NoVersion {α : Type} (c : Loading α) : Prop := Logs (fun e => e.tellsVersion = false) c

theorem NoVersion.whenPresent {present : Bool} {c : Loading (Option Expr)} (h : NoVersion c) :
    NoVersion (Loading.whenPresent present c) := by
  unfold Loading.whenPresent
  split
  · exact h
  · exact .pure _

theorem noVersion_expr (scopes : Scopes) (path : Path) (t : Forest) :
    NoVersion (expr scopes path t) := by
  unfold expr
  split
  · exact .fail _
  case isFalse hnil =>
  have hoperand (path : Path) (key : String) :
      NoVersion (expr scopes path (t.child key).children) :=
    have := Forest.size_child_lt hnil key
    noVersion_expr scopes path (t.child key).children
  refine (logs_string _ _ _ _).bind fun word => ?_
  split
  case h_1 => exact .bind (.note rfl) fun _ => .pure _
  case h_2 => exact (logs_reference _ _ _ _ _).bind fun target => .pure _
  case h_3 => exact (logs_int32 _ _ _).bind fun n => .pure _
  case h_4 => exact .bind (.ofExcept _) fun x => .pure _
  case h_5 =>
    refine (logs_operator _ _ _ _ _).bind fun op => .bind (hoperand _ _) fun lhs => ?_
    split
    · split
      · refine .bind (hoperand _ _).whenPresent fun rhs => ?_
        split <;> exact .pure _
      · exact .bind (hoperand _ _) fun rhs => .pure _
    · exact .pure _
  case h_6 | h_7 =>
    exact (logs_operator _ _ _ _ _).bind fun op => .bind (hoperand _ _) fun lhs =>
      .bind (hoperand _ _) fun rhs => .pure _
termination_by t.size

theorem noVersion_slot (scopes : Scopes) (path : Path) (t : Forest) (key : String) :
    NoVersion (slot scopes path t key) :=
  (noVersion_expr scopes _ _).whenPresent

mutual

theorem noVersion_stmt (scopes : Scopes) (path : Path) (t : Forest) :
    NoVersion (stmt scopes path t) := by
  unfold stmt
  split
  · exact .fail _
  case isFalse hnil =>
  have hlist (path : Path) (key : String) : NoVersion (stmts scopes path (t.child key)) :=
    have := Forest.size_child_lt hnil key
    noVersion_stmts scopes path (t.child key)
  refine (logs_string _ _ _ _).bind fun word => ?_
  split
  · exact .bind (.note rfl) fun _ => .pure _
  · refine .bind (.note rfl) fun _ => ?_
    split
    case h_1 =>
      exact (logs_reference _ _ _ _ _).bind fun target =>
        .bind (noVersion_expr scopes _ _) fun value => .pure _
    case h_2 => exact .bind (noVersion_expr scopes _ _) fun e => .pure _
    case h_3 =>
      exact .bind (hlist _ _) fun start => .bind (noVersion_slot scopes _ _ _) fun cond =>
        .bind (noVersion_slot scopes _ _ _) fun test =>
          .bind (noVersion_slot scopes _ _ _) fun step => .bind (hlist _ _) fun body => .pure _
    case h_4 => exact .bind (noVersion_slot scopes _ _ _) fun value => .pure _
termination_by 2 * t.size

theorem noVersion_stmts (scopes : Scopes) (path : Path) (e : Entry) :
    NoVersion (stmts scopes path e) := by
  unfold stmts
  split
  · split
    · split
      · exact .pure _
      · exact .fail _
    · exact .fail _
    · exact .fail _
  case isFalse hnil =>
  have hstmt (key : String) :
      NoVersion (stmt scopes (path ++ [key]) (e.children.child key).children) :=
    have := Forest.size_child_lt hnil key
    noVersion_stmt scopes _ _
  split
  · exact .fail _
  · exact .bind (.mapM hstmt _) fun read => .pure _
termination_by 2 * e.children.size + 1

end

theorem noVersion_var (scopes : Scopes) (path : Path) (t : Forest) :
    NoVersion (var scopes path t) :=
  (logs_string _ _ _ _).bind fun _ => (logs_string _ _ _ _).bind fun _ =>
    .bind (noVersion_slot _ _ _ _) fun _ => .pure _

theorem noVersion_function (globals : Scope) (path : Path) (t : Forest) :
    NoVersion (function globals path t) := by
  refine (logs_string _ _ _ _).bind fun name => (logs_string _ _ _ _).bind fun returns =>
    .bind (.note rfl) fun _ => (logs_flag _ _ _ _).bind fun isVariadic =>
    (logs_flag _ _ _ _).bind fun isInline =>
    .bind (.foldlM (logs_parameter _ _ _) _ _) fun parameters => .bind ?locals fun locals =>
    .bind (.note rfl) fun _ => .bind (noVersion_stmts _ _ _) fun body => .pure _
  case locals =>
    exact .foldlM (fun known key => .bind (noVersion_var _ _ _) fun v => .pure _) _ _

theorem noVersion_module (t : Forest) : NoVersion (module t) := by
  refine (logs_string _ _ _ _).bind fun name => .bind (.mapM (logs_typeName _ _ _) _) fun types =>
    .bind ?globals fun globals => .bind ?functions fun functions => .bind (.note rfl) fun _ =>
    .pure _
  case globals =>
    exact .foldlM (fun known key => .bind (noVersion_var _ _ _) fun v => .pure _) _ _
  case functions =>
    exact .foldlM (fun known key => .bind (noVersion_function _ _ _) fun f => .pure _) _ _

/-- Looking at the version always goes on, with one warning unless the version is the one of the
format. -/
theorem noteVersion_spec (t : Forest) :
    (noteVersion t).result = .ok () ∧ Logs (fun e => e.tellsVersion = true) (noteVersion t) ∧
      (noteVersion t).events.length =
        if t.value? Record.versionPath = some (.string Record.version) then 0 else 1 := by
  unfold noteVersion
  split
  case h_1 found hfound =>
    rw [hfound]
    split
    case isTrue hsame => exact ⟨rfl, .pure (), by rw [hsame, if_pos rfl]; rfl⟩
    case isFalse hdiffers =>
      refine ⟨rfl, .note rfl, (if_neg fun heq => hdiffers ?_).symm⟩
      injection heq with heq
      injection heq
  case h_2 hother => exact ⟨rfl, .note rfl, (if_neg (hother Record.version)).symm⟩

theorem events_load (t : Forest) : (Module.load t).events =
    (noteVersion t).events ++ (module (t.child Record.moduleKey).children).events := by
  rw [load_eq, events_bind_of_ok (noteVersion_spec t).1]

theorem result_load (t : Forest) :
    (Module.load t).result = (module (t.child Record.moduleKey).children).result := by
  rw [load_eq, bind_of_ok (noteVersion_spec t).1]

theorem filter_events_load (t : Forest) : (Module.load t).events.filter (!·.tellsVersion) =
    (module (t.child Record.moduleKey).children).events := by
  have hversion : (noteVersion t).events.filter (!·.tellsVersion) = [] := by
    rw [List.filter_eq_nil_iff]
    intro e he
    simp [(noteVersion_spec t).2.1 e he]
  have hmodule : (module (t.child Record.moduleKey).children).events.filter (!·.tellsVersion) =
      (module (t.child Record.moduleKey).children).events := by
    rw [List.filter_eq_self]
    intro e he
    simp [noVersion_module _ e he]
  rw [events_load, List.filter_append, hversion, hmodule, List.nil_append]

theorem countP_events_load (t : Forest) : (Module.load t).events.countP Event.tellsVersion =
    if t.value? Record.versionPath = some (.string Record.version) then 0 else 1 := by
  obtain ⟨-, hversion, hlength⟩ := noteVersion_spec t
  have hmodule : (module (t.child Record.moduleKey).children).events.countP Event.tellsVersion =
      0 := by
    rw [List.countP_eq_zero]
    intro e he
    simp [noVersion_module _ e he]
  rw [events_load, List.countP_append, List.countP_eq_length.2 hversion, hmodule, hlength,
    Nat.add_zero]

end Load

end KeyedIR
