import KeyedIR.Proofs.Listing.Expressions
/-! # Listings with colours and without

A listing with colours is the listing without them and codes between its characters. If no name in a
module holds the escape character, each escape character of the listing begins a code, and without
its codes the coloured listing is the one without colours (`Module.withoutCodes_colored`).
-/

namespace KeyedIR

set_option autoImplicit false

/-! ## Codes -/

namespace Listing

/-- What follows the code that a text begins with: an escape character, a bracket, digits and the
letter `m`. -/
def afterCode? : List Char → Option (List Char)
  | '\x1b' :: '[' :: rest =>
    match rest.takeWhile Char.isDigit, rest.dropWhile Char.isDigit with
    | _ :: _, 'm' :: rest => some rest
    | _, _ => none
  | _ => none

theorem length_lt_of_afterCode? {text rest : List Char} (h : afterCode? text = some rest) :
    rest.length < text.length := by
  unfold afterCode? at h
  split at h
  case h_1 text =>
    split at h
    case h_1 hdrop =>
      cases h
      have := (List.dropWhile_suffix Char.isDigit (l := text)).length_le
      rw [hdrop] at this
      simp only [List.length_cons] at this ⊢
      omega
    case h_2 => cases h
  case h_2 => cases h

/-- A text with all its codes taken out. -/
def withoutCodes : List Char → List Char
  | [] => []
  | c :: text =>
    match _h : afterCode? (c :: text) with
    | some rest => withoutCodes rest
    | none => c :: withoutCodes text
termination_by text => text.length
decreasing_by
  · exact length_lt_of_afterCode? (by assumption)
  · exact Nat.lt_add_one _

theorem withoutCodes_of_code {text rest : List Char} (h : afterCode? text = some rest) :
    withoutCodes text = withoutCodes rest := by
  cases text with
  | nil => cases h
  | cons c text =>
    rw [withoutCodes]
    split
    case h_1 hrest => rw [Option.some.inj (hrest.symm.trans h)]
    case h_2 hnone => cases hnone.symm.trans h

theorem withoutCodes_cons {c : Char} (h : c ≠ '\x1b') (text : List Char) :
    withoutCodes (c :: text) = c :: withoutCodes text := by
  have hnone : afterCode? (c :: text) = none := by
    unfold afterCode?
    split
    case h_1 htext => exact absurd (List.cons_eq_cons.1 htext).1 h
    case h_2 => rfl
  rw [withoutCodes]
  split
  case h_1 hrest => cases hrest.symm.trans hnone
  case h_2 => rfl

theorem withoutCodes_append {text : List Char} (h : '\x1b' ∉ text) (rest : List Char) :
    withoutCodes (text ++ rest) = text ++ withoutCodes rest := by
  induction text with
  | nil => rfl
  | cons c text ih =>
    rw [List.mem_cons, not_or] at h
    rw [List.cons_append, withoutCodes_cons (Ne.symm h.1), ih h.2, List.cons_append]

theorem withoutCodes_start (color : Color) (rest : List Char) :
    withoutCodes (Span.start color ++ rest) = withoutCodes rest := by
  apply withoutCodes_of_code
  cases color <;> rfl

theorem withoutCodes_reset (rest : List Char) :
    withoutCodes (Span.reset ++ rest) = withoutCodes rest := withoutCodes_of_code rfl

theorem restart_eq_self {text : List Char} (h : '\x1b' ∉ text) (color : Color) :
    Span.restart color text = text := by
  induction text with
  | nil => rfl
  | cons c text ih =>
    rw [List.mem_cons, not_or] at h
    rw [Span.restart, ih h.2]
    intro rest hc
    exact absurd hc.symm h.1

theorem withoutCodes_span {span : Span} (h : '\x1b' ∉ span.text false) (rest : List Char) :
    withoutCodes (span.text true ++ rest) = span.text false ++ withoutCodes rest := by
  cases span with
  | plain s => exact withoutCodes_append h rest
  | colored color s =>
    have hs : '\x1b' ∉ s.toList := h
    simp only [Span.text, if_true, restart_eq_self hs, List.append_assoc]
    rw [withoutCodes_start, withoutCodes_append hs, withoutCodes_reset]
    rfl

/-- No span of the listing holds an escape character of its own. -/
def Clean (l : Listing) : Prop := '\x1b' ∉ l.chars

theorem withoutCodes_text {l : Listing} (h : l.Clean) :
    withoutCodes (l.text true).toList = (l.text false).toList := by
  rw [text, text, String.toList_ofList, String.toList_ofList]
  induction l with
  | nil => rw [List.flatMap_nil, withoutCodes]; rfl
  | cons span l ih =>
    rw [Clean, chars, List.flatMap_cons, List.mem_append, not_or] at h
    rw [List.flatMap_cons, withoutCodes_span h.1, ih h.2, List.flatMap_cons]

/-! ## Listings without escape characters -/

@[simp] theorem clean_nil : Clean [] := List.not_mem_nil

@[simp] theorem clean_append {l l' : Listing} : (l ++ l').Clean ↔ l.Clean ∧ l'.Clean := by
  simp [Clean, not_or]

@[simp] theorem clean_plain {s : String} : (plain s).Clean ↔ '\x1b' ∉ s.toList := by
  simp [Clean]

theorem clean_colored {color : Color} {s : String} :
    Clean [.colored color s] ↔ '\x1b' ∉ s.toList := by
  simp [Clean, chars, Span.text]

@[simp] theorem clean_keyword {s : String} : (keyword s).Clean ↔ '\x1b' ∉ s.toList := clean_colored

@[simp] theorem clean_title {s : String} : (title s).Clean ↔ '\x1b' ∉ s.toList := clean_colored

@[simp] theorem clean_type {s : String} : (type s).Clean ↔ '\x1b' ∉ s.toList := clean_colored

@[simp] theorem clean_flatMap {α : Type} {f : α → Listing} {xs : List α} :
    Clean (xs.flatMap f) ↔ ∀ x ∈ xs, (f x).Clean := by
  induction xs with
  | nil => simp
  | cons x xs ih => rw [List.flatMap_cons, clean_append, ih, List.forall_mem_cons]

theorem clean_join {separator : String} (hseparator : '\x1b' ∉ separator.toList)
    {ls : List Listing} (h : ∀ l ∈ ls, l.Clean) : (join separator ls).Clean := by
  induction ls using join.induct with
  | case1 => exact clean_nil
  | case2 l => exact h l List.mem_cons_self
  | case3 l rest _ ih =>
    obtain ⟨hl, hrest⟩ := List.forall_mem_cons.1 h
    rw [join, clean_append, clean_append, clean_plain]
    · exact ⟨⟨hl, hseparator⟩, ih hrest⟩
    · assumption

@[simp] theorem clean_parenthesized {nested : Bool} {l : Listing} :
    (parenthesized nested l).Clean ↔ l.Clean := by
  cases nested <;> simp [parenthesized]

@[simp] theorem clean_indent (depth : Nat) : (indent depth).Clean := by
  simp [indent]

theorem clean_constant {s : List Char} (h : s.all Binary64.isTextChar = true) :
    (constant s).Clean := by
  rw [Clean, chars_constant]
  intro hmem
  exact absurd (List.all_eq_true.1 h _ hmem) (by decide)

end Listing

open Listing

theorem escape_not_mem_toDigits (n : Nat) : '\x1b' ∉ Nat.toDigits 10 n := by
  intro h
  exact absurd (Decimal.isDigit_of_mem_toDigits h) (by decide)

theorem Ref.escape_not_mem_text (r : Ref) : '\x1b' ∉ r.text.toList := by
  have hid {cls : DeclClass} (i : Id cls) : '\x1b' ∉ i.text.toList := by
    cases cls <;>
      simp [Id.text, DeclClass.idName, toString, Nat.toList_repr, escape_not_mem_toDigits]
  cases r <;> simp [Ref.text, toString, hid]

theorem ArithmeticOp.escape_not_mem_symbol (op : ArithmeticOp) : '\x1b' ∉ op.symbol.toList := by
  cases op <;> simp [symbol]

theorem BinaryOp.escape_not_mem_symbol (op : BinaryOp) : '\x1b' ∉ op.symbol.toList := by
  rcases op with op | op | op
  · exact op.escape_not_mem_symbol
  · cases op <;> simp [symbol, ComparisonOp.symbol]
  · cases op <;> simp [symbol, AssignmentOp.symbol]

theorem Expr.clean_listing_apply {nameOf : Ref → Option String} (op : BinaryOp) {lhs rhs : Expr}
    (hl : (lhs.listing nameOf true).Clean) (hr : (rhs.listing nameOf true).Clean) (nested : Bool) :
    ((op.apply lhs rhs).listing nameOf nested).Clean := by
  rw [listing_apply]
  simp [toString, op.escape_not_mem_symbol, hl, hr]

/-- No name that a reference leads to holds the escape character. -/
def CleanNames (nameOf : Ref → Option String) : Prop :=
  ∀ r s, nameOf r = some s → '\x1b' ∉ s.toList

section

variable {nameOf : Ref → Option String} (hnames : CleanNames nameOf)
include hnames

theorem Ref.clean_listing (r : Ref) : (r.listing nameOf).Clean := by
  unfold Ref.listing
  cases h : nameOf r with
  | some name => exact clean_plain.2 (hnames r name h)
  | none =>
    rw [clean_colored]
    simp [toString, r.escape_not_mem_text]

theorem Expr.clean_listing (e : Expr) (nested : Bool) : (e.listing nameOf nested).Clean := by
  induction e generalizing nested with
  | ref r => exact r.clean_listing hnames
  | int n => exact clean_constant (Value.all_isTextChar_intText _)
  | float x => exact clean_constant (Binary64.all_isTextChar_text x)
  | unary op e ih => simp [listing, op.escape_not_mem_symbol, ih]
  | binary op lhs rhs hl hr =>
    exact clean_listing_apply (.arithmetic op) (hl true) (hr true) nested
  | compare op lhs rhs hl hr =>
    exact clean_listing_apply (.comparison op) (hl true) (hr true) nested
  | assign op lhs rhs hl hr =>
    exact clean_listing_apply (.assignment op) (hl true) (hr true) nested

theorem Listing.clean_slot {before : String} (hbefore : '\x1b' ∉ before.toList)
    (e : Option Expr) : (slot nameOf before e).Clean := by
  cases e with
  | none => exact clean_nil
  | some e => exact clean_append.2 ⟨clean_plain.2 hbefore, e.clean_listing hnames false⟩

theorem Listing.clean_loopHead {start : List Listing} (hstart : ∀ l ∈ start, l.Clean)
    (cond test step : Option Expr) : (loopHead nameOf start cond test step).Clean := by
  have hslot (e : Option Expr) : (slot nameOf "" e).Clean := clean_slot hnames (by simp) e
  have hjoin : (join " " start).Clean := clean_join (by simp) hstart
  unfold loopHead
  split <;> simp [hslot, hjoin]

end

section

variable {nameOf : Ref → Option String}

mutual

theorem Stmt.clean_lineListing (hnames : CleanNames nameOf) :
    (s : Stmt) → (s.lineListing nameOf).Clean
  | .init target value => by
    simp [lineListing, target.toRef.clean_listing hnames, value.clean_listing hnames]
  | .eval e => by simp [lineListing, e.clean_listing hnames]
  | .loop start cond test step body => by
    have hhead := clean_loopHead hnames (Stmt.clean_lineListings hnames start) cond test step
    have hbody := Stmt.clean_lineListings hnames body
    simpa [lineListing, hhead] using hbody
  | .ret value => by simp [lineListing, clean_slot hnames]

theorem Stmt.clean_lineListings (hnames : CleanNames nameOf) :
    (list : List Stmt) → ∀ l ∈ Stmt.lineListings nameOf list, l.Clean
  | [] => List.forall_mem_nil _
  | s :: rest =>
    List.forall_mem_cons.2 ⟨s.clean_lineListing hnames, Stmt.clean_lineListings hnames rest⟩

end

mutual

theorem Stmt.clean_listing (hnames : CleanNames nameOf) (depth : Nat) :
    (s : Stmt) → (s.listing nameOf depth).Clean
  | .loop start cond test step body => by
    have hhead := clean_loopHead hnames (Stmt.clean_lineListings hnames start) cond test step
    simp [listing, hhead, Stmt.clean_listListing hnames (depth + 1) body]
  | .init .. | .eval _ | .ret _ => by simp [listing, Stmt.clean_lineListing hnames]

theorem Stmt.clean_listListing (hnames : CleanNames nameOf) (depth : Nat) :
    (list : List Stmt) → (Stmt.listListing nameOf depth list).Clean
  | [] => clean_nil
  | s :: rest =>
    clean_append.2 ⟨s.clean_listing hnames depth, Stmt.clean_listListing hnames depth rest⟩

end

end

/-! ## Modules -/

def Variable.names (v : Variable) : List String := [v.name, v.type.name]

def Parameter.names (p : Parameter) : List String := [p.name, p.type.name]

def Function.names (f : Function) : List String :=
  [f.name, f.returns.name] ++ f.parameters.toList.flatMap Parameter.names ++
    f.locals.toList.flatMap Variable.names

/-- All names in a module, those of types included wherever they stand. -/
def Module.names (m : Module) : List String :=
  [m.name] ++ m.types.toList.map TypeName.name ++ m.globals.toList.flatMap Variable.names ++
    m.functions.toList.flatMap Function.names

theorem Variable.clean_listing {nameOf : Ref → Option String} (hnames : CleanNames nameOf)
    {v : Variable} (h : ∀ name ∈ v.names, '\x1b' ∉ name.toList) : (v.listing nameOf).Clean := by
  have hname : '\x1b' ∉ v.name.toList := h _ (by simp [names])
  have htype : '\x1b' ∉ v.type.name.toList := h _ (by simp [names])
  simp [listing, toString, hname, htype, clean_slot hnames]

theorem Parameter.clean_listing {p : Parameter} (h : ∀ name ∈ p.names, '\x1b' ∉ name.toList) :
    p.listing.Clean := by
  have hname : '\x1b' ∉ p.name.toList := h _ (by simp [names])
  have htype : '\x1b' ∉ p.type.name.toList := h _ (by simp [names])
  simp [listing, toString, hname, htype]

theorem Function.clean_listing {m : Module} {f : Function}
    (hnames : CleanNames (m.nameOf (some f))) (h : ∀ name ∈ f.names, '\x1b' ∉ name.toList) :
    (f.listing m).Clean := by
  simp only [names, List.forall_mem_append, List.forall_mem_cons, List.forall_mem_flatMap] at h
  obtain ⟨⟨⟨hname, hreturns, -⟩, hparameters⟩, hlocals⟩ := h
  have hparameter (p : Parameter) (hp : p ∈ f.parameters.toList) : p.listing.Clean :=
    Parameter.clean_listing (hparameters p hp)
  have hlocal (v : Variable) (hv : v ∈ f.locals.toList) : (v.listing (m.nameOf (some f))).Clean :=
    Variable.clean_listing hnames (hlocals v hv)
  have hlist : ∀ l ∈ f.parameters.toList.map Parameter.listing ++
      (if f.isVariadic then [plain "..."] else []), l.Clean := by
    refine List.forall_mem_append.2 ⟨List.forall_mem_map.2 hparameter, ?_⟩
    split <;> simp
  have hseparator : '\x1b' ∉ ", ".toList := by simp
  have hjoin := clean_join hseparator hlist
  have hbody := Stmt.clean_listListing hnames 1 f.body
  unfold listing
  simp only [clean_append]
  split <;> simp +contextual [hname, hreturns, hjoin, hlocal, hbody]

theorem Arena.exists_of_mem_named {cls : DeclClass} {α : Type} {toRef : Id cls → Ref}
    {name : α → String} {a : Arena cls α} {item : Ref × String} (h : item ∈ a.named toRef name) :
    ∃ x ∈ a.toList, name x = item.2 := by
  obtain ⟨⟨x, i⟩, hitem, rfl⟩ := List.mem_map.1 h
  exact ⟨x, List.fst_mem_of_mem_zipIdx hitem, rfl⟩

theorem Module.cleanNames {m : Module} (h : ∀ name ∈ m.names, '\x1b' ∉ name.toList)
    {inside : Option Function} (hinside : ∀ f ∈ inside, f ∈ m.functions.toList) :
    CleanNames (m.nameOf inside) := by
  simp only [names, List.forall_mem_append, List.forall_mem_flatMap] at h
  obtain ⟨⟨-, hglobals⟩, hfunctions⟩ := h
  intro r s hs
  have hvisible := mem_visible hs
  simp only [visible, List.mem_append] at hvisible
  rcases hvisible with (hglobal | hfunction) | hlocal
  · obtain ⟨v, hv, rfl⟩ := Arena.exists_of_mem_named hglobal
    exact hglobals v hv v.name List.mem_cons_self
  · obtain ⟨f, hf, rfl⟩ := Arena.exists_of_mem_named hfunction
    exact hfunctions f hf f.name (by simp [Function.names])
  · cases inside with
    | none => cases hlocal
    | some f =>
      have hf := hfunctions f (hinside f rfl)
      simp only [Function.names, List.forall_mem_append, List.forall_mem_flatMap] at hf
      rcases List.mem_append.1 hlocal with hparameter | hvariable
      · obtain ⟨p, hp, rfl⟩ := Arena.exists_of_mem_named hparameter
        exact hf.1.2 p hp p.name List.mem_cons_self
      · obtain ⟨v, hv, rfl⟩ := Arena.exists_of_mem_named hvariable
        exact hf.2 v hv v.name List.mem_cons_self

theorem Module.clean_listing {m : Module} (h : ∀ name ∈ m.names, '\x1b' ∉ name.toList) :
    m.listing.Clean := by
  have houtside : CleanNames (m.nameOf none) := cleanNames h fun _ hf => by cases hf
  have hinside (f : Function) (hf : f ∈ m.functions.toList) : CleanNames (m.nameOf (some f)) :=
    cleanNames h fun _ hf' => Option.mem_some.1 hf' ▸ hf
  simp only [names, List.forall_mem_append, List.forall_mem_flatMap, List.forall_mem_map,
    List.forall_mem_singleton] at h
  obtain ⟨⟨⟨hname, htypes⟩, hglobals⟩, hfunctions⟩ := h
  have hglobal (v : Variable) (hv : v ∈ m.globals.toList) : (v.listing (m.nameOf none)).Clean :=
    Variable.clean_listing houtside (hglobals v hv)
  have hfunction (f : Function) (hf : f ∈ m.functions.toList) : (f.listing m).Clean :=
    Function.clean_listing (hinside f hf) (hfunctions f hf)
  unfold listing
  simp only [clean_append]
  split <;> split <;> simp +contextual [hname, htypes, hglobal, hfunction]

/-- If no name in a module holds the escape character, its coloured listing without the codes is its
listing without colours. References may lead nowhere, and statements may be nested to any depth. -/
theorem Module.withoutCodes_colored {m : Module}
    (h : ∀ name ∈ m.names, '\x1b' ∉ name.toList) :
    withoutCodes (m.listing.text true).toList = (m.listing.text false).toList :=
  withoutCodes_text (clean_listing h)

/-- A loop whose head holds a reference that leads nowhere. -/
theorem Module.withoutCodes_colored_dangling :
    let f : Function := { name := "f", returns := { name := "void" }, body :=
      [.loop [.eval (.ref (.localVar (.ofNat 3)))] none none none [.ret (some (.int 1))]] }
    let m : Module := { name := "m", functions := ⟨#[f]⟩ }
    (∀ name ∈ m.names, '\x1b' ∉ name.toList) ∧ m.listing.text true ≠ m.listing.text false ∧
      withoutCodes (m.listing.text true).toList =
        ("module m\n\nvoid f() \x7b\n    for (<unresolved Local(LocalId(3))>; ; ; ) \x7b\n" ++
          "        return 1;\n    \x7d\n\x7d\n").toList := by
  intro f m
  have h : ∀ name ∈ m.names, '\x1b' ∉ name.toList := by decide
  refine ⟨h, by decide +kernel, (withoutCodes_colored h).trans (congrArg String.toList ?_)⟩
  cbv

end KeyedIR
