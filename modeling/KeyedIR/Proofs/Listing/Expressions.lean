import KeyedIR.Listing.Render
import KeyedIR.Proofs.Program.Pruned
import KeyedIR.Proofs.Value
/-! # What the listing of an expression shows

Without colours the listing of an expression shows all of its tree but one thing. An operator with
one operand stands right before it, so two plus signs look like an increment and two minus signs
like a decrement. Where the names in sight are different identifiers, expressions look the same
exactly if they are the same with single signs in place of double ones, and if no sign stands right
before the same sign, exactly if they are the same (`Module.listing_eq_iff_singleSigns`).
-/

namespace KeyedIR

set_option autoImplicit false

/-! ## Characters of listings -/

/-- What a listing shows without colours. -/
def Listing.chars (l : Listing) : List Char := l.flatMap (Span.text false)

namespace Listing

theorem text_inj {l l' : Listing} : l.text false = l'.text false ↔ l.chars = l'.chars :=
  String.ofList_inj

@[simp] theorem chars_append (l l' : Listing) : chars (l ++ l') = l.chars ++ l'.chars :=
  List.flatMap_append

@[simp] theorem chars_plain (s : String) : (plain s).chars = s.toList := by
  simp [chars, plain, Span.text]

@[simp] theorem chars_constant (s : List Char) : (constant s).chars = s := by
  simp [chars, constant, Span.text]

theorem chars_parenthesized (nested : Bool) (l : Listing) :
    (parenthesized nested l).chars =
      if nested then '(' :: (l.chars ++ [')']) else l.chars := by
  cases nested <;> simp [parenthesized]

end Listing

/-! ## Operators between two operands -/

/-- An operator of any family that stands between two operands. -/
inductive BinaryOp where
  | arithmetic (op : ArithmeticOp)
  | comparison (op : ComparisonOp)
  | assignment (op : AssignmentOp)

namespace BinaryOp

def symbol : BinaryOp → String
  | arithmetic op => op.symbol
  | comparison op => op.symbol
  | assignment op => op.symbol

def apply : BinaryOp → Expr → Expr → Expr
  | arithmetic op => .binary op
  | comparison op => .compare op
  | assignment op => .assign op

def TakesTwo : BinaryOp → Prop
  | arithmetic op => op.isUnary = false
  | comparison _ | assignment _ => True

/-- The operators that take two operands. -/
def all : List BinaryOp :=
  (ArithmeticOp.all.filter (!·.isUnary)).map arithmetic ++ ComparisonOp.all.map comparison ++
    AssignmentOp.all.map assignment

theorem mem_all {op : BinaryOp} (h : op.TakesTwo) : op ∈ all := by
  cases op with
  | arithmetic op =>
    cases op with
    | plus | minus | increment | decrement => cases h
    | _ => simp [all, ArithmeticOp.all, ArithmeticOp.isUnary]
  | comparison op => cases op <;> simp [all, ComparisonOp.all]
  | assignment op => cases op <;> simp [all, AssignmentOp.all]

theorem symbol_injective {op op' : BinaryOp} (h : op.TakesTwo) (h' : op'.TakesTwo)
    (hsymbol : op.symbol = op'.symbol) : op = op' := by
  have hnodup : (all.map symbol).Nodup := by decide
  exact List.inj_on_of_nodup_map hnodup (mem_all h) (mem_all h') hsymbol

end BinaryOp

/-! ## Words -/

namespace Listing

/-- A character that can follow an operand. -/
def isStop (c : Char) : Bool := c == ' ' || c == ')'

/-- The text ends, or a stop follows. -/
def Stops (rest : List Char) : Prop := ∀ c ∈ rest.head?, isStop c = true

theorem stops_nil : Stops [] := nofun

theorem stops_cons {c : Char} {rest : List Char} (h : isStop c = true) : Stops (c :: rest) := by
  rintro _ ⟨⟩
  exact h

/-- A text in which an operand can begin with something else than signs and parentheses, and which
has no stop. -/
structure IsWord (w : List Char) : Prop where
  head : ∃ c rest, w = c :: rest ∧ c ≠ '+' ∧ c ≠ '-' ∧ c ≠ '('
  noStop : ∀ c ∈ w, isStop c = false

/-- The first stop shows where a text without stops ends. -/
theorem append_inj_of_stops {w w' rest rest' : List Char} (hw : ∀ c ∈ w, isStop c = false)
    (hw' : ∀ c ∈ w', isStop c = false) (hrest : Stops rest) (hrest' : Stops rest')
    (h : w ++ rest = w' ++ rest') : w = w' ∧ rest = rest' := by
  induction w generalizing w' with
  | nil =>
    cases w' with
    | nil => exact ⟨rfl, h⟩
    | cons c' w' =>
      have hstop : isStop c' = true := hrest c' (by rw [show rest = _ from h]; rfl)
      rw [hw' c' List.mem_cons_self] at hstop
      cases hstop
  | cons c w ih =>
    cases w' with
    | nil =>
      have hstop : isStop c = true := hrest' c (by rw [← show _ = rest' from h]; rfl)
      rw [hw c List.mem_cons_self] at hstop
      cases hstop
    | cons c' w' =>
      obtain ⟨rfl, htail⟩ := List.cons_eq_cons.1 h
      obtain ⟨rfl, hsame⟩ := ih (List.forall_mem_cons.1 hw).2 (List.forall_mem_cons.1 hw').2 htail
      exact ⟨rfl, hsame⟩

/-- A letter, a digit or an underscore. Outside ASCII all characters count as letters. -/
def isNameChar (c : Char) : Bool := c.isAlphanum || c == '_' || decide (128 ≤ c.toNat)

/-- A text of such characters that does not begin with a digit. -/
def IsIdentifier (s : String) : Prop :=
  (∃ c rest, s.toList = c :: rest ∧ c.isDigit = false) ∧ ∀ c ∈ s.toList, isNameChar c = true

theorem isWord_identifier {s : String} (h : IsIdentifier s) : IsWord s.toList := by
  obtain ⟨⟨c, rest, hs, -⟩, hchars⟩ := h
  have hne (other : Char) (hother : isNameChar other = false) {c : Char} (hc : c ∈ s.toList) :
      c ≠ other := by
    rintro rfl
    rw [hchars c hc] at hother
    cases hother
  have hfirst : c ∈ s.toList := hs ▸ List.mem_cons_self
  refine ⟨⟨c, rest, hs, hne '+' (by decide) hfirst, hne '-' (by decide) hfirst,
    hne '(' (by decide) hfirst⟩, fun c hc => ?_⟩
  simp [isStop, hne ' ' (by decide) hc, hne ')' (by decide) hc]

/-- Digits, a point, an exponent and its sign, after a digit. -/
theorem isWord_number {w : List Char} (hfirst : ∃ c rest, w = c :: rest ∧ c.isDigit = true)
    (hchars : w.all Binary64.isTextChar = true) : IsWord w := by
  obtain ⟨c, rest, hw, hc⟩ := hfirst
  have hne (other : Char) (hother : other.isDigit = false) : c ≠ other := by
    rintro rfl
    rw [hc] at hother
    cases hother
  refine ⟨⟨c, rest, hw, hne '+' rfl, hne '-' rfl, hne '(' rfl⟩, fun d hd => ?_⟩
  have hd' := List.all_eq_true.1 hchars d hd
  have hnot (other : Char) (hother : Binary64.isTextChar other = false) : d ≠ other := by
    rintro rfl
    rw [hd'] at hother
    cases hother
  simp [isStop, hnot ' ' (by decide), hnot ')' (by decide)]

/-! ## Operands -/

variable (nameOf : Ref → Option String)

/-- A name or a number without a sign, and its text. -/
inductive Leaf : Expr → List Char → Prop
  | ref {r : Ref} {s : String} (h : nameOf r = some s) : Leaf (.ref r) s.toList
  | int {n : Int32} (h : 0 ≤ n.toInt) : Leaf (.int n) (Decimal.intText n.toInt)
  | float {rank : Fin (Binary64.infinityRank + 1)} (h : rank.val < Binary64.infinityRank) :
    Leaf (.float (.number false rank)) (Binary64.number false rank).text

/-- The text of an operator between the texts of its operands. -/
def between (op : BinaryOp) (l r : List Char) : List Char :=
  l ++ ' ' :: (op.symbol.toList ++ ' ' :: r)

/-- An operand with single signs only, and its text. -/
inductive Operand : Expr → List Char → Prop
  | leaf {e : Expr} {w : List Char} (h : Leaf nameOf e w) : Operand e w
  | plus {e : Expr} {w : List Char} (h : Operand e w) : Operand (.unary .plus e) ('+' :: w)
  | minus {e : Expr} {w : List Char} (h : Operand e w) : Operand (.unary .minus e) ('-' :: w)
  | between {op : BinaryOp} {l r : Expr} {wl wr : List Char} (hop : op.TakesTwo)
    (hl : Operand l wl) (hr : Operand r wr) :
    Operand (op.apply l r) ('(' :: (between op wl wr ++ [')']))

/-- An expression with single signs only that stands alone, and its text. -/
inductive Alone : Expr → List Char → Prop
  | operand {e : Expr} {w : List Char} (h : Operand nameOf e w) : Alone e w
  | between {op : BinaryOp} {l r : Expr} {wl wr : List Char} (hop : op.TakesTwo)
    (hl : Operand nameOf l wl) (hr : Operand nameOf r wr) : Alone (op.apply l r) (between op wl wr)

/-- References to different declarations have different names, and these are identifiers. -/
structure ClearNames : Prop where
  injective : ∀ {r r' : Ref} {s : String}, nameOf r = some s → nameOf r' = some s → r = r'
  identifier : ∀ {r : Ref} {s : String}, nameOf r = some s → IsIdentifier s

variable {nameOf}

theorem exists_intText_eq_cons {n : Int} (h : 0 ≤ n) :
    ∃ c rest, Decimal.intText n = c :: rest ∧ c.isDigit = true := by
  obtain ⟨c, rest, hdigits⟩ := List.exists_cons_of_ne_nil (Nat.toDigits_ne_nil (n := n.natAbs))
  have htext : Decimal.intText n = c :: rest := by rw [Decimal.intText, if_neg (by omega), hdigits]
  exact ⟨c, rest, htext, Decimal.isDigit_of_mem_toDigits (hdigits ▸ List.mem_cons_self)⟩

theorem exists_floatText_eq_cons {rank : Fin (Binary64.infinityRank + 1)}
    (h : rank.val < Binary64.infinityRank) :
    ∃ c rest, (Binary64.number false rank).text = c :: rest ∧ c.isDigit = true := by
  by_cases hzero : rank.val = 0
  · exact ⟨'0', ['.', '0'], by simp [Binary64.text, hzero], rfl⟩
  · have hfinite : rank.val ≠ Binary64.infinityRank := by omega
    simpa [Binary64.text, hzero, hfinite] using
      Decimal.exists_text_eq_cons Binary64.layout (Binary64.shortest rank)

theorem Leaf.isWord (hnames : ClearNames nameOf) {e : Expr} {w : List Char}
    (h : Leaf nameOf e w) : IsWord w := by
  cases h with
  | ref h => exact isWord_identifier (hnames.identifier h)
  | int h => exact isWord_number (exists_intText_eq_cons h) (Value.all_isTextChar_intText _)
  | float h => exact isWord_number (exists_floatText_eq_cons h) (Binary64.all_isTextChar_text _)

/-- The first character tells names from numbers. -/
theorem IsIdentifier.not_number {s : String} (hs : IsIdentifier s) :
    ¬∃ c rest, s.toList = c :: rest ∧ c.isDigit = true := by
  obtain ⟨⟨c, rest, hcons, hc⟩, -⟩ := hs
  rintro ⟨d, rest', hcons', hd⟩
  obtain ⟨rfl, -⟩ := List.cons_eq_cons.1 (hcons.symm.trans hcons')
  rw [hc] at hd
  cases hd

theorem readInt?_floatText (x : Binary64) : Value.readInt? x.text = none := by
  obtain ⟨c, hmem, hm, hc⟩ := x.exists_mem_text
  exact Value.readInt?_eq_none hmem hm hc

theorem Leaf.unique (hnames : ClearNames nameOf) {e e' : Expr} {w w' : List Char}
    (h : Leaf nameOf e w) (h' : Leaf nameOf e' w') (hw : w = w') : e = e' := by
  cases h with
  | ref h =>
    cases h' with
    | ref h' =>
      obtain rfl := String.toList_inj.1 hw
      rw [hnames.injective h h']
    | int h' => exact absurd (hw ▸ exists_intText_eq_cons h') (hnames.identifier h).not_number
    | float h' => exact absurd (hw ▸ exists_floatText_eq_cons h') (hnames.identifier h).not_number
  | int h =>
    have hread := Value.readInt?_intText
    cases h' with
    | ref h' => exact absurd (hw ▸ exists_intText_eq_cons h) (hnames.identifier h').not_number
    | int h' =>
      have hn := (hread _).symm.trans ((congrArg Value.readInt? hw).trans (hread _))
      rw [Int32.toInt_inj.1 (Option.some.inj hn)]
    | float h' =>
      have hnone := (hread _).symm.trans
        ((congrArg Value.readInt? hw).trans (readInt?_floatText _))
      cases hnone
  | float h =>
    cases h' with
    | ref h' => exact absurd (hw ▸ exists_floatText_eq_cons h) (hnames.identifier h').not_number
    | int h' =>
      have hnone := (readInt?_floatText _).symm.trans
        ((congrArg Value.readInt? hw).trans (Value.readInt?_intText _))
      cases hnone
    | float h' =>
      have hx := (Binary64.read?_text _).symm.trans
        ((congrArg Binary64.read? hw).trans (Binary64.read?_text _))
      rw [Option.some.inj hx]

theorem noStop_symbol {op : BinaryOp} (h : op.TakesTwo) :
    ∀ c ∈ op.symbol.toList, isStop c = false := by
  have hall : (BinaryOp.all.all fun op => op.symbol.toList.all fun c => !isStop c) = true := by
    decide
  intro c hc
  simpa using List.all_eq_true.1 (List.all_eq_true.1 hall op (BinaryOp.mem_all h)) c hc

/-- The text of an operand shows where it ends and which operand it is, whatever follows. -/
def Delimits (nameOf : Ref → Option String) (e : Expr) (w : List Char) : Prop :=
  ∀ {e' : Expr} {w' rest rest' : List Char}, Operand nameOf e' w' → Stops rest → Stops rest' →
    w ++ rest = w' ++ rest' → e = e' ∧ rest = rest'

theorem between_inj {op op' : BinaryOp} {l r l' r' : Expr} {wl wr wl' wr' rest rest' : List Char}
    (hop : op.TakesTwo) (hop' : op'.TakesTwo) (hl : Delimits nameOf l wl)
    (hr : Delimits nameOf r wr) (hl' : Operand nameOf l' wl') (hr' : Operand nameOf r' wr')
    (hrest : Stops rest) (hrest' : Stops rest')
    (htext : between op wl wr ++ rest = between op' wl' wr' ++ rest') :
    op.apply l r = op'.apply l' r' ∧ rest = rest' := by
  simp only [between, List.append_assoc, List.cons_append] at htext
  obtain ⟨rfl, hop_r⟩ := hl hl' (stops_cons rfl) (stops_cons rfl) htext
  obtain ⟨hsymbol, hafter⟩ := append_inj_of_stops (noStop_symbol hop) (noStop_symbol hop')
    (stops_cons rfl) (stops_cons rfl) (List.cons_eq_cons.1 hop_r).2
  obtain rfl := BinaryOp.symbol_injective hop hop' (String.toList_inj.1 hsymbol)
  obtain ⟨rfl, hsame⟩ := hr hr' hrest hrest' (List.cons_eq_cons.1 hafter).2
  exact ⟨rfl, hsame⟩

theorem Operand.delimits (hnames : ClearNames nameOf) {e : Expr} {w : List Char}
    (h : Operand nameOf e w) : Delimits nameOf e w := by
  -- The first character tells which kind of operand the other one has to be.
  induction h with
  | leaf h =>
    intro e' w' rest rest' h' hrest hrest' htext
    obtain ⟨c, tail, rfl, hplus, hminus, hopen⟩ := (h.isWord hnames).head
    cases h' with
    | leaf h' =>
      obtain ⟨hw, hsame⟩ := append_inj_of_stops (h.isWord hnames).noStop (h'.isWord hnames).noStop
        hrest hrest' htext
      exact ⟨h.unique hnames h' hw, hsame⟩
    | plus => exact absurd (List.cons_eq_cons.1 htext).1 hplus
    | minus => exact absurd (List.cons_eq_cons.1 htext).1 hminus
    | between => exact absurd (List.cons_eq_cons.1 htext).1 hopen
  | plus h ih =>
    intro e' w' rest rest' h' hrest hrest' htext
    cases h' with
    | leaf h' =>
      obtain ⟨c, tail, rfl, hplus, -⟩ := (h'.isWord hnames).head
      exact absurd (List.cons_eq_cons.1 htext).1.symm hplus
    | plus h' =>
      obtain ⟨rfl, hsame⟩ := ih h' hrest hrest' (List.cons_eq_cons.1 htext).2
      exact ⟨rfl, hsame⟩
    | minus | between => exact absurd (List.cons_eq_cons.1 htext).1 (by decide)
  | minus h ih =>
    intro e' w' rest rest' h' hrest hrest' htext
    cases h' with
    | leaf h' =>
      obtain ⟨c, tail, rfl, -, hminus, -⟩ := (h'.isWord hnames).head
      exact absurd (List.cons_eq_cons.1 htext).1.symm hminus
    | minus h' =>
      obtain ⟨rfl, hsame⟩ := ih h' hrest hrest' (List.cons_eq_cons.1 htext).2
      exact ⟨rfl, hsame⟩
    | plus | between => exact absurd (List.cons_eq_cons.1 htext).1 (by decide)
  | between hop hl hr ihl ihr =>
    intro e' w' rest rest' h' hrest hrest' htext
    cases h' with
    | leaf h' =>
      obtain ⟨c, tail, rfl, -, -, hopen⟩ := (h'.isWord hnames).head
      exact absurd (List.cons_eq_cons.1 htext).1.symm hopen
    | plus | minus => exact absurd (List.cons_eq_cons.1 htext).1 (by decide)
    | between hop' hl' hr' =>
      rw [List.cons_append, List.cons_append, List.append_assoc, List.append_assoc] at htext
      have hinside := (List.cons_eq_cons.1 htext).2
      obtain ⟨hsame, hclosed⟩ := between_inj hop hop' ihl ihr hl' hr' (stops_cons rfl)
        (stops_cons rfl) hinside
      exact ⟨hsame, (List.cons_eq_cons.1 hclosed).2⟩

/-- Beside an operand there is room for nothing more. -/
theorem Operand.ne_between (hnames : ClearNames nameOf) {e l : Expr} {w wl : List Char}
    (h : Operand nameOf e w) (hl : Operand nameOf l wl) (op : BinaryOp) (wr : List Char) :
    w ≠ Listing.between op wl wr := by
  intro htext
  obtain ⟨-, hrest⟩ := h.delimits hnames hl stops_nil (stops_cons rfl)
    ((List.append_nil w).trans htext)
  cases hrest

theorem Alone.unique (hnames : ClearNames nameOf) {e e' : Expr} {w w' : List Char}
    (h : Alone nameOf e w) (h' : Alone nameOf e' w') (hw : w = w') : e = e' := by
  cases h with
  | operand h =>
    cases h' with
    | operand h' =>
      exact (h.delimits hnames h' stops_nil stops_nil (congrArg (· ++ []) hw)).1
    | between _ hl' _ => exact (h.ne_between hnames hl' _ _ hw).elim
  | between hop hl hr =>
    cases h' with
    | operand h' => exact (h'.ne_between hnames hl _ _ hw.symm).elim
    | between hop' hl' hr' =>
      exact (between_inj hop hop' (hl.delimits hnames) (hr.delimits hnames) hl' hr' stops_nil
        stops_nil (congrArg (· ++ []) hw)).1

end Listing

/-! ## Expressions -/

/-- Single signs in place of a double one. -/
def ArithmeticOp.signs : ArithmeticOp → Expr → Expr
  | increment, e => .unary plus (.unary plus e)
  | decrement, e => .unary minus (.unary minus e)
  | op, e => .unary op e

/-- The operator whose symbol stands first when this one has one operand. -/
def ArithmeticOp.sign : ArithmeticOp → ArithmeticOp
  | increment => plus
  | decrement => minus
  | op => op

namespace Expr

/-- An expression with single signs in place of all double ones. -/
def singleSigns : Expr → Expr
  | .unary op operand => op.signs operand.singleSigns
  | .binary op lhs rhs => .binary op lhs.singleSigns rhs.singleSigns
  | .compare op lhs rhs => .compare op lhs.singleSigns rhs.singleSigns
  | .assign op lhs rhs => .assign op lhs.singleSigns rhs.singleSigns
  | e => e

/-- The sign with which an expression begins. -/
def sign? : Expr → Option ArithmeticOp
  | .unary op _ => some op.sign
  | _ => none

/-- No sign stands right before the same sign. -/
def Unglued : Expr → Prop
  | .unary op operand => operand.sign? ≠ some op.sign ∧ operand.Unglued
  | .binary _ lhs rhs | .compare _ lhs rhs | .assign _ lhs rhs => lhs.Unglued ∧ rhs.Unglued
  | .ref _ | .int _ | .float _ => True

/-- All references are kept, each operator has the operands that it takes, and all numbers are
finite and have no minus sign. -/
def Listable (kept : Ref → Bool) : Expr → Prop
  | .ref target => kept target = true
  | .int n => 0 ≤ n.toInt
  | .float x => ∃ rank, x = .number false rank ∧ rank.val < Binary64.infinityRank
  | .unary op operand => op.isUnary = true ∧ operand.Listable kept
  | .binary op lhs rhs => op.isUnary = false ∧ lhs.Listable kept ∧ rhs.Listable kept
  | .compare _ lhs rhs | .assign _ lhs rhs => lhs.Listable kept ∧ rhs.Listable kept

theorem sign?_singleSigns (e : Expr) : e.singleSigns.sign? = e.sign? := by
  cases e with
  | unary op operand => cases op <;> rfl
  | _ => rfl

/-- Before operands that do not begin with the same sign, different operators show. -/
theorem signs_inj {op op' : ArithmeticOp} {e e' : Expr} (h : e.sign? ≠ some op.sign)
    (h' : e'.sign? ≠ some op'.sign) (hsame : op.signs e = op'.signs e') : op = op' ∧ e = e' := by
  have hsign : op.sign = op'.sign := by
    have := congrArg sign? hsame
    cases op <;> cases op' <;> first | rfl | cases this
  cases op <;> cases op' <;> cases hsame <;>
    first | exact ⟨rfl, rfl⟩ | exact absurd rfl h | exact absurd rfl h'

theorem sign?_eq {e e' : Expr} (h : e.singleSigns = e'.singleSigns) : e.sign? = e'.sign? := by
  rw [← sign?_singleSigns e, h, sign?_singleSigns e']

theorem singleSigns_inj {e e' : Expr} (h : e.Unglued) (h' : e'.Unglued)
    (hsame : e.singleSigns = e'.singleSigns) : e = e' := by
  induction e generalizing e' with
  | unary op operand ih =>
    cases e' with
    | unary op' operand' =>
      rw [Unglued, ← sign?_singleSigns] at h h'
      obtain ⟨rfl, hoperand⟩ := signs_inj h.1 h'.1 hsame
      rw [ih h.2 h'.2 hoperand]
    | _ => cases sign?_eq hsame
  | binary op lhs rhs ihl ihr =>
    cases e' with
    | unary => cases sign?_eq hsame
    | binary op' lhs' rhs' =>
      obtain ⟨rfl, hl, hr⟩ := Expr.binary.inj hsame
      rw [ihl h.1 h'.1 hl, ihr h.2 h'.2 hr]
    | _ => cases hsame
  | compare op lhs rhs ihl ihr =>
    cases e' with
    | unary => cases sign?_eq hsame
    | compare op' lhs' rhs' =>
      obtain ⟨rfl, hl, hr⟩ := Expr.compare.inj hsame
      rw [ihl h.1 h'.1 hl, ihr h.2 h'.2 hr]
    | _ => cases hsame
  | assign op lhs rhs ihl ihr =>
    cases e' with
    | unary => cases sign?_eq hsame
    | assign op' lhs' rhs' =>
      obtain ⟨rfl, hl, hr⟩ := Expr.assign.inj hsame
      rw [ihl h.1 h'.1 hl, ihr h.2 h'.2 hr]
    | _ => cases hsame
  | ref | int | float =>
    cases e' with
    | unary => cases sign?_eq hsame
    | ref | int | float => exact hsame
    | binary | compare | assign => cases hsame

/-! ## Listings of expressions -/

variable {nameOf : Ref → Option String}

theorem singleSigns_apply (op : BinaryOp) (lhs rhs : Expr) :
    (op.apply lhs rhs).singleSigns = op.apply lhs.singleSigns rhs.singleSigns := by
  cases op <;> rfl

theorem listing_apply (op : BinaryOp) (lhs rhs : Expr) (nested : Bool) :
    (op.apply lhs rhs).listing nameOf nested = Listing.parenthesized nested
      (lhs.listing nameOf true ++ Listing.plain s!" {op.symbol} " ++ rhs.listing nameOf true) := by
  cases op <;> rfl

theorem chars_apply (op : BinaryOp) (lhs rhs : Expr) (nested : Bool) :
    ((op.apply lhs rhs).listing nameOf nested).chars =
      let inside :=
        Listing.between op (lhs.listing nameOf true).chars (rhs.listing nameOf true).chars
      if nested then '(' :: (inside ++ [')']) else inside := by
  have hsymbol : (s!" {op.symbol} ").toList = ' ' :: (op.symbol.toList ++ [' ']) := by
    simp [toString]
  rw [listing_apply, Listing.chars_parenthesized]
  simp [Listing.between, hsymbol]

theorem chars_unary (op : ArithmeticOp) (operand : Expr) (nested : Bool) :
    ((Expr.unary op operand).listing nameOf nested).chars =
      op.symbol.toList ++ (operand.listing nameOf true).chars := by
  rw [listing, Listing.chars_append, Listing.chars_plain]

/-- Double signs look like two single ones. -/
theorem chars_singleSigns (e : Expr) (nested : Bool) :
    (e.singleSigns.listing nameOf nested).chars = (e.listing nameOf nested).chars := by
  have happly (op : BinaryOp) {lhs rhs : Expr} {nested : Bool}
      (hl : ∀ nested, (lhs.singleSigns.listing nameOf nested).chars =
        (lhs.listing nameOf nested).chars)
      (hr : ∀ nested, (rhs.singleSigns.listing nameOf nested).chars =
        (rhs.listing nameOf nested).chars) :
      ((op.apply lhs rhs).singleSigns.listing nameOf nested).chars =
        ((op.apply lhs rhs).listing nameOf nested).chars := by
    rw [singleSigns_apply, chars_apply, chars_apply, hl, hr]
  induction e generalizing nested with
  | ref | int | float => rfl
  | unary op operand ih =>
    rw [chars_unary, ← ih true]
    cases op <;> simp [singleSigns, ArithmeticOp.signs, chars_unary, ArithmeticOp.symbol]
  | binary op lhs rhs ihl ihr => exact happly (.arithmetic op) ihl ihr
  | compare op lhs rhs ihl ihr => exact happly (.comparison op) ihl ihr
  | assign op lhs rhs ihl ihr => exact happly (.assignment op) ihl ihr

theorem chars_ref {r : Ref} {s : String} (h : nameOf r = some s) (nested : Bool) :
    ((Expr.ref r).listing nameOf nested).chars = s.toList := by
  rw [listing, Ref.listing, h, Listing.chars_plain]

theorem operand_listing {kept : Ref → Bool} (hkept : ∀ r, kept r = true → ∃ s, nameOf r = some s)
    {e : Expr} (h : e.Listable kept) :
    Listing.Operand nameOf e.singleSigns (e.listing nameOf true).chars := by
  have happly (op : BinaryOp) (hop : op.TakesTwo) {lhs rhs : Expr}
      (hl : Listing.Operand nameOf lhs.singleSigns (lhs.listing nameOf true).chars)
      (hr : Listing.Operand nameOf rhs.singleSigns (rhs.listing nameOf true).chars) :
      Listing.Operand nameOf (op.apply lhs rhs).singleSigns
        ((op.apply lhs rhs).listing nameOf true).chars := by
    rw [singleSigns_apply, chars_apply]
    exact .between hop hl hr
  induction e with
  | ref target =>
    obtain ⟨s, hs⟩ := hkept target h
    rw [chars_ref hs]
    exact .leaf (.ref hs)
  | int n =>
    rw [listing, Listing.chars_constant]
    exact .leaf (.int h)
  | float x =>
    obtain ⟨rank, rfl, hrank⟩ := h
    rw [listing, Listing.chars_constant]
    exact .leaf (.float hrank)
  | unary op operand ih =>
    have hoperand := ih h.2
    rw [chars_unary]
    cases op with
    | plus => exact .plus hoperand
    | minus => exact .minus hoperand
    | increment => exact .plus (.plus hoperand)
    | decrement => exact .minus (.minus hoperand)
    | _ => cases h.1
  | binary op lhs rhs ihl ihr => exact happly (.arithmetic op) h.1 (ihl h.2.1) (ihr h.2.2)
  | compare op lhs rhs ihl ihr => exact happly (.comparison op) trivial (ihl h.1) (ihr h.2)
  | assign op lhs rhs ihl ihr => exact happly (.assignment op) trivial (ihl h.1) (ihr h.2)

theorem alone_listing {kept : Ref → Bool} (hkept : ∀ r, kept r = true → ∃ s, nameOf r = some s)
    {e : Expr} (h : e.Listable kept) (nested : Bool) :
    Listing.Alone nameOf e.singleSigns (e.listing nameOf nested).chars := by
  have happly (op : BinaryOp) (hop : op.TakesTwo) {lhs rhs : Expr} (hl : lhs.Listable kept)
      (hr : rhs.Listable kept) : Listing.Alone nameOf (op.apply lhs rhs).singleSigns
        ((op.apply lhs rhs).listing nameOf false).chars := by
    rw [singleSigns_apply, chars_apply]
    exact .between hop (operand_listing hkept hl) (operand_listing hkept hr)
  cases nested with
  | true => exact .operand (operand_listing hkept h)
  | false =>
    cases e with
    | ref | int | float | unary => exact .operand (operand_listing hkept h)
    | binary op lhs rhs => exact happly (.arithmetic op) h.1 h.2.1 h.2.2
    | compare op lhs rhs => exact happly (.comparison op) trivial h.1 h.2
    | assign op lhs rhs => exact happly (.assignment op) trivial h.1 h.2

end Expr

/-! ## Names in sight -/

/-- The references to the declarations of an arena, with the names of these. -/
def Arena.named {cls : DeclClass} {α : Type} (toRef : Id cls → Ref) (name : α → String)
    (a : Arena cls α) : List (Ref × String) :=
  a.toList.zipIdx.map fun item => (toRef (.ofNat item.2), name item.1)

theorem Arena.mem_named {cls : DeclClass} {α : Type} (toRef : Id cls → Ref) (name : α → String)
    {a : Arena cls α} {i : Id cls} {x : α} (h : a.get? i = some x) :
    (toRef i, name x) ∈ a.named toRef name := by
  have hitem : (x, i.toNat) ∈ a.toList.zipIdx := by
    rw [List.mk_mem_zipIdx_iff_getElem?, Arena.toList, Array.getElem?_toList]
    exact h
  refine List.mem_map.2 ⟨(x, i.toNat), hitem, ?_⟩
  rw [Id.ofNat_toNat]

/-- The references that lead to declarations, with the names of these. -/
def Module.visible (m : Module) (inside : Option Function) : List (Ref × String) :=
  m.globals.named .global Variable.name ++ m.functions.named .function Function.name ++
    match inside with
    | none => []
    | some f =>
      f.parameters.named .parameter Parameter.name ++ f.locals.named .localVar Variable.name

theorem Module.mem_visible {m : Module} {inside : Option Function} {r : Ref} {s : String}
    (h : m.nameOf inside r = some s) : (r, s) ∈ m.visible inside := by
  simp only [Module.nameOf, Option.map_eq_some_iff] at h
  obtain ⟨d, hd, rfl⟩ := h
  simp only [Module.visible, List.mem_append]
  cases r with
  | global id =>
    obtain ⟨v, hv, rfl⟩ := Option.map_eq_some_iff.1 hd
    exact .inl (.inl (Arena.mem_named .global Variable.name hv))
  | function id =>
    obtain ⟨f, hf, rfl⟩ := Option.map_eq_some_iff.1 hd
    exact .inl (.inr (Arena.mem_named .function Function.name hf))
  | parameter id =>
    obtain ⟨f, rfl, hf⟩ := Option.bind_eq_some_iff.1 hd
    obtain ⟨p, hp, rfl⟩ := Option.map_eq_some_iff.1 hf
    exact .inr (List.mem_append_left _ (Arena.mem_named .parameter Parameter.name hp))
  | localVar id =>
    obtain ⟨f, rfl, hf⟩ := Option.bind_eq_some_iff.1 hd
    obtain ⟨v, hv, rfl⟩ := Option.map_eq_some_iff.1 hf
    exact .inr (List.mem_append_right _ (Arena.mem_named .localVar Variable.name hv))

theorem Module.clearNames {m : Module} {inside : Option Function}
    (hnames : ((m.visible inside).map Prod.snd).Nodup)
    (hidentifiers : ∀ item ∈ m.visible inside, Listing.IsIdentifier item.2) :
    Listing.ClearNames (m.nameOf inside) where
  injective h h' := congrArg Prod.fst
    (List.inj_on_of_nodup_map hnames (Module.mem_visible h) (Module.mem_visible h') rfl)
  identifier h := hidentifiers _ (Module.mem_visible h)

/-- Where all names in sight are different identifiers, two expressions have the same listing
exactly if they are the same with single signs in place of double ones. If moreover no sign in them
stands right before the same sign, they have the same listing only if they are the same. -/
theorem Module.listing_eq_iff_singleSigns {m : Module} {inside : Option Function}
    (hnames : ((m.visible inside).map Prod.snd).Nodup)
    (hidentifiers : ∀ item ∈ m.visible inside, Listing.IsIdentifier item.2) {e e' : Expr}
    (he : e.Listable (m.declares inside)) (he' : e'.Listable (m.declares inside)) (nested : Bool) :
    ((e.listing (m.nameOf inside) nested).text false =
        (e'.listing (m.nameOf inside) nested).text false ↔ e.singleSigns = e'.singleSigns) ∧
      (e.Unglued → e'.Unglued → (e.listing (m.nameOf inside) nested).text false =
        (e'.listing (m.nameOf inside) nested).text false → e = e') := by
  have hclear := Module.clearNames hnames hidentifiers
  have hkept (r : Ref) (hr : m.declares inside r = true) : ∃ s, m.nameOf inside r = some s := by
    obtain ⟨d, hd⟩ := Option.isSome_iff_exists.1 hr
    exact ⟨d.name, by rw [Module.nameOf, hd, Option.map_some]⟩
  have hiff : (e.listing (m.nameOf inside) nested).text false =
      (e'.listing (m.nameOf inside) nested).text false ↔ e.singleSigns = e'.singleSigns := by
    rw [Listing.text_inj]
    constructor
    · exact (Expr.alone_listing hkept he nested).unique hclear (Expr.alone_listing hkept he' nested)
    · intro hsame
      rw [← Expr.chars_singleSigns e, hsame, Expr.chars_singleSigns]
  exact ⟨hiff, fun h h' htext => Expr.singleSigns_inj h h' (hiff.1 htext)⟩

/-- A plus sign before a plus sign looks like an increment. -/
theorem Module.listing_eq_of_double_plus :
    let m : Module := { name := "m", globals := ⟨#[{ name := "a", type := { name := "int" } }]⟩ }
    let a : Expr := .ref (.global (.ofNat 0))
    let twice : Expr := .unary .plus (.unary .plus a)
    let increment : Expr := .unary .increment a
    (((m.visible none).map Prod.snd).Nodup ∧
      (∀ item ∈ m.visible none, Listing.IsIdentifier item.2) ∧
      twice.Listable (m.declares none) ∧ increment.Listable (m.declares none)) ∧
    (twice.listing (m.nameOf none) false).text false = "++a" ∧
    (increment.listing (m.nameOf none) false).text false = "++a" ∧
    twice ≠ increment ∧ ¬(twice.Unglued ∧ increment.Unglued) := by
  intro m a twice increment
  have hvisible : m.visible none = [(.global (.ofNat 0), "a")] := rfl
  have hnames : ((m.visible none).map Prod.snd).Nodup := by
    rw [hvisible]
    exact List.nodup_singleton "a"
  have hidentifier : Listing.IsIdentifier "a" := ⟨⟨'a', [], rfl, rfl⟩, by simp; rfl⟩
  have hidentifiers : ∀ item ∈ m.visible none, Listing.IsIdentifier item.2 := by
    rw [hvisible]
    exact List.forall_mem_singleton.2 hidentifier
  have htwice : twice.Listable (m.declares none) := ⟨rfl, rfl, rfl⟩
  have hincrement : increment.Listable (m.declares none) := ⟨rfl, rfl⟩
  have hlistings := Module.listing_eq_iff_singleSigns hnames hidentifiers htwice hincrement false
  have hsame := hlistings.1.2 rfl
  have hne : twice ≠ increment := by decide
  have htext : (increment.listing (m.nameOf none) false).text false = "++a" := by cbv
  refine ⟨⟨hnames, hidentifiers, htwice, hincrement⟩, hsame.trans htext, htext, hne, ?_⟩
  rintro ⟨hunglued, hunglued'⟩
  exact hne (hlistings.2 hunglued hunglued' hsame)

end KeyedIR
