import KeyedIR.Binary64.Shortest
import KeyedIR.Listing.Span
import KeyedIR.Program.Declaration
/-! # Programs as listings

A module as C-like source with colours, for people to read. An operator with two operands is put
in parentheses where it is an operand itself; a reference that leads nowhere shows what it is.
-/

namespace KeyedIR

set_option autoImplicit false

namespace Listing

def plain (s : String) : Listing := [.plain s]

def keyword (s : String) : Listing := [.colored .magenta s]

def title (s : String) : Listing := [.colored .blue s]

def type (s : String) : Listing := [.colored .cyan s]

def constant (s : List Char) : Listing := [.colored .magenta (String.ofList s)]

def indent (depth : Nat) : Listing :=
  plain (String.ofList (List.replicate (4 * depth) ' '))

def join (separator : String) : List Listing → Listing
  | [] => []
  | [l] => l
  | l :: rest => l ++ plain separator ++ join separator rest

def parenthesized (nested : Bool) (l : Listing) : Listing :=
  if nested then plain "(" ++ l ++ plain ")" else l

end Listing

open Listing

/-- A reference as the name it leads to, or as itself if it leads nowhere. -/
def Ref.listing (nameOf : Ref → Option String) (r : Ref) : Listing :=
  match nameOf r with
  | some name => plain name
  | none => [.colored .red s!"<unresolved {r.text}>"]

/-- An expression, which is an operand or stands alone. -/
def Expr.listing (nameOf : Ref → Option String) (nested : Bool) : Expr → Listing
  | .ref target => target.listing nameOf
  | .int n => constant (Decimal.intText n.toInt)
  | .float x => constant x.text
  | .unary op operand => plain op.symbol ++ operand.listing nameOf true
  | .binary op lhs rhs =>
    parenthesized nested (lhs.listing nameOf true ++ plain s!" {op.symbol} " ++
      rhs.listing nameOf true)
  | .compare op lhs rhs =>
    parenthesized nested (lhs.listing nameOf true ++ plain s!" {op.symbol} " ++
      rhs.listing nameOf true)
  | .assign op lhs rhs =>
    parenthesized nested (lhs.listing nameOf true ++ plain s!" {op.symbol} " ++
      rhs.listing nameOf true)

/-- An expression that may be absent, after a text. -/
def Listing.slot (nameOf : Ref → Option String) (before : String) (e : Option Expr) : Listing :=
  match e with
  | some e => plain before ++ e.listing nameOf false
  | none => []

def Listing.loopHead (nameOf : Ref → Option String) (start : List Listing)
    (cond test step : Option Expr) : Listing :=
  keyword "for" ++ plain " (" ++ (if start.isEmpty then plain ";" else join " " start) ++
    plain " " ++ slot nameOf "" cond ++ plain "; " ++ slot nameOf "" test ++ plain "; " ++
    slot nameOf "" step ++ plain ")"

mutual

/-- A statement on one line, without the end of that line. -/
def Stmt.lineListing (nameOf : Ref → Option String) : Stmt → Listing
  | .init target value =>
    target.toRef.listing nameOf ++ plain " = " ++ value.listing nameOf false ++ plain ";"
  | .eval e => e.listing nameOf false ++ plain ";"
  | .loop start cond test step body =>
    loopHead nameOf (Stmt.lineListings nameOf start) cond test step ++ plain " \x7b" ++
      (Stmt.lineListings nameOf body).flatMap (plain " " ++ ·) ++ plain " \x7d"
  | .ret value => keyword "return" ++ slot nameOf " " value ++ plain ";"

def Stmt.lineListings (nameOf : Ref → Option String) : List Stmt → List Listing
  | [] => []
  | s :: rest => s.lineListing nameOf :: Stmt.lineListings nameOf rest

end

mutual

/-- A statement on lines of its own, at a depth. The body of a loop is one level deeper. -/
def Stmt.listing (nameOf : Ref → Option String) (depth : Nat) : Stmt → Listing
  | .loop start cond test step body =>
    indent depth ++ loopHead nameOf (Stmt.lineListings nameOf start) cond test step ++
      plain " \x7b\n" ++ Stmt.listListing nameOf (depth + 1) body ++
      indent depth ++ plain "\x7d\n"
  | s => indent depth ++ s.lineListing nameOf ++ plain "\n"

def Stmt.listListing (nameOf : Ref → Option String) (depth : Nat) : List Stmt → Listing
  | [] => []
  | s :: rest => s.listing nameOf depth ++ Stmt.listListing nameOf depth rest

end

def Module.nameOf (m : Module) (inside : Option Function) (r : Ref) : Option String :=
  (m.target? inside r).map Declaration.name

def Variable.listing (nameOf : Ref → Option String) (v : Variable) : Listing :=
  Listing.type v.type.name ++ plain s!" {v.name}" ++ slot nameOf " = " v.init ++ plain ";"

def Parameter.listing (p : Parameter) : Listing :=
  Listing.type p.type.name ++ plain s!" {p.name}"

def Function.listing (m : Module) (f : Function) : Listing :=
  let nameOf := m.nameOf (some f)
  let parameters := f.parameters.toList.map Parameter.listing ++
    if f.isVariadic then [plain "..."] else []
  (if f.isInline then keyword "inline" ++ plain " " else []) ++
    Listing.type f.returns.name ++ plain " " ++ title f.name ++ plain "(" ++
    join ", " parameters ++ plain ") \x7b\n" ++
    f.locals.toList.flatMap (fun v => indent 1 ++ v.listing nameOf ++ plain "\n") ++
    Stmt.listListing nameOf 1 f.body ++ plain "\x7d\n"

/-- A module: its name, its types, its globals and its functions, with an empty line before each
group and before each function. -/
def Module.listing (m : Module) : Listing :=
  keyword "module" ++ plain " " ++ title m.name ++ plain "\n" ++
    (if m.types.isEmpty then [] else plain "\n") ++
    m.types.toList.flatMap (fun t =>
      keyword "typedef" ++ plain " " ++ Listing.type t.name ++ plain ";\n") ++
    (if m.globals.isEmpty then [] else plain "\n") ++
    m.globals.toList.flatMap (fun v => v.listing (m.nameOf none) ++ plain "\n") ++
    m.functions.toList.flatMap (fun f => plain "\n" ++ f.listing m)

end KeyedIR
