import KeyedIR.Binary64.Shortest
import KeyedIR.Text.Quoted
/-! # Values

A stored value is a string, a 64-bit integer or a binary64 number. Each is written so that its
kind shows: a string in quotes, an integer as digits with at most a minus sign, and a number with
a point, an exponent or a word.
-/

namespace KeyedIR

set_option autoImplicit false

inductive Kind where
  | string
  | integer
  | float
  deriving DecidableEq

def Kind.name : Kind → String
  | string => "string"
  | integer => "integer"
  | float => "float"

inductive Value where
  | string (s : String)
  | integer (n : Int64)
  | float (x : Binary64)
  deriving DecidableEq

inductive ValueFault where
  | badString (fault : Text.QuoteFault)
  | integerOutOfRange (text : String)
  | notAValue (text : String)
  deriving DecidableEq

def Text.QuoteFault.message : Text.QuoteFault → String
  | unknownEscape c => "unknown escape `\\" ++ c.toString ++ "`"
  | unterminated => "unterminated string"
  | textAfterString => "unexpected text after string"

def ValueFault.message : ValueFault → String
  | badString fault => fault.message
  | integerOutOfRange text => s!"integer `{text}` is out of range"
  | notAValue text => s!"invalid value `{text}`"

namespace Value

def kind : Value → Kind
  | string _ => .string
  | integer _ => .integer
  | float _ => .float

/-- Equality of values, which for two numbers is equality of numbers. -/
protected def beq : Value → Value → Bool
  | string s, string s' => decide (s = s')
  | integer n, integer n' => decide (n = n')
  | float x, float x' => x == x'
  | _, _ => false

instance : BEq Value := ⟨Value.beq⟩

def text : Value → List Char
  | string s => Text.quote s.toList
  | integer n => Decimal.intText n.toInt
  | float x => x.text

/-- The whole number of a text of digits with an optional minus sign, and nothing for any other
text. -/
def readInt? (text : List Char) : Option Int :=
  let (negative, digits) := match text with
    | '-' :: digits => (true, digits)
    | digits => (false, digits)
  if digits.isEmpty || !digits.all Char.isDigit then none
  else
    let size : Int := Nat.ofDigitChars 10 digits 0
    some (if negative then -size else size)

def int64? (n : Int) : Option Int64 :=
  if Int64.minValue.toInt ≤ n ∧ n ≤ Int64.maxValue.toInt then some (Int64.ofInt n) else none

/-- Reads a value: a text that starts with a quote is a string, digits are an integer even where
they do not fit, and anything else is a number or nothing. -/
def read (text : List Char) : Except ValueFault Value :=
  match text with
  | '"' :: rest =>
    match Text.unquote rest with
    | .ok s => .ok (string (String.ofList s))
    | .error fault => .error (.badString fault)
  | _ =>
    match readInt? text with
    | some n =>
      match int64? n with
      | some word => .ok (integer word)
      | none => .error (.integerOutOfRange (String.ofList text))
    | none =>
      match Binary64.read? text with
      | some x => .ok (float x)
      | none => .error (.notAValue (String.ofList text))

end Value

end KeyedIR
