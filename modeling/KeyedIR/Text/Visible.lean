import KeyedIR.Text.Invisible
/-! # Strings made visible

A string in quotes for messages, in which every character shows: the quote, the backslash and four
controls have short forms, and any other character that does not show is written by its code point.
-/

namespace KeyedIR.Text

set_option autoImplicit false

def visibleChar (c : Char) : List Char :=
  match c with
  | '"' => ['\\', '"']
  | '\\' => ['\\', '\\']
  | '\n' => ['\\', 'n']
  | '\r' => ['\\', 'r']
  | '\t' => ['\\', 't']
  | '\x00' => ['\\', '0']
  | c => if isVisible c then [c]
    else '\\' :: 'u' :: '\x7b' :: (Nat.toDigits 16 c.toNat ++ ['\x7d'])

/-- A string in quotes in which every character shows. -/
def visible (s : String) : String :=
  String.ofList ('"' :: (s.toList.flatMap visibleChar ++ ['"']))

def visibleList (strings : List String) : String :=
  "[" ++ ", ".intercalate (strings.map visible) ++ "]"

end KeyedIR.Text
