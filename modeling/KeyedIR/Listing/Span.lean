/-! # Coloured text

A listing is a list of spans, some with a colour. With colours off its text is that of its spans;
with colours on, each coloured span stands between the code that starts its colour and the code
that ends all colours. Where a span's own text ends all colours, the span's colour starts again.
-/

namespace KeyedIR

set_option autoImplicit false

inductive Color where
  | magenta
  | blue
  | cyan
  | red
  deriving DecidableEq

def Color.code : Color → List Char
  | magenta => ['3', '5']
  | blue => ['3', '4']
  | cyan => ['3', '6']
  | red => ['3', '1']

/-- A piece of text, with a colour or without. -/
inductive Span where
  | plain (text : String)
  | colored (color : Color) (text : String)
  deriving DecidableEq

abbrev Listing := List Span

namespace Span

def start (color : Color) : List Char := '\x1b' :: '[' :: (color.code ++ ['m'])

def reset : List Char := ['\x1b', '[', '0', 'm']

/-- A text in which a colour starts again after every code that ends all colours. -/
def restart (color : Color) : List Char → List Char
  | [] => []
  | '\x1b' :: '[' :: '0' :: 'm' :: rest => reset ++ start color ++ restart color rest
  | c :: rest => c :: restart color rest

def text (colors : Bool) : Span → List Char
  | plain s => s.toList
  | colored color s =>
    if colors then start color ++ restart color s.toList ++ reset else s.toList

end Span

def Listing.text (colors : Bool) (l : Listing) : String :=
  String.ofList (l.flatMap (Span.text colors))

end KeyedIR
