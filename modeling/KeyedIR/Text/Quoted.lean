import KeyedIR.Text.Blank
/-! # Quoted strings

A string is stored between double quotes. Four characters are written as a backslash and a
letter: the quote, the backslash, the line feed and the tab. Every other character stands for
itself. `unquote (encode s ++ ['"'])` gives `s` back for every `s`.
-/

namespace KeyedIR.Text

set_option autoImplicit false

inductive QuoteFault where
  | unknownEscape (c : Char)
  | unterminated
  | textAfterString
  deriving DecidableEq

/-- The letter that stands for a character after a backslash. -/
def escapeLetter? : Char → Option Char
  | '"' => some '"'
  | '\\' => some '\\'
  | '\n' => some 'n'
  | '\t' => some 't'
  | _ => none

def escaped? : Char → Option Char
  | '"' => some '"'
  | '\\' => some '\\'
  | 'n' => some '\n'
  | 't' => some '\t'
  | _ => none

def encodeChar (c : Char) : List Char :=
  match escapeLetter? c with
  | some letter => ['\\', letter]
  | none => [c]

def encode (s : List Char) : List Char := s.flatMap encodeChar

def quote (s : List Char) : List Char := '"' :: (encode s ++ ['"'])

/-- Reads what follows an opening quote, up to the closing one; only white space may follow that. -/
def unquote : List Char → Except QuoteFault (List Char)
  | [] => .error .unterminated
  | '"' :: rest => if rest.all isBlank then .ok [] else .error .textAfterString
  | ['\\'] => .error .unterminated
  | '\\' :: letter :: rest =>
    match escaped? letter with
    | some c => (unquote rest).map (c :: ·)
    | none => .error (.unknownEscape letter)
  | c :: rest => (unquote rest).map (c :: ·)

@[simp] theorem encode_nil : encode [] = [] := rfl

@[simp] theorem encode_cons (c : Char) (s : List Char) :
    encode (c :: s) = encodeChar c ++ encode s := rfl

theorem unquote_encode (s : List Char) : unquote (encode s ++ ['"']) = .ok s := by
  induction s with
  | nil => rfl
  | cons c s ih =>
    rw [encode_cons, encodeChar]
    fun_cases escapeLetter? c
    case case5 h1 h2 _ _ =>
      simp only [List.cons_append, List.nil_append]
      rw [unquote.eq_5, ih]
      · rfl
      · exact h1
      · intro h _; exact h2 h
      · intro _ _ h; exact absurd h h2
    all_goals simp [unquote, escaped?, ih, Except.map]

end KeyedIR.Text
