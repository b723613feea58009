/-! # Lines

A line ends at a line feed, and one carriage return just before that line feed belongs to the
end and not to the line. A text that does not end in a line feed has an unfinished last line,
which keeps every carriage return.
-/

namespace KeyedIR.Text

set_option autoImplicit false

/-- The lines of a text, without their ends. -/
def lines : List Char → List (List Char)
  | [] => []
  | '\n' :: rest => [] :: lines rest
  | '\r' :: '\n' :: rest => [] :: lines rest
  | c :: rest =>
    match lines rest with
    | [] => [[c]]
    | line :: others => (c :: line) :: others

theorem lines_eq_nil_iff {text : List Char} : lines text = [] ↔ text = [] := by
  fun_cases lines text <;> simp_all

end KeyedIR.Text
