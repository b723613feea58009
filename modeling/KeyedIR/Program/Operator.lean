/-! # Operators

The operators of the three families, each with the word that is stored for it and the symbol that
is printed. Within a family no two operators share a word.
-/

namespace KeyedIR

set_option autoImplicit false

inductive OperatorFamily where
  | arithmetic | comparison | assignment
  deriving DecidableEq

def OperatorFamily.name : OperatorFamily → String
  | arithmetic => "arithmetic"
  | comparison => "comparison"
  | assignment => "assignment"

/-- Operators on numbers; the first four take one operand. -/
inductive ArithmeticOp where
  | plus | minus | increment | decrement
  | add | subtract | multiply | divide | modulus
  deriving DecidableEq

namespace ArithmeticOp

def all : List ArithmeticOp :=
  [plus, minus, increment, decrement, add, subtract, multiply, divide, modulus]

def isUnary : ArithmeticOp → Bool
  | plus | minus | increment | decrement => true
  | add | subtract | multiply | divide | modulus => false

def word : ArithmeticOp → String
  | plus => "plus"
  | minus => "minus"
  | increment => "inc"
  | decrement => "dec"
  | add => "add"
  | subtract => "sub"
  | multiply => "mult"
  | divide => "div"
  | modulus => "mod"

def ofWord? (s : String) : Option ArithmeticOp := all.find? (·.word == s)

def symbol : ArithmeticOp → String
  | plus | add => "+"
  | minus | subtract => "-"
  | increment => "++"
  | decrement => "--"
  | multiply => "*"
  | divide => "/"
  | modulus => "%"

theorem ofWord?_word (op : ArithmeticOp) : ofWord? op.word = some op := by
  cases op <;> rfl

end ArithmeticOp

inductive ComparisonOp where
  | equal | notEqual | less | greater | lessOrEqual | greaterOrEqual
  deriving DecidableEq

namespace ComparisonOp

def all : List ComparisonOp := [equal, notEqual, less, greater, lessOrEqual, greaterOrEqual]

def word : ComparisonOp → String
  | equal => "equal"
  | notEqual => "notequal"
  | less => "lessthan"
  | greater => "gtrthan"
  | lessOrEqual => "lessequal"
  | greaterOrEqual => "gtrequal"

def ofWord? (s : String) : Option ComparisonOp := all.find? (·.word == s)

def symbol : ComparisonOp → String
  | equal => "=="
  | notEqual => "!="
  | less => "<"
  | greater => ">"
  | lessOrEqual => "<="
  | greaterOrEqual => ">="

theorem ofWord?_word (op : ComparisonOp) : ofWord? op.word = some op := by
  cases op <;> rfl

end ComparisonOp

inductive AssignmentOp where
  | assign | multiply | divide | modulus | add | subtract
  | shiftLeft | shiftRight | bitAnd | bitXor | bitOr
  deriving DecidableEq

namespace AssignmentOp

def all : List AssignmentOp :=
  [assign, multiply, divide, modulus, add, subtract, shiftLeft, shiftRight, bitAnd, bitXor, bitOr]

def word : AssignmentOp → String
  | assign => "equal"
  | multiply => "multequal"
  | divide => "divequal"
  | modulus => "modequal"
  | add => "addequal"
  | subtract => "subequal"
  | shiftLeft => "lshiftequal"
  | shiftRight => "rshiftequal"
  | bitAnd => "andequal"
  | bitXor => "xorequal"
  | bitOr => "orequal"

def ofWord? (s : String) : Option AssignmentOp := all.find? (·.word == s)

def symbol : AssignmentOp → String
  | assign => "="
  | multiply => "*="
  | divide => "/="
  | modulus => "%="
  | add => "+="
  | subtract => "-="
  | shiftLeft => "<<="
  | shiftRight => ">>="
  | bitAnd => "&="
  | bitXor => "^="
  | bitOr => "|="

theorem ofWord?_word (op : AssignmentOp) : ofWord? op.word = some op := by
  cases op <;> rfl

end AssignmentOp

end KeyedIR
