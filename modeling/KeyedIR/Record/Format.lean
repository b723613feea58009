import KeyedIR.Path
/-! # The record format

A module is stored below the key `module`, and the version of the format beside it. Lists of
declarations are keyed by labels and lists of statements by position; an empty list of statements
is a marker instead. The tags say which kind of statement or expression a record holds.
-/

namespace KeyedIR

set_option autoImplicit false

namespace Record

def version : String := "0.2.0"

def versionPath : Path := ["OILCan", "version"]

def moduleKey : String := "module"

/-- What is stored in place of an empty list of statements. -/
def emptyList : String := "empty"

def statementKey (position : Nat) : String := String.ofList ('s' :: Nat.toDigits 10 position)

theorem statementKey_injective {i j : Nat} (h : statementKey i = statementKey j) : i = j := by
  have h' := congrArg String.toList h
  simp only [statementKey, String.toList_ofList, List.cons.injEq, true_and] at h'
  have hn := congrArg (Nat.ofDigitChars 10 · 0) h'
  simpa only [Nat.ofDigitChars_toDigits (b := 10) (by decide) (by decide)] using hn

end Record

inductive StmtTag where
  | init | eval | loop | ret
  deriving DecidableEq

namespace StmtTag

def all : List StmtTag := [init, eval, loop, ret]

def word : StmtTag → String
  | init => "decl-init"
  | eval => "expr-stmt"
  | loop => "for-stmt"
  | ret => "ret-stmt"

def ofWord? (s : String) : Option StmtTag := all.find? (·.word == s)

theorem ofWord?_word (tag : StmtTag) : ofWord? tag.word = some tag := by
  cases tag <;> rfl

end StmtTag

inductive ExprTag where
  | ref | int | float | arithmetic | compare | assign
  deriving DecidableEq

namespace ExprTag

def all : List ExprTag := [ref, int, float, arithmetic, compare, assign]

def word : ExprTag → String
  | ref => "ident-expr"
  | int => "int-const"
  | float => "float-const"
  | arithmetic => "arith-expr"
  | compare => "comp-expr"
  | assign => "assign-expr"

def ofWord? (s : String) : Option ExprTag := all.find? (·.word == s)

theorem ofWord?_word (tag : ExprTag) : ofWord? tag.word = some tag := by
  cases tag <;> rfl

end ExprTag

end KeyedIR
