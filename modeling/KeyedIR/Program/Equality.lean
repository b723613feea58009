import KeyedIR.Program.Syntax
/-! # Equality of programs

Two modules are equal if they have the same parts in the same order. Labels do not count, and
constants are compared as numbers: the two zeros are equal, and a NaN equals nothing.
-/

namespace KeyedIR

set_option autoImplicit false

protected def Expr.beq : Expr → Expr → Bool
  | .ref r, .ref r' => decide (r = r')
  | .int n, .int n' => decide (n = n')
  | .float x, .float x' => x == x'
  | .unary op e, .unary op' e' => decide (op = op') && e.beq e'
  | .binary op l r, .binary op' l' r' => decide (op = op') && l.beq l' && r.beq r'
  | .compare op l r, .compare op' l' r' => decide (op = op') && l.beq l' && r.beq r'
  | .assign op l r, .assign op' l' r' => decide (op = op') && l.beq l' && r.beq r'
  | _, _ => false

instance : BEq Expr := ⟨Expr.beq⟩

mutual

protected def Stmt.beq : Stmt → Stmt → Bool
  | .init v e, .init v' e' => decide (v = v') && e == e'
  | .eval e, .eval e' => e == e'
  | .loop start cond test step body, .loop start' cond' test' step' body' =>
    Stmt.listBeq start start' && cond == cond' && test == test' && step == step' &&
      Stmt.listBeq body body'
  | .ret e, .ret e' => e == e'
  | _, _ => false

protected def Stmt.listBeq : List Stmt → List Stmt → Bool
  | [], [] => true
  | s :: rest, s' :: rest' => s.beq s' && Stmt.listBeq rest rest'
  | _, _ => false

end

instance : BEq Stmt := ⟨Stmt.beq⟩

instance : BEq TypeName := ⟨fun t t' => decide (t.name = t'.name)⟩

instance : BEq Variable := ⟨fun v v' =>
  decide (v.name = v'.name) && v.type == v'.type && v.init == v'.init⟩

instance : BEq Parameter := ⟨fun p p' => decide (p.name = p'.name) && p.type == p'.type⟩

instance : BEq Function := ⟨fun f f' =>
  decide (f.name = f'.name) && f.returns == f'.returns && f.parameters == f'.parameters &&
    decide (f.isVariadic = f'.isVariadic) && f.locals == f'.locals &&
    Stmt.listBeq f.body f'.body && decide (f.isInline = f'.isInline)⟩

instance : BEq Module := ⟨fun m m' =>
  decide (m.name = m'.name) && m.types == m'.types && m.globals == m'.globals &&
    m.functions == m'.functions⟩

end KeyedIR
