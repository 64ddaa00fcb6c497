import LinProg.Row

/-!
# Linear expressions

An affine combination of variables: a sum of terms, each a coefficient times a variable, and a
constant. Terms are kept in the order in which their variables first came up, one for each
variable index; a coefficient that becomes zero stays. Expressions are values, and every
operation gives a new one.

Terms are merged by the index of the variable alone. The name that came first is kept. -/

namespace LinProg

/-- A coefficient and the variable that it multiplies. -/
structure Term (α : Type) where
  /-- The factor. -/
  coefficient : α
  /-- The variable. -/
  var : Variable
deriving BEq

/-- An affine combination of variables. Two expressions are equal when they have equal terms in
the same order and equal constants. -/
structure Expression (α : Type) where
  /-- The terms, one for each variable index. -/
  terms : List (Term α)
  /-- The constant term. -/
  constant : α
deriving BEq

namespace Expression

variable {α : Type}

/-- The variables, in the order in which they came up. -/
def vars (e : Expression α) : List Variable :=
  e.terms.map (·.var)

/-- The index map: where among the terms the variable of an index stands. -/
def position? (e : Expression α) (index : Nat) : Option Nat :=
  e.terms.findIdx? (·.var.index == index)

/-- The largest number of entries that a dense vector can have: its size in bytes, eight for each
entry, must be a signed 64-bit number. -/
def maxDenseLength : Nat :=
  Nat.pow 2 60 - 1

variable [Scalar α]

/-- The expression without terms whose constant is zero. -/
def empty : Expression α :=
  ⟨[], 0⟩

/-- The expression that is a constant. -/
def ofScalar (k : α) : Expression α :=
  ⟨[], k⟩

/-- Add a coefficient to the term of a variable, which comes to the end when there is none. -/
def push (e : Expression α) (c : α) (v : Variable) : Expression α :=
  match e.position? v.index with
  | some k =>
    { e with terms := e.terms.modify k fun t => { t with coefficient := t.coefficient + c } }
  | none => { e with terms := e.terms ++ [⟨c, v⟩] }

/-- The expression with a single term. -/
def ofTerm (c : α) (v : Variable) : Expression α :=
  empty.push c v

/-- The expression that is one variable. -/
def ofVariable (v : Variable) : Expression α :=
  ofTerm 1 v

/-- The coefficient of a variable, found by its index; zero when it does not come up. -/
def coefficient (e : Expression α) (v : Variable) : α :=
  (((e.position? v.index).bind (e.terms[·]?)).map (·.coefficient)).getD 0

/-- No variable has a coefficient different from zero. -/
def isConstant (e : Expression α) : Bool :=
  e.terms.all (·.coefficient == 0)

/-- The same terms with the constant zero. -/
def dropConstant (e : Expression α) : Expression α :=
  { e with constant := 0 }

/-- Add `factor` times another expression, term by term in its order. -/
def accumulate (e other : Expression α) (factor : α) : Expression α :=
  { other.terms.foldl (fun sum t => sum.push (factor * t.coefficient) t.var) e with
    constant := e.constant + factor * other.constant }

/-- The sum. -/
def add (a b : Expression α) : Expression α :=
  a.accumulate b 1

/-- The difference. -/
def subtract (a b : Expression α) : Expression α :=
  a.accumulate b (-1)

/-- Every coefficient and the constant multiplied by a factor. -/
def scale (e : Expression α) (factor : α) : Expression α :=
  ⟨e.terms.map fun t => { t with coefficient := t.coefficient * factor }, e.constant * factor⟩

/-- The expression multiplied by minus one. -/
def negate (e : Expression α) : Expression α :=
  e.scale (-1)

/-- The coefficients by variable index in a vector of the given length; a later term of the same
index would overwrite an earlier one. Every index must lie within the vector. -/
def coefficients (e : Expression α) (length : Nat) : Except (Fault α) (List α) :=
  if maxDenseLength < length then .error (.oversizedVector length)
  else match e.terms.find? (fun t => length ≤ t.var.index) with
    | some t => .error (.variableOutside t.var length)
    | none =>
      .ok (e.terms.foldl (fun dense t => dense.set t.var.index t.coefficient)
        (List.replicate length 0))

/-- The value of the expression when the variable of index `i` has the value `values[i]`. -/
def evaluate (e : Expression α) (values : List α) : Except (Fault α) α := do
  let dense ← e.coefficients values.length
  let linear ← dot dense values
  return linear + e.constant

end Expression

end LinProg
