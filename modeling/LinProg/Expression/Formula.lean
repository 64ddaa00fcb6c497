import LinProg.Expression.Operand

/-!
# Formulas

Trees of the ways to write down a linear expression, with two readings: `operand` builds the
expression step by step, merging like terms, and `value` is ordinary arithmetic. -/

namespace LinProg

/-- A way to write down a linear expression. -/
inductive Formula (α : Type) where
  /-- A number. -/
  | scalar (k : α)
  /-- A variable by itself. -/
  | var (v : Variable)
  /-- The empty expression. -/
  | empty
  /-- The expression with one term. -/
  | term (c : α) (v : Variable)
  /-- The expression that is one variable. -/
  | ofVariable (v : Variable)
  /-- The sum of two expressions. -/
  | add (a b : Formula α)
  /-- The difference of two expressions. -/
  | subtract (a b : Formula α)
  /-- An expression multiplied by a number. -/
  | scale (a : Formula α) (c : α)
  /-- An expression multiplied by minus one. -/
  | negate (a : Formula α)
  /-- The product of a number and an operand. -/
  | times (c : α) (a : Formula α)
  /-- An operand with the opposite sign. -/
  | opposite (a : Formula α)
  /-- A method of the first operand called with the second. -/
  | call (method : BinaryMethod) (receiver argument : Formula α)

namespace Formula

variable {α : Type}

/-- The sum that starts empty and takes on one term after the other, and a number at the end. -/
def ofTerms (terms : List (α × Variable)) (constant? : Option α) : Formula α :=
  let sum := terms.foldl (fun sum t => call .add sum (times t.1 (var t.2))) empty
  match constant? with
  | some k => call .add sum (scalar k)
  | none => sum

variable [Scalar α]

/-- Build the operand that the formula writes down. -/
def operand : Formula α → Operand α
  | scalar k => .scalar k
  | var v => .var v
  | empty => .expression .empty
  | term c v => .expression (.ofTerm c v)
  | ofVariable v => .expression (.ofVariable v)
  | add a b => .expression (a.operand.toExpression.add b.operand.toExpression)
  | subtract a b => .expression (a.operand.toExpression.subtract b.operand.toExpression)
  | scale a c => .expression (a.operand.toExpression.scale c)
  | negate a => .expression a.operand.toExpression.negate
  | times c a => .expression (a.operand.times c)
  | opposite a => .expression a.operand.opposite
  | call method receiver argument => .expression (method.apply receiver.operand argument.operand)

/-- Build the expression that the formula writes down. -/
def expression (a : Formula α) : Expression α :=
  a.operand.toExpression

/-- The value of the formula read as arithmetic, under values for the variable indices. -/
def value (values : Nat → α) : Formula α → α
  | scalar k => k
  | var v | ofVariable v => values v.index
  | empty => 0
  | term c v => c * values v.index
  | add a b => a.value values + b.value values
  | subtract a b => a.value values - b.value values
  | scale a c => a.value values * c
  | negate a | opposite a => -a.value values
  | times c a => c * a.value values
  | call .add a b => a.value values + b.value values
  | call .reflectedAdd a b => b.value values + a.value values
  | call .subtract a b => a.value values - b.value values
  | call .reflectedSubtract a b => b.value values - a.value values

end Formula

end LinProg
