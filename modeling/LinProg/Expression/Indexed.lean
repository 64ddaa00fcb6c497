import Mathlib
import LinProg.Expression

/-!
# Expressions with an index map

How an expression is kept: next to the list of terms stands a hash map from the index of each
variable to the place of its term. The map saves a search through the terms and is redundant, so
every operation has to change both together. A lookup that leads beyond the terms is a fault.

A `Recipe` is a tree of the operations on expressions. It can be followed with the map
(`Recipe.indexed`) and without (`Recipe.expression`). -/

namespace LinProg

/-- A linear expression with its index map. -/
structure IndexedExpression (α : Type) where
  /-- The terms. -/
  terms : List (Term α)
  /-- The places of the terms by the indices of their variables. -/
  positions : Std.HashMap Nat Nat
  /-- The constant term. -/
  constant : α

namespace IndexedExpression

variable {α : Type}

/-- The expression apart from its index map. -/
def toExpression (e : IndexedExpression α) : Expression α :=
  ⟨e.terms, e.constant⟩

variable [Scalar α]

/-- The number `k` as an expression. -/
def ofScalar (k : α) : IndexedExpression α :=
  ⟨[], ∅, k⟩

/-- The expression without terms whose constant is zero. -/
def empty : IndexedExpression α :=
  ofScalar 0

/-- Add a coefficient to the term at the place that the map has for the variable. When it has none,
a new term comes to the end, and its place into the map. -/
def push (e : IndexedExpression α) (c : α) (v : Variable) :
    Except (Fault α) (IndexedExpression α) :=
  match e.positions[v.index]? with
  | some k =>
    if k < e.terms.length then
      .ok { e with
        terms := e.terms.modify k fun t => { t with coefficient := t.coefficient + c } }
    else .error .outOfRange
  | none =>
    .ok { e with
      terms := e.terms ++ [⟨c, v⟩]
      positions := e.positions.insert v.index e.terms.length }

/-- The expression with a single term. -/
def ofTerm (c : α) (v : Variable) : Except (Fault α) (IndexedExpression α) :=
  empty.push c v

/-- The coefficient of a variable: that of the term to which the map leads, or zero when the map
does not have the index of the variable. -/
def coefficient (e : IndexedExpression α) (v : Variable) : Except (Fault α) α :=
  match e.positions[v.index]? with
  | some k =>
    match e.terms[k]? with
    | some t => .ok t.coefficient
    | none => .error .outOfRange
  | none => .ok 0

/-- The coefficients by variable index in a vector of the given length, written from the terms
without a look at the map. -/
def coefficients (e : IndexedExpression α) (length : Nat) : Except (Fault α) (List α) :=
  e.toExpression.coefficients length

/-- Add `factor` times the terms, one after the other. -/
def pushAll (e : IndexedExpression α) (factor : α) (terms : List (Term α)) :
    Except (Fault α) (IndexedExpression α) :=
  terms.foldlM (fun sum t => sum.push (factor * t.coefficient) t.var) e

/-- Add `factor` times another expression, term by term in its order. -/
def accumulate (e other : IndexedExpression α) (factor : α) :
    Except (Fault α) (IndexedExpression α) := do
  let sum ← e.pushAll factor other.terms
  return { sum with constant := sum.constant + factor * other.constant }

/-- The sum. -/
def add (a b : IndexedExpression α) : Except (Fault α) (IndexedExpression α) :=
  a.accumulate b 1

/-- The difference. -/
def subtract (a b : IndexedExpression α) : Except (Fault α) (IndexedExpression α) :=
  a.accumulate b (-1)

/-- Every coefficient and the constant multiplied by a factor, with the same map. -/
def scale (e : IndexedExpression α) (factor : α) : IndexedExpression α :=
  { e with
    terms := e.terms.map fun t => { t with coefficient := t.coefficient * factor }
    constant := e.constant * factor }

/-- The expression multiplied by minus one. -/
def negate (e : IndexedExpression α) : IndexedExpression α :=
  e.scale (-1)

/-- The constant term, and the expression with zero in its place. -/
def takeConstant (e : IndexedExpression α) : α × IndexedExpression α :=
  (e.constant, { e with constant := 0 })

end IndexedExpression

/-- A tree of operations that make an expression.

The arithmetic signs come to these operations. A sum or a difference first makes an expression of
each side, of a variable by `ofVariable` and of a number by `ofScalar`. The product of a number and
a variable is a `term`, as is the opposite of a variable, while the product of a number and an
expression is `scale` and the opposite of an expression `negate`. -/
inductive Recipe (α : Type) where
  /-- The expression without terms. -/
  | empty
  /-- A single term. -/
  | term (c : α) (v : Variable)
  /-- A variable made an expression. -/
  | ofVariable (v : Variable)
  /-- A number made an expression. -/
  | ofScalar (k : α)
  /-- The sum of two expressions. -/
  | add (a b : Recipe α)
  /-- The difference of two expressions. -/
  | subtract (a b : Recipe α)
  /-- An expression multiplied by a number. -/
  | scale (a : Recipe α) (factor : α)
  /-- An expression multiplied by minus one. -/
  | negate (a : Recipe α)
  /-- An expression to which a term has been added. -/
  | push (a : Recipe α) (c : α) (v : Variable)
  /-- An expression from which the constant has been taken. -/
  | takeConstant (a : Recipe α)

namespace Recipe

variable {α : Type}

/-- The variables of the terms in the order in which they are added. -/
def additions : Recipe α → List Variable
  | empty | ofScalar _ => []
  | term _ v | ofVariable v => [v]
  | add a b | subtract a b => a.additions ++ b.additions
  | scale a _ | negate a | takeConstant a => a.additions
  | push a _ v => a.additions ++ [v]

variable [Scalar α]

/-- Follow the recipe with an index map. -/
def indexed : Recipe α → Except (Fault α) (IndexedExpression α)
  | empty => .ok .empty
  | term c v => IndexedExpression.ofTerm c v
  | ofVariable v => IndexedExpression.ofTerm 1 v
  | ofScalar k => .ok (.ofScalar k)
  | add a b => do (← a.indexed).add (← b.indexed)
  | subtract a b => do (← a.indexed).subtract (← b.indexed)
  | scale a factor => do return (← a.indexed).scale factor
  | negate a => do return (← a.indexed).negate
  | push a c v => do (← a.indexed).push c v
  | takeConstant a => do return (← a.indexed).takeConstant.2

/-- Follow the recipe without an index map. -/
def expression : Recipe α → Expression α
  | empty => .empty
  | term c v => .ofTerm c v
  | ofVariable v => .ofVariable v
  | ofScalar k => .ofScalar k
  | add a b => a.expression.add b.expression
  | subtract a b => a.expression.subtract b.expression
  | scale a factor => a.expression.scale factor
  | negate a => a.expression.negate
  | push a c v => a.expression.push c v
  | takeConstant a => a.expression.dropConstant

end Recipe

end LinProg
