import LinProg.Expression.Operand
import LinProg.Text.Quoted

/-!
# Objects of a script

A script is untyped: anything can stand on either side of a sign. A `Refusal` is why a command of a
script is not carried out; arithmetic on something that is no operand is refused. -/

namespace LinProg.Script

/-- Why a command is refused. -/
inductive Refusal where
  /-- An object does not have the type that is wanted. -/
  | wrongType
  /-- No relation has this sign. -/
  | unknownRelation (sign : String)
  /-- The model rejects it. -/
  | rejected (error : Error)
deriving DecidableEq

/-- The text of the refusal of a relation. -/
def unknownRelationText (sign : String) : String :=
  "unknown relation " ++ Text.quoted sign

/-- Something that a script can name. -/
inductive Object (α : Type) where
  /-- A number, a variable or an expression. -/
  | operand (operand : Operand α)
  /-- A text. -/
  | text (content : String)
  /-- No value. -/
  | nothing
  /-- A list of objects. -/
  | list (elements : List (Object α))

namespace Object

variable {α : Type}

/-- The object as something that takes part in arithmetic. -/
def asOperand : Object α → Except Refusal (Operand α)
  | operand o => .ok o
  | _ => .error .wrongType

/-- The object as a number. -/
def asScalar : Object α → Except Refusal α
  | operand (.scalar k) => .ok k
  | _ => .error .wrongType

/-- The object as a variable. -/
def asVariable : Object α → Except Refusal Variable
  | operand (.var v) => .ok v
  | _ => .error .wrongType

/-- The object as a text. -/
def asText : Object α → Except Refusal String
  | text content => .ok content
  | _ => .error .wrongType

/-- An object that is an expression. -/
def ofExpression (e : Expression α) : Object α :=
  operand (.expression e)

variable [Scalar α]

/-- The object as an expression. -/
def asExpression (a : Object α) : Except Refusal (Expression α) := do
  let o ← a.asOperand
  return o.toExpression

/-- The sum. A number on the left leaves it to the reflected method of the right-hand side. -/
def add (a b : Object α) : Except Refusal (Object α) := do
  match ← a.asOperand, ← b.asOperand with
  | .scalar k, .scalar l => return operand (.scalar (k + l))
  | .scalar k, b => return ofExpression (BinaryMethod.reflectedAdd.apply b (.scalar k))
  | a, b => return ofExpression (BinaryMethod.add.apply a b)

/-- The difference. A number on the left leaves it to the reflected method of the right-hand
side. -/
def subtract (a b : Object α) : Except Refusal (Object α) := do
  match ← a.asOperand, ← b.asOperand with
  | .scalar k, .scalar l => return operand (.scalar (k - l))
  | .scalar k, b => return ofExpression (BinaryMethod.reflectedSubtract.apply b (.scalar k))
  | a, b => return ofExpression (BinaryMethod.subtract.apply a b)

/-- The product, of which at least one side must be a number. -/
def multiply (a b : Object α) : Except Refusal (Object α) := do
  match ← a.asOperand, ← b.asOperand with
  | .scalar k, .scalar l => return operand (.scalar (k * l))
  | .scalar k, b => return ofExpression (b.times k)
  | a, .scalar k => return ofExpression (a.times k)
  | _, _ => throw .wrongType

/-- The object with the opposite sign. -/
def opposite (a : Object α) : Except Refusal (Object α) := do
  match ← a.asOperand with
  | .scalar k => return operand (.scalar (-k))
  | a => return ofExpression a.opposite

/-- The coefficient of a variable in an object that must be an expression. -/
def coefficient (a subject : Object α) : Except Refusal α := do
  let v ← subject.asVariable
  match ← a.asOperand with
  | .expression e => return e.coefficient v
  | _ => throw .wrongType

end Object

end LinProg.Script
