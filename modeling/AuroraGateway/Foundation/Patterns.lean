import AuroraGateway.Foundation.Bytes

/-!
# Patterns of bytes

Anchored regular expressions over classes of bytes, matched by derivatives.
-/

namespace AuroraGateway.Foundation

inductive Pattern where
  | never
  | empty
  | one (members : UInt8 → Bool)
  | seq (first second : Pattern)
  | alt (left right : Pattern)
  | many (body : Pattern)

namespace Pattern

/-! ## Matching -/

def nullable : Pattern → Bool
  | never | one _ => false
  | empty | many _ => true
  | seq first second => first.nullable && second.nullable
  | alt left right => left.nullable || right.nullable

def derive (b : UInt8) : Pattern → Pattern
  | never | empty => never
  | one members => if members b then empty else never
  | seq first second =>
    alt (seq (first.derive b) second) (if first.nullable then second.derive b else never)
  | alt left right => alt (left.derive b) (right.derive b)
  | many body => seq (body.derive b) (many body)

def accepts (pattern : Pattern) : Bytes → Bool
  | [] => pattern.nullable
  | b :: rest => (pattern.derive b).accepts rest

/-! ## Common forms -/

def oneOf (members : String) : Pattern := one fun b => decide (b ∈ ascii members)

def plus (body : Pattern) : Pattern := seq body (many body)

def literal : Bytes → Pattern
  | [] => empty
  | b :: rest => seq (one (· == b)) (literal rest)

end Pattern

end AuroraGateway.Foundation
