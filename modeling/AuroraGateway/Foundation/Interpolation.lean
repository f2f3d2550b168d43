import AuroraGateway.Foundation.Bytes

/-!
# Texts with variables

A text in which `$name` stands for the value of a variable.  The name is the
longest run of letters, digits and underscores, or it stands in braces.
-/

namespace AuroraGateway.Foundation

inductive Piece where
  | byte (b : UInt8)
  | variable (name : Bytes)
  deriving DecidableEq

def isNameByte (b : UInt8) : Bool := isAsciiAlphanumeric b || b == 95

def splitVariable : Bytes → Option (Bytes × Bytes)
  | 123 :: rest =>
    match rest.dropWhile isNameByte with
    | 125 :: after => some (rest.takeWhile isNameByte, after)
    | _ => none
  | rest => some (rest.takeWhile isNameByte, rest.dropWhile isNameByte)

/-- The pieces of a text; none if a name is empty.  Every step takes at least one byte, so
the length of the text is enough fuel. -/
def pieces : Nat → Bytes → Option (List Piece)
  | 0, _ => some []
  | _ + 1, [] => some []
  | fuel + 1, b :: rest =>
    if b = 36 then
      match splitVariable rest with
      | some (name, after) =>
        if name.isEmpty then none else (pieces fuel after).map (Piece.variable name :: ·)
      | none => none
    else (pieces fuel rest).map (Piece.byte b :: ·)

def Piece.value (values : Bytes → Bytes) : Piece → Bytes
  | .byte b => [b]
  | .variable name => values name

/-- The text with the values of its variables; none if it is not well formed. -/
def interpolate (values : Bytes → Bytes) (text : Bytes) : Option Bytes :=
  (pieces text.length text).map fun ps => ps.flatMap (Piece.value values)

end AuroraGateway.Foundation
