import AuroraGateway.Foundation.Bytes
import Mathlib.Data.Rat.Defs

/-!
# JSON values

A number keeps the form that its text selects: an integer without a sign, a
negative integer, or a finite fraction.  The members of an object have
different keys and are kept in the order of their keys.
-/

namespace AuroraGateway.Foundation

inductive JsonNumber where
  | posInt (n : UInt64)
  | negInt (n : Int)
  | float (value : ℚ)
  deriving DecidableEq

inductive Json where
  | null
  | bool (value : Bool)
  | number (value : JsonNumber)
  | string (value : Bytes)
  | array (items : List Json)
  | object (members : List (Bytes × Json))

namespace Json

def asStr : Json → Option Bytes
  | .string value => some value
  | _ => none

def asBool : Json → Option Bool
  | .bool value => some value
  | _ => none

def asU64 : Json → Option Nat
  | .number (.posInt n) => some n.toNat
  | _ => none

def asArray : Json → Option (List Json)
  | .array items => some items
  | _ => none

def asObject : Json → Option (List (Bytes × Json))
  | .object members => some members
  | _ => none

def asStrings (value : Json) : Option (List Bytes) :=
  value.asArray.map fun items => items.filterMap asStr

def ofNat (n : Nat) : Json := .number (.posInt (.ofNat n))

def ofStrings (items : List Bytes) : Json := .array (items.map .string)

def get? (value : Json) (key : Bytes) : Option Json :=
  match value with
  | .object members => (members.find? fun member => member.1 = key).map Prod.snd
  | _ => none

/-- Set the member of an object; the members stay in the order of their keys. -/
def setMember (key : Bytes) (value : Json) : List (Bytes × Json) → List (Bytes × Json)
  | [] => [(key, value)]
  | member :: rest =>
    if member.1 = key then (key, value) :: rest
    else if key < member.1 then (key, value) :: member :: rest
    else member :: setMember key value rest

end Json

end AuroraGateway.Foundation
