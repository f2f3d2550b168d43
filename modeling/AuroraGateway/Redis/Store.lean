import AuroraGateway.Foundation.Flonum
import AuroraGateway.Foundation.HashTable
import AuroraGateway.Redis.Client

/-!
# The Redis server

The keys of the server, the commands that the scripts of the gateway use, and
the conversions between replies and script numbers.  Script numbers are floats
over the arithmetic `F`.
-/

namespace AuroraGateway.Redis

open Foundation
open Flonum

variable {F : Type}

/-! ## Keys and commands -/

/-- A string is kept as the integer it denotes, or as the number that a script
reads from it. -/
inductive StoreValue (F : Type) where
  | hash (fields : HashTable Bytes F)
  | integer (n : Int)
  | text (number : Option F)
  | sortedSet (members : HashTable Bytes F)
  | other
  deriving DecidableEq

structure StoreSlot (F : Type) where
  value : StoreValue F
  ttlSecs : Option Int
  deriving DecidableEq

abbrev Store (F : Type) := HashTable Bytes (StoreSlot F)

variable (store : Store F) (key : Bytes)

def Store.value? : Option (StoreValue F) :=
  (store.get? key).map StoreSlot.value

def Store.write (value : StoreValue F) : Store F :=
  store.insert key ⟨value, (store.get? key).bind StoreSlot.ttlSecs⟩

def Store.expire (secs : Int) : Store F :=
  match store.get? key with
  | some slot => store.insert key { slot with ttlSecs := some secs }
  | none => store

def Store.hashFields : Option (HashTable Bytes F) :=
  match store.value? key with
  | none => some .empty
  | some (.hash fields) => some fields
  | some _ => none

def Store.members : Option (HashTable Bytes F) :=
  match store.value? key with
  | none => some .empty
  | some (.sortedSet members) => some members
  | some _ => none

/-- `INCR`: the new value.  The counter is a 64-bit signed integer. -/
def Store.incr : Option (Store F × Int) :=
  match store.value? key with
  | none => some (store.write key (.integer 1), 1)
  | some (.integer n) =>
    if n + 1 < 2 ^ 63 then some (store.write key (.integer (n + 1)), n + 1) else none
  | some _ => none

def Store.decr : Option (Store F × Int) :=
  match store.value? key with
  | none => some (store.write key (.integer (-1)), -1)
  | some (.integer n) =>
    if -2 ^ 63 ≤ n - 1 then some (store.write key (.integer (n - 1)), n - 1) else none
  | some _ => none

@[simp] theorem Store.value?_write_self (value : StoreValue F) :
    (store.write key value).value? key = some value := by
  simp [Store.value?, Store.write]

/-! ## Script numbers -/

/-- The text of an integral script number, which keeps 14 significant digits. -/
def integerText (n : Nat) : Bytes :=
  if n < 10 ^ 14 then decimal n
  else
    let exponent := (decimal n).length - 1
    let unit := 10 ^ (exponent - 13)
    let up := unit < 2 * (n % unit) || (unit == 2 * (n % unit) && n / unit % 2 == 1)
    let rounded := if up then n / unit + 1 else n / unit
    let (mantissa, exponent) :=
      if rounded = 10 ^ 14 then (10 ^ 13, exponent + 1) else (rounded, exponent)
    let fraction := ((decimal mantissa).drop 1).reverse.dropWhile (· == 48) |>.reverse
    (decimal mantissa).take 1 ++
      (if fraction.isEmpty then [] else ascii "." ++ fraction) ++
      ascii "e+" ++ (if exponent < 10 then ascii "0" else []) ++ decimal exponent

/-- An integer reply; the conversion of a float that is out of range gives the
least integer. -/
def replyInt (z : Int) : Int :=
  if -2 ^ 63 ≤ z ∧ z < 2 ^ 63 then z else -2 ^ 63

def replyItem : Value → Option Int
  | .int i => some i
  | .bulkString data => if validUtf8 data then parseI64 data else none
  | .simpleString data => parseI64 data
  | _ => none

section ScriptNumbers

variable [Flonum F]

def scriptText (x : F) : Bytes := integerText (trunc x).toNat

def ofReply (z : Int) : F :=
  if z < 0 then ofNat 0 - ofNat z.natAbs else ofNat z.natAbs

/-- `tonumber(redis.call("GET", key) or "0")`; the script fails on a value that is
not a number. -/
def Store.number (store : Store F) (key : Bytes) : Option F :=
  match store.value? key with
  | none => some (ofNat 0)
  | some (.integer n) => some (ofReply n)
  | some (.text number) => number
  | some _ => none

end ScriptNumbers

end AuroraGateway.Redis
