import AuroraGateway.Foundation.Bytes

/-!
# Text of IP addresses

The reader of `IpAddr::from_str`.  An IPv4 address is four decimal numbers
without leading zeros; an IPv6 address is eight groups of hexadecimal digits,
one run of which may be left out, and the last two of which may be written as an
IPv4 address.
-/

namespace AuroraGateway.Foundation

inductive IpAddr where
  | v4 (addr : BitVec 32)
  | v6 (addr : BitVec 128)
  deriving DecidableEq, Repr

namespace IpAddr

abbrev Reader (α : Type) := Bytes → Option (α × Bytes)

def digitValue (radix : Nat) (byte : UInt8) : Option Nat :=
  let value :=
    if isAsciiDigit byte then some (byte.toNat - 48)
    else if 97 ≤ byte && byte ≤ 102 then some (byte.toNat - 87)
    else if 65 ≤ byte && byte ≤ 70 then some (byte.toNat - 55)
    else none
  value.filter fun digit => digit < radix

def readNumber (radix maxDigits bound : Nat) (allowZeroPrefix : Bool) : Reader Nat :=
  fun bytes =>
    let digits := bytes.takeWhile fun byte => (digitValue radix byte).isSome
    let value := digits.foldl (fun n byte => radix * n + (digitValue radix byte).getD 0) 0
    if digits.isEmpty || maxDigits < digits.length then none
    else if !allowZeroPrefix && digits.head? == some 48 && 1 < digits.length then none
    else if value < bound then some (value, bytes.drop digits.length)
    else none

def readSeparator {α : Type} (separator : UInt8) (index : Nat) (inner : Reader α) :
    Reader α :=
  fun bytes =>
    if index = 0 then inner bytes
    else
      match bytes with
      | byte :: rest => if byte = separator then inner rest else none
      | [] => none

def readOctets : Nat → Nat → Nat → Reader Nat
  | 0, _, value => fun bytes => some (value, bytes)
  | remaining + 1, index, value => fun bytes =>
    match readSeparator 46 index (readNumber 10 3 256 false) bytes with
    | none => none
    | some (octet, rest) => readOctets remaining (index + 1) (256 * value + octet) rest

def readIpv4Addr : Reader Nat := readOctets 4 0 0

/-- The groups at the front, whether they end in an IPv4 address, and the bytes
that are left. -/
def readGroups : Nat → Nat → Bytes → List Nat × Bool × Bytes
  | 0, _, bytes => ([], false, bytes)
  | remaining + 1, index, bytes =>
    let embedded :=
      if 0 < remaining then readSeparator 58 index readIpv4Addr bytes else none
    match embedded with
    | some (addr, rest) => ([addr / 65536, addr % 65536], true, rest)
    | none =>
      match readSeparator 58 index (readNumber 16 4 65536 true) bytes with
      | none => ([], false, bytes)
      | some (group, rest) =>
        let (groups, ipv4, rest) := readGroups remaining (index + 1) rest
        (group :: groups, ipv4, rest)

def readIpv6Addr : Reader (List Nat) := fun bytes =>
  let (head, headIpv4, rest) := readGroups 8 0 bytes
  if head.length = 8 then some (head, rest)
  else if headIpv4 then none
  else
    match rest with
    | 58 :: 58 :: rest =>
      let (tail, _, rest) := readGroups (8 - (head.length + 1)) 0 rest
      some (head ++ List.replicate (8 - head.length - tail.length) 0 ++ tail, rest)
    | _ => none

def ipv4FromStr (bytes : Bytes) : Option (BitVec 32) :=
  match readIpv4Addr bytes with
  | some (addr, rest) => if rest.isEmpty then some (BitVec.ofNat 32 addr) else none
  | none => none

def ipv6FromStr (bytes : Bytes) : Option (BitVec 128) :=
  match readIpv6Addr bytes with
  | some (groups, rest) =>
    if rest.isEmpty then
      some (BitVec.ofNat 128 (groups.foldl (fun n group => 65536 * n + group) 0))
    else none
  | none => none

def fromStr (bytes : Bytes) : Option IpAddr :=
  match readIpv4Addr bytes with
  | some (addr, rest) => if rest.isEmpty then some (.v4 (BitVec.ofNat 32 addr)) else none
  | none =>
    match readIpv6Addr bytes with
    | some (groups, rest) =>
      if rest.isEmpty then
        some (.v6 (BitVec.ofNat 128 (groups.foldl (fun n group => 65536 * n + group) 0)))
      else none
    | none => none

def toIpv4Mapped (addr : BitVec 128) : Option (BitVec 32) :=
  if addr.toNat / 2 ^ 32 = 0xffff then some (BitVec.ofNat 32 addr.toNat) else none

end IpAddr

end AuroraGateway.Foundation
