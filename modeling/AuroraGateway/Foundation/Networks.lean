import AuroraGateway.Foundation.IpAddr

/-!
# Networks of addresses

A network is an address and a number of leading bits; it contains the addresses
of its family that agree with it on these bits.
-/

namespace AuroraGateway.Foundation

inductive IpNet where
  | v4 (addr : BitVec 32) (bits : Nat)
  | v6 (addr : BitVec 128) (bits : Nat)
  deriving DecidableEq

def maskTo {w : Nat} (bits : Nat) (addr : BitVec w) : BitVec w :=
  (addr >>> (w - bits)) <<< (w - bits)

namespace IpNet

def bits : IpNet → Nat
  | v4 _ bits => bits
  | v6 _ bits => bits

def host : IpAddr → IpNet
  | .v4 addr => v4 addr 32
  | .v6 addr => v6 addr 128

def masked : IpNet → IpNet
  | v4 addr bits => v4 (maskTo bits addr) bits
  | v6 addr bits => v6 (maskTo bits addr) bits

def contains : IpNet → IpAddr → Bool
  | v4 addr bits, .v4 client => addr >>> (32 - bits) == client >>> (32 - bits)
  | v6 addr bits, .v6 client => addr >>> (128 - bits) == client >>> (128 - bits)
  | _, _ => false

def is4In6 : IpNet → Bool
  | v4 _ _ => false
  | v6 addr _ => (IpAddr.toIpv4Mapped addr).isSome

end IpNet

end AuroraGateway.Foundation
