import AttestedVault.Der.Basic

/-!
# Object identifiers

Kept as their content octets; the dotted text serves messages only.
-/

namespace AttestedVault.Der

structure Oid where
  octets : Bytes
  deriving DecidableEq, Repr

namespace Oid

/-- Each arc after the first octet ends in an octet below 128. It may have four
octets before one below 16, which then ends it. `used` counts the octets of the
arc that is being read. -/
def arcsClosed : (used : Nat) → Bytes → Bool
  | used, [] => used == 0
  | used, b :: rest =>
    if 4 ≤ used && 16 ≤ b then false
    else arcsClosed (if b < 128 then 0 else used + 1) rest

/-- Three to thirty-nine octets, of which the first holds two arcs. -/
def wellFormed (octets : Bytes) : Bool :=
  3 ≤ octets.length && octets.length ≤ 39 && arcsClosed 0 octets.tail
    && octets.head?.all (· < 120)

/-- The arcs after the first two, as numbers below `2 ^ 32`. -/
def arcs (acc : Nat) : Bytes → List Nat
  | [] => []
  | b :: rest =>
    let acc := (128 * acc + b.toNat % 128) % 0x100000000
    if b < 128 then acc :: arcs 0 rest else arcs acc rest

/-- The dotted text. -/
def message (o : Oid) : String :=
  match o.octets with
  | [] => ""
  | b :: rest =>
    ".".intercalate ((b.toNat / 40 :: b.toNat % 40 :: arcs 0 rest).map toString)

def read : Parser Oid := do
  let octets ← Der.read 0x06
  if wellFormed octets then pure ⟨octets⟩ else failure

def toDer (o : Oid) : Bytes := write 0x06 o.octets

end Oid

end AttestedVault.Der
