import AttestedVault.Curve.P384
import AttestedVault.Der.Basic
import AttestedVault.Digest.Sha2

/-!
# RSASSA-PSS

Verification with SHA-384, mask generation MGF1 over the same digest, and a
salt of 48 bytes.
-/

namespace AttestedVault.Rsa

open Der

structure PublicKey where
  modulus : Nat
  exponent : Nat
  deriving DecidableEq, Repr

/-- A non-negative integer in its shortest form. -/
def natural? : Bytes → Option Nat
  | [] => none
  | [0] => some 0
  | 0 :: b :: rest => if b < 128 then none else some (Bytes.toNat (b :: rest))
  | b :: rest => if b < 128 then some (Bytes.toNat (b :: rest)) else none

def readNatural : Parser Nat := do
  let octets ← Der.read 0x02
  StateT.lift (natural? octets)

/-- The modulus is odd and has at most 4096 bits; the exponent is odd, at least 3,
below the modulus and has at most 33 bits. -/
def PublicKey.ofDer? (b : Bytes) : Option PublicKey := do
  let (n, e) ← whole (inside 0x30 do
    let n ← readNatural
    let e ← readNatural
    pure (n, e)) b
  if n < 1 <<< 4096 ∧ e < n ∧ n % 2 = 1 ∧ e % 2 = 1 ∧ 3 ≤ e ∧ e < 0x200000000 then some ⟨n, e⟩ else none

/-- The count of bits without leading zeros. -/
def bits (n : Nat) : Nat := if n = 0 then 0 else Nat.log2 n + 1

/-- MGF1 output blocks with the given counters. -/
def mask (seed : Bytes) (counters : List Nat) : Bytes :=
  counters.flatMap fun i => (sha384 (seed ++ Bytes.ofNat 4 i)).val

/-- The encoded message `em` of `emBits` bits vouches for the digest: behind
the mask stand zeros, a one and the salt. -/
def pssMatches (digest : Bytes) (emBits : Nat) (em : Bytes) : Bool :=
  let length := em.length
  let free := 8 * length - emBits
  if length < 98 then false
  else
    let masked := em.take (length - 49)
    let h := (em.drop (length - 49)).take 48
    let db := Bytes.xor masked (mask h (List.range (length / 48 + 1)))
    let zeros := length - 98
    match em, db with
    | first :: _, top :: db =>
      let top := UInt8.ofNat (top.toNat % (1 <<< (8 - free)))
      let db := top :: db
      let salt := db.drop (zeros + 1)
      em.getLast? == some 0xbc && first.toNat >>> (8 - free) == 0
        && (db.take zeros).all (· == 0) && db[zeros]? == some 1
        && (sha384 (List.replicate 8 0 ++ digest ++ salt)).val == h
    | _, _ => false

/-- The signature is as long as the modulus and below it. -/
def verify (key : PublicKey) (message signature : Bytes) : Bool :=
  let size := (bits key.modulus + 7) / 8
  let s := Bytes.toNat signature
  if s < key.modulus ∧ signature.length = size then
    let emBits := bits key.modulus - 1
    let em := Bytes.ofNat ((emBits + 7) / 8) (powMod key.modulus s key.exponent)
    pssMatches (sha384 message).val emBits em
  else false

end AttestedVault.Rsa
