import AttestedVault.Curve.P384
import AttestedVault.Digest.Hmac

/-!
# ECDSA over P-384 with SHA-384

Signing draws its nonce from the key and the message (RFC 6979). Both values
of a signature are in `1 .. n - 1`, and neither of `s` and `n - s` is preferred.
-/

namespace AttestedVault.Ecdsa

open P384 (Affine)

structure Signature where
  r : Nat
  s : Nat
  deriving DecidableEq, Repr

def Signature.inRange (σ : Signature) : Bool :=
  0 < σ.r && σ.r < P384.n && 0 < σ.s && σ.s < P384.n

/-- `r` then `s`, 48 bytes each, most significant first. -/
def Signature.toBytes (σ : Signature) : Bytes := Bytes.ofNat 48 σ.r ++ Bytes.ofNat 48 σ.s

def Signature.ofBytes? (b : Bytes) : Option Signature :=
  if b.length = 96 then
    let σ : Signature := ⟨Bytes.toNat (b.take 48), Bytes.toNat (b.drop 48)⟩
    if σ.inRange then some σ else none
  else none

/-- Inverse modulo the group order. -/
def inverse (x : Nat) : Nat := powMod P384.n x (P384.n - 2)

/-- The message as a scalar. -/
def hash (message : Bytes) : Nat := Bytes.toNat (sha384 message).val % P384.n

def verify (key : Affine) (message : Bytes) (σ : Signature) : Bool :=
  let w := inverse σ.s
  let u := hash message * w % P384.n
  let v := σ.r * w % P384.n
  match P384.combine u key v with
  | none => false
  | some q => q.x % P384.n == σ.r

/-- A scalar in `1 .. n - 1`. -/
structure SigningKey where
  d : Nat
  pos : 0 < d
  lt : d < P384.n

/-- A key of 24 to 48 bytes, most significant first. -/
def SigningKey.ofBytes? (b : Bytes) : Option SigningKey :=
  let d := Bytes.toNat b
  if h : (24 ≤ b.length ∧ b.length ≤ 48) ∧ 0 < d ∧ d < P384.n then some ⟨d, h.2.1, h.2.2⟩
  else none

/-- The public key. -/
def SigningKey.point (k : SigningKey) : Affine :=
  (P384.combine k.d P384.generator 0).getD P384.generator

/-- The state of the nonce generator. -/
structure Drbg where
  k : Bytes
  v : Bytes

def Drbg.reseed (g : Drbg) (data : Bytes) : Drbg :=
  let k := (hmac .sha384 g.k (g.v ++ data)).val
  ⟨k, (hmac .sha384 k g.v).val⟩

def Drbg.start (seed : Bytes) : Drbg :=
  let g : Drbg := ⟨List.replicate 48 0, List.replicate 48 1⟩
  (g.reseed (0 :: seed)).reseed (1 :: seed)

/-- The signature with this nonce, if it is in range. -/
def signOnce (k : SigningKey) (z nonce : Nat) : Option Signature :=
  if nonce = 0 ∨ P384.n ≤ nonce then none
  else
    match P384.combine nonce P384.generator 0 with
    | none => none
    | some q =>
      let r := q.x % P384.n
      let σ : Signature := ⟨r, inverse nonce * ((z + r * k.d) % P384.n) % P384.n⟩
      if σ.inRange then some σ else none

/-- Tries the generator's candidates for the nonce, at most `fuel`. -/
def signWith (k : SigningKey) (z : Nat) : (fuel : Nat) → Drbg → Signature
  | 0, _ => ⟨0, 0⟩
  | fuel + 1, g =>
    let v := (hmac .sha384 g.k g.v).val
    match signOnce k z (Bytes.toNat v) with
    | some σ => σ
    | none => signWith k z fuel ((Drbg.mk g.k v).reseed [0])

/-- The deterministic signature. A candidate nonce fails with probability
below `2⁻¹⁹⁰`, so eight of them suffice. -/
def sign (k : SigningKey) (message : Bytes) : Signature :=
  let z := hash message
  signWith k z 8 (Drbg.start (Bytes.ofNat 48 k.d ++ Bytes.ofNat 48 z))

end AttestedVault.Ecdsa
