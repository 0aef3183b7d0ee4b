import AttestedVault.Bytes

/-!
# The curve P-384

Points of `y² = x³ - 3x + b` over a prime field, computed in Jacobian
coordinates, and their SEC 1 encodings.
-/

namespace AttestedVault

/-- `b ^ e` modulo `m`, by squaring. -/
def powMod (m b e : Nat) : Nat :=
  if h : e = 0 then 1 % m
  else
    let r := powMod m (b * b % m) (e / 2)
    if e % 2 = 1 then r * b % m else r
termination_by e
decreasing_by omega

end AttestedVault

namespace AttestedVault.P384

/-- The field's prime: 2³⁸⁴ - 2¹²⁸ - 2⁹⁶ + 2³² - 1. -/
def p : Nat :=
  0xfffffffffffffffffffffffffffffffffffffffffffffffffffffffffffffffeffffffff0000000000000000ffffffff

/-- The order of the group, also a prime. -/
def n : Nat :=
  0xffffffffffffffffffffffffffffffffffffffffffffffffc7634d81f4372ddf581a0db248b0a77aecec196accc52973

def b : Nat :=
  0xb3312fa7e23ee7e4988e056be3f82d19181d9c6efe8141120314088f5013875ac656398d8a2ed19d2a85c8edd3ec2aef

/-- A point other than the neutral one. -/
structure Affine where
  x : Nat
  y : Nat
  deriving DecidableEq, Repr

def generator : Affine where
  x := 0xaa87ca22be8b05378eb1c71ef320ad746e1d3b628ba79b9859f741e082542a385502f25dbf55296c3a545e3872760ab7
  y := 0x3617de4a96262c6f5d9e98bf9292dc29f8f41dbd289a147ce9da3113b5f0b8c00a60b1ce1d7e819d7a431d7c90ea0e5f

/-- Field inverse; zero has none and is kept. -/
def inverse (x : Nat) : Nat := powMod p x (p - 2)

/-- `x³ - 3x + b`. -/
def rhs (x : Nat) : Nat := (x * x % p * x + (p - 3) * x + b) % p

def Affine.onCurve (q : Affine) : Bool := q.x < p && q.y < p && q.y * q.y % p == rhs q.x

/-- `(x / z², y / z³)`; the neutral point has `z = 0`. -/
structure Jacobian where
  x : Nat
  y : Nat
  z : Nat

namespace Jacobian

def zero : Jacobian := ⟨1, 1, 0⟩

def ofAffine (q : Affine) : Jacobian := ⟨q.x, q.y, 1⟩

def toAffine? (q : Jacobian) : Option Affine :=
  if q.z = 0 then none
  else
    let i := inverse q.z
    let i₂ := i * i % p
    some ⟨q.x * i₂ % p, q.y * (i₂ * i % p) % p⟩

def double (q : Jacobian) : Jacobian :=
  if q.z = 0 then q
  else
    let delta := q.z * q.z % p
    let gamma := q.y * q.y % p
    let beta := q.x * gamma % p
    let alpha := 3 * ((q.x + p - delta) * (q.x + delta) % p) % p
    let x := (alpha * alpha + 8 * (p - beta)) % p
    let z := 2 * q.y * q.z % p
    let y := (alpha * (4 * beta + p - x) + 8 * (p - gamma) * gamma) % p
    ⟨x, y, z⟩

def add (q r : Jacobian) : Jacobian :=
  if q.z = 0 then r
  else if r.z = 0 then q
  else
    let z₁ := q.z * q.z % p
    let z₂ := r.z * r.z % p
    let u₁ := q.x * z₂ % p
    let u₂ := r.x * z₁ % p
    let s₁ := q.y * z₂ % p * r.z % p
    let s₂ := r.y * z₁ % p * q.z % p
    if u₁ = u₂ then if s₁ = s₂ then double q else zero
    else
      let h := (u₂ + p - u₁) % p
      let r' := (s₂ + p - s₁) % p
      let h₂ := h * h % p
      let h₃ := h * h₂ % p
      let v := u₁ * h₂ % p
      let x := (r' * r' + (p - h₃) + 2 * (p - v)) % p
      let y := (r' * (v + p - x) + (p - s₁) * h₃) % p
      ⟨x, y, q.z * r.z % p * h % p⟩

end Jacobian

/-- `u·g + v·q` over the lowest `bits` bits of `u` and `v`, by one chain of
doublings; `gq` is the sum of the two points. -/
def mulAdd (g q gq : Jacobian) (u v : Nat) : (bits : Nat) → Jacobian → Jacobian
  | 0, acc => acc
  | bits + 1, acc =>
    let acc := acc.double
    let acc :=
      match u.testBit bits, v.testBit bits with
      | false, false => acc
      | true, false => acc.add g
      | false, true => acc.add q
      | true, true => acc.add gq
    mulAdd g q gq u v bits acc

/-- `u` times the generator plus `v` times `q`. -/
def combine (u : Nat) (q : Affine) (v : Nat) : Option Affine :=
  let g := Jacobian.ofAffine generator
  let q := Jacobian.ofAffine q
  (mulAdd g q (g.add q) u v 384 .zero).toAffine?

/-- A square root modulo the prime, which is 3 modulo 4. -/
def sqrt? (a : Nat) : Option Nat :=
  let r := powMod p a ((p + 1) / 4)
  if r * r % p = a % p then some r else none

/-- The point with this `x` whose `y` is odd or even. -/
def decompress (x : Nat) (odd : Bool) : Option Affine :=
  if p ≤ x then none
  else
    match sqrt? (rhs x) with
    | none => none
    | some r => some ⟨x, if (r % 2 == 1) == odd then r else p - r⟩

/-- The SEC 1 forms: uncompressed, compressed, and compact with the smaller
`y`. The neutral point is refused. -/
def ofBytes? (bytes : Bytes) : Option Affine :=
  match bytes with
  | [] => none
  | tag :: rest =>
    if tag = 4 ∧ rest.length = 96 then
      let q : Affine := ⟨Bytes.toNat (rest.take 48), Bytes.toNat (rest.drop 48)⟩
      if q.onCurve then some q else none
    else if (tag = 2 ∨ tag = 3) ∧ rest.length = 48 then decompress (Bytes.toNat rest) (tag == 3)
    else if tag = 5 ∧ rest.length = 48 then
      (decompress (Bytes.toNat rest) false).map fun q => ⟨q.x, min q.y (p - q.y)⟩
    else none

/-- The uncompressed form. -/
def Affine.toBytes (q : Affine) : Bytes := 4 :: (Bytes.ofNat 48 q.x ++ Bytes.ofNat 48 q.y)

end AttestedVault.P384
