import AttestedVault.Bytes

/-!
# SHA-2

SHA-256 and SHA-384 as two variants of one block function: they differ in the
word size, the rotations and the constants.
-/

namespace AttestedVault.Sha2

/-- The eight working words. -/
structure State (W : Type) where
  a : W
  b : W
  c : W
  d : W
  e : W
  f : W
  g : W
  h : W

def State.toList {W : Type} (s : State W) : List W :=
  [s.a, s.b, s.c, s.d, s.e, s.f, s.g, s.h]

/-- What tells the variants apart. A block is sixteen words of `width` bytes. -/
structure Variant (W : Type) where
  width : Nat
  word : Nat → W
  number : W → Nat
  add : W → W → W
  xor : W → W → W
  and : W → W → W
  not : W → W
  sum₀ : W → W
  sum₁ : W → W
  sigma₀ : W → W
  sigma₁ : W → W
  constants : List W
  start : State W

section
variable {W : Type}

/-- Prepends `n` words to the schedule `ws`, which has its newest word first. -/
@[specialize] def extend (v : Variant W) : Nat → List W → List W
  | 0, ws => ws
  | n + 1, ws =>
    let at' (i : Nat) : W := ws.getD i (v.word 0)
    let w := v.add (v.add (v.sigma₁ (at' 1)) (at' 6)) (v.add (v.sigma₀ (at' 14)) (at' 15))
    extend v n (w :: ws)

@[specialize] def round (v : Variant W) (s : State W) (kw : W × W) : State W :=
  let choice := v.xor (v.and s.e s.f) (v.and (v.not s.e) s.g)
  let majority := v.xor (v.xor (v.and s.a s.b) (v.and s.a s.c)) (v.and s.b s.c)
  let t₁ := v.add (v.add (v.add s.h (v.sum₁ s.e)) (v.add choice kw.1)) kw.2
  let t₂ := v.add (v.sum₀ s.a) majority
  ⟨v.add t₁ t₂, s.a, s.b, s.c, v.add s.d t₁, s.e, s.f, s.g⟩

@[specialize] def compress (v : Variant W) (s : State W) (block : Bytes) : State W :=
  let words := (Bytes.chunks v.width block).map fun b => v.word b.toNat
  let schedule := (extend v (v.constants.length - 16) words.reverse).reverse
  let t := (v.constants.zip schedule).foldl (round v) s
  ⟨v.add s.a t.a, v.add s.b t.b, v.add s.c t.c, v.add s.d t.d,
    v.add s.e t.e, v.add s.f t.f, v.add s.g t.g, v.add s.h t.h⟩

/-- A one bit, zeros up to a full block, and the length in bits. -/
def padding (v : Variant W) (length : Nat) : Bytes :=
  let size := 16 * v.width
  let zeros := (size - (length + 1 + 2 * v.width) % size) % size
  0x80 :: List.replicate zeros 0 ++ Bytes.ofNat (2 * v.width) (8 * length)

@[specialize] def digest (v : Variant W) (message : Bytes) : Bytes :=
  let blocks := Bytes.chunks (16 * v.width) (message ++ padding v message.length)
  let final := blocks.foldl (compress v) v.start
  final.toList.flatMap fun w => Bytes.ofNat v.width (v.number w)

end

def rotate32 (n : UInt32) (x : UInt32) : UInt32 := (x >>> n) ||| (x <<< (32 - n))

def rotate64 (n : UInt64) (x : UInt64) : UInt64 := (x >>> n) ||| (x <<< (64 - n))

def sha256Variant : Variant UInt32 where
  width := 4
  word := UInt32.ofNat
  number := UInt32.toNat
  add := (· + ·)
  xor := (· ^^^ ·)
  and := (· &&& ·)
  not := (~~~ ·)
  sum₀ x := rotate32 2 x ^^^ rotate32 13 x ^^^ rotate32 22 x
  sum₁ x := rotate32 6 x ^^^ rotate32 11 x ^^^ rotate32 25 x
  sigma₀ x := rotate32 7 x ^^^ rotate32 18 x ^^^ (x >>> 3)
  sigma₁ x := rotate32 17 x ^^^ rotate32 19 x ^^^ (x >>> 10)
  constants := [
    0x428a2f98, 0x71374491, 0xb5c0fbcf, 0xe9b5dba5, 0x3956c25b, 0x59f111f1, 0x923f82a4,
    0xab1c5ed5, 0xd807aa98, 0x12835b01, 0x243185be, 0x550c7dc3, 0x72be5d74, 0x80deb1fe,
    0x9bdc06a7, 0xc19bf174, 0xe49b69c1, 0xefbe4786, 0x0fc19dc6, 0x240ca1cc, 0x2de92c6f,
    0x4a7484aa, 0x5cb0a9dc, 0x76f988da, 0x983e5152, 0xa831c66d, 0xb00327c8, 0xbf597fc7,
    0xc6e00bf3, 0xd5a79147, 0x06ca6351, 0x14292967, 0x27b70a85, 0x2e1b2138, 0x4d2c6dfc,
    0x53380d13, 0x650a7354, 0x766a0abb, 0x81c2c92e, 0x92722c85, 0xa2bfe8a1, 0xa81a664b,
    0xc24b8b70, 0xc76c51a3, 0xd192e819, 0xd6990624, 0xf40e3585, 0x106aa070, 0x19a4c116,
    0x1e376c08, 0x2748774c, 0x34b0bcb5, 0x391c0cb3, 0x4ed8aa4a, 0x5b9cca4f, 0x682e6ff3,
    0x748f82ee, 0x78a5636f, 0x84c87814, 0x8cc70208, 0x90befffa, 0xa4506ceb, 0xbef9a3f7,
    0xc67178f2]
  start := ⟨
    0x6a09e667, 0xbb67ae85, 0x3c6ef372, 0xa54ff53a,
    0x510e527f, 0x9b05688c, 0x1f83d9ab, 0x5be0cd19⟩

def sha384Variant : Variant UInt64 where
  width := 8
  word := UInt64.ofNat
  number := UInt64.toNat
  add := (· + ·)
  xor := (· ^^^ ·)
  and := (· &&& ·)
  not := (~~~ ·)
  sum₀ x := rotate64 28 x ^^^ rotate64 34 x ^^^ rotate64 39 x
  sum₁ x := rotate64 14 x ^^^ rotate64 18 x ^^^ rotate64 41 x
  sigma₀ x := rotate64 1 x ^^^ rotate64 8 x ^^^ (x >>> 7)
  sigma₁ x := rotate64 19 x ^^^ rotate64 61 x ^^^ (x >>> 6)
  constants := [
    0x428a2f98d728ae22, 0x7137449123ef65cd, 0xb5c0fbcfec4d3b2f, 0xe9b5dba58189dbbc,
    0x3956c25bf348b538, 0x59f111f1b605d019, 0x923f82a4af194f9b, 0xab1c5ed5da6d8118,
    0xd807aa98a3030242, 0x12835b0145706fbe, 0x243185be4ee4b28c, 0x550c7dc3d5ffb4e2,
    0x72be5d74f27b896f, 0x80deb1fe3b1696b1, 0x9bdc06a725c71235, 0xc19bf174cf692694,
    0xe49b69c19ef14ad2, 0xefbe4786384f25e3, 0x0fc19dc68b8cd5b5, 0x240ca1cc77ac9c65,
    0x2de92c6f592b0275, 0x4a7484aa6ea6e483, 0x5cb0a9dcbd41fbd4, 0x76f988da831153b5,
    0x983e5152ee66dfab, 0xa831c66d2db43210, 0xb00327c898fb213f, 0xbf597fc7beef0ee4,
    0xc6e00bf33da88fc2, 0xd5a79147930aa725, 0x06ca6351e003826f, 0x142929670a0e6e70,
    0x27b70a8546d22ffc, 0x2e1b21385c26c926, 0x4d2c6dfc5ac42aed, 0x53380d139d95b3df,
    0x650a73548baf63de, 0x766a0abb3c77b2a8, 0x81c2c92e47edaee6, 0x92722c851482353b,
    0xa2bfe8a14cf10364, 0xa81a664bbc423001, 0xc24b8b70d0f89791, 0xc76c51a30654be30,
    0xd192e819d6ef5218, 0xd69906245565a910, 0xf40e35855771202a, 0x106aa07032bbd1b8,
    0x19a4c116b8d2d0c8, 0x1e376c085141ab53, 0x2748774cdf8eeb99, 0x34b0bcb5e19b48a8,
    0x391c0cb3c5c95a63, 0x4ed8aa4ae3418acb, 0x5b9cca4f7763e373, 0x682e6ff3d6b2b8a3,
    0x748f82ee5defb2fc, 0x78a5636f43172f60, 0x84c87814a1f0ab72, 0x8cc702081a6439ec,
    0x90befffa23631e28, 0xa4506cebde82bde9, 0xbef9a3f7b2c67915, 0xc67178f2e372532b,
    0xca273eceea26619c, 0xd186b8c721c0c207, 0xeada7dd6cde0eb1e, 0xf57d4f7fee6ed178,
    0x06f067aa72176fba, 0x0a637dc5a2c898a6, 0x113f9804bef90dae, 0x1b710b35131c471b,
    0x28db77f523047d84, 0x32caab7b40c72493, 0x3c9ebe0a15c9bebc, 0x431d67c49c100d4c,
    0x4cc5d4becb3e42b6, 0x597f299cfc657e2a, 0x5fcb6fab3ad6faec, 0x6c44198c4a475817]
  start := ⟨
    0xcbbb9d5dc1059ed8, 0x629a292a367cd507, 0x9159015a3070dd17,
    0x152fecd8f70e5939, 0x67332667ffc00b31, 0x8eb44a8768581511,
    0xdb0c2e0d64f98fa7, 0x47b5481dbefa4fa4⟩

end AttestedVault.Sha2

namespace AttestedVault

def sha256 (message : Bytes) : Octets 32 :=
  Octets.ofBytes 32 (Sha2.digest Sha2.sha256Variant message)

/-- The first 48 bytes of the 64-byte state, which starts from its own words. -/
def sha384 (message : Bytes) : Octets 48 :=
  Octets.ofBytes 48 (Sha2.digest Sha2.sha384Variant message)

end AttestedVault
