import AttestedVault.Cipher.Aes

/-!
# Galois/Counter mode

AES-256-GCM after NIST SP 800-38D with 16-byte tags and initial values of any
length. A tag is accepted only if it is the one that sealing would produce.
-/

namespace AttestedVault.Gcm

/-- A block as the coefficients of a polynomial over GF(2), highest bit first:
the top bit is the constant term. -/
abbrev Poly := BitVec 128

def Poly.ofBytes (b : Bytes) : Poly := BitVec.ofNat 128 (Bytes.toNat b)

def Poly.toBytes (p : Poly) : Octets 16 := ⟨Bytes.ofNat 16 p.toNat, by simp⟩

/-- Multiplication by `x` modulo `x¹²⁸ + x⁷ + x² + x + 1`. -/
def Poly.shift (v : Poly) : Poly :=
  if v.getLsbD 0 then (v >>> 1) ^^^ (0xe1#128 <<< 120) else v >>> 1

/-- Adds the products of `v`, `x·v`, `x²·v`, … with the coefficients of `x`
from bit `n - 1` down. -/
def Poly.mulFrom (x : Poly) : Nat → Poly → Poly → Poly
  | 0, _, z => z
  | n + 1, v, z => mulFrom x n v.shift (if x.getLsbD n then z ^^^ v else z)

def Poly.mul (x y : Poly) : Poly := mulFrom x 128 y 0

/-- Blocks of sixteen bytes, the last one filled up with zeros. -/
def blocks (b : Bytes) : List Poly :=
  (Bytes.chunks 16 b).map fun c => Poly.ofBytes (Octets.ofBytes 16 c).val

/-- The polynomial in `h` whose coefficients are the blocks. -/
def ghash (h : Poly) (bs : List Poly) : Poly := bs.foldl (fun y b => (y ^^^ b).mul h) 0

/-- The counter block that a tag is masked with. Initial values other than of
twelve bytes are hashed into it. -/
def firstCounter (h : Poly) (iv : Bytes) : Poly :=
  if iv.length = 12 then Poly.ofBytes (iv ++ [0, 0, 0, 1])
  else ghash h (blocks iv ++ [BitVec.ofNat 128 (8 * iv.length)])

/-- Counts up the last four bytes, which wrap around. -/
def next (c : Poly) : Poly :=
  BitVec.ofNat 128 (c.toNat / 0x100000000 * 0x100000000 + (c.toNat + 1) % 0x100000000)

/-- Encrypts and decrypts: bytes are combined with the encrypted counters that
follow `c`. -/
def counterMode (keys : List Aes.Block) (c : Poly) : List Bytes → Bytes
  | [] => []
  | b :: bs =>
    let c' := next c
    Bytes.xor b (Aes.encryptWith keys c'.toBytes).val ++ counterMode keys c' bs

/-- What a key and an initial value fix once for sealing and opening. -/
structure Session where
  keys : List Aes.Block
  h : Poly
  start : Poly

def session (key : Octets 32) (iv : Bytes) : Session :=
  let keys := Aes.schedule key
  let h := Poly.ofBytes (Aes.encryptWith keys (Octets.ofBytes 16 [])).val
  ⟨keys, h, firstCounter h iv⟩

def Session.crypt (s : Session) (text : Bytes) : Bytes :=
  counterMode s.keys s.start (Bytes.chunks 16 text)

def Session.tag (s : Session) (aad ciphertext : Bytes) : Octets 16 :=
  let lengths := BitVec.ofNat 128 ((8 * aad.length) <<< 64 + 8 * ciphertext.length)
  let y := ghash s.h (blocks aad ++ blocks ciphertext ++ [lengths])
  (y ^^^ Poly.ofBytes (Aes.encryptWith s.keys s.start.toBytes).val).toBytes

/-- The ciphertext and its tag. -/
def encrypt (key : Octets 32) (iv plaintext aad : Bytes) : Bytes × Octets 16 :=
  let s := session key iv
  let c := s.crypt plaintext
  (c, s.tag aad c)

/-- The plaintext, if the tag is right. -/
def decrypt (key : Octets 32) (iv ciphertext : Bytes) (tag : Octets 16) (aad : Bytes) :
    Option Bytes :=
  let s := session key iv
  if tag = s.tag aad ciphertext then some (s.crypt ciphertext) else none

end AttestedVault.Gcm
