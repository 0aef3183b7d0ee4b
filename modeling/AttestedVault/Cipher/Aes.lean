import AttestedVault.Bytes

/-!
# AES-256

The block cipher of FIPS 197, encryption only: counter mode never inverts it.
Every step of a round is a permutation of blocks.
-/

namespace AttestedVault.Aes

/-- A column of the state, which is also a word of the key schedule. -/
structure Column where
  a : UInt8
  b : UInt8
  c : UInt8
  d : UInt8
  deriving DecidableEq, Repr

structure Block where
  c₀ : Column
  c₁ : Column
  c₂ : Column
  c₃ : Column
  deriving DecidableEq, Repr

def sboxTable : Array UInt8 := #[
  0x63, 0x7c, 0x77, 0x7b, 0xf2, 0x6b, 0x6f, 0xc5, 0x30, 0x01, 0x67, 0x2b, 0xfe, 0xd7, 0xab, 0x76,
  0xca, 0x82, 0xc9, 0x7d, 0xfa, 0x59, 0x47, 0xf0, 0xad, 0xd4, 0xa2, 0xaf, 0x9c, 0xa4, 0x72, 0xc0,
  0xb7, 0xfd, 0x93, 0x26, 0x36, 0x3f, 0xf7, 0xcc, 0x34, 0xa5, 0xe5, 0xf1, 0x71, 0xd8, 0x31, 0x15,
  0x04, 0xc7, 0x23, 0xc3, 0x18, 0x96, 0x05, 0x9a, 0x07, 0x12, 0x80, 0xe2, 0xeb, 0x27, 0xb2, 0x75,
  0x09, 0x83, 0x2c, 0x1a, 0x1b, 0x6e, 0x5a, 0xa0, 0x52, 0x3b, 0xd6, 0xb3, 0x29, 0xe3, 0x2f, 0x84,
  0x53, 0xd1, 0x00, 0xed, 0x20, 0xfc, 0xb1, 0x5b, 0x6a, 0xcb, 0xbe, 0x39, 0x4a, 0x4c, 0x58, 0xcf,
  0xd0, 0xef, 0xaa, 0xfb, 0x43, 0x4d, 0x33, 0x85, 0x45, 0xf9, 0x02, 0x7f, 0x50, 0x3c, 0x9f, 0xa8,
  0x51, 0xa3, 0x40, 0x8f, 0x92, 0x9d, 0x38, 0xf5, 0xbc, 0xb6, 0xda, 0x21, 0x10, 0xff, 0xf3, 0xd2,
  0xcd, 0x0c, 0x13, 0xec, 0x5f, 0x97, 0x44, 0x17, 0xc4, 0xa7, 0x7e, 0x3d, 0x64, 0x5d, 0x19, 0x73,
  0x60, 0x81, 0x4f, 0xdc, 0x22, 0x2a, 0x90, 0x88, 0x46, 0xee, 0xb8, 0x14, 0xde, 0x5e, 0x0b, 0xdb,
  0xe0, 0x32, 0x3a, 0x0a, 0x49, 0x06, 0x24, 0x5c, 0xc2, 0xd3, 0xac, 0x62, 0x91, 0x95, 0xe4, 0x79,
  0xe7, 0xc8, 0x37, 0x6d, 0x8d, 0xd5, 0x4e, 0xa9, 0x6c, 0x56, 0xf4, 0xea, 0x65, 0x7a, 0xae, 0x08,
  0xba, 0x78, 0x25, 0x2e, 0x1c, 0xa6, 0xb4, 0xc6, 0xe8, 0xdd, 0x74, 0x1f, 0x4b, 0xbd, 0x8b, 0x8a,
  0x70, 0x3e, 0xb5, 0x66, 0x48, 0x03, 0xf6, 0x0e, 0x61, 0x35, 0x57, 0xb9, 0x86, 0xc1, 0x1d, 0x9e,
  0xe1, 0xf8, 0x98, 0x11, 0x69, 0xd9, 0x8e, 0x94, 0x9b, 0x1e, 0x87, 0xe9, 0xce, 0x55, 0x28, 0xdf,
  0x8c, 0xa1, 0x89, 0x0d, 0xbf, 0xe6, 0x42, 0x68, 0x41, 0x99, 0x2d, 0x0f, 0xb0, 0x54, 0xbb, 0x16]

def sbox (x : UInt8) : UInt8 := sboxTable.getD x.toNat 0

/-- Multiplication by `x` in GF(2⁸) modulo `x⁸ + x⁴ + x³ + x + 1`. -/
def double (x : UInt8) : UInt8 := (x <<< 1) ^^^ (if 128 ≤ x then 0x1b else 0)

namespace Column

def xor (s t : Column) : Column := ⟨s.a ^^^ t.a, s.b ^^^ t.b, s.c ^^^ t.c, s.d ^^^ t.d⟩

def sub (s : Column) : Column := ⟨sbox s.a, sbox s.b, sbox s.c, sbox s.d⟩

/-- The top byte moves to the bottom. -/
def rotate (s : Column) : Column := ⟨s.b, s.c, s.d, s.a⟩

/-- Multiplication by the circulant matrix of `2 3 1 1`. -/
def mix (s : Column) : Column :=
  ⟨double s.a ^^^ (double s.b ^^^ s.b) ^^^ s.c ^^^ s.d,
   s.a ^^^ double s.b ^^^ (double s.c ^^^ s.c) ^^^ s.d,
   s.a ^^^ s.b ^^^ double s.c ^^^ (double s.d ^^^ s.d),
   (double s.a ^^^ s.a) ^^^ s.b ^^^ s.c ^^^ double s.d⟩

def toBytes (s : Column) : Bytes := [s.a, s.b, s.c, s.d]

end Column

namespace Block

def map (f : Column → Column) (s : Block) : Block := ⟨f s.c₀, f s.c₁, f s.c₂, f s.c₃⟩

def xor (s t : Block) : Block :=
  ⟨s.c₀.xor t.c₀, s.c₁.xor t.c₁, s.c₂.xor t.c₂, s.c₃.xor t.c₃⟩

/-- Row `r` moves `r` places to the left. -/
def shiftRows (s : Block) : Block :=
  ⟨⟨s.c₀.a, s.c₁.b, s.c₂.c, s.c₃.d⟩, ⟨s.c₁.a, s.c₂.b, s.c₃.c, s.c₀.d⟩,
   ⟨s.c₂.a, s.c₃.b, s.c₀.c, s.c₁.d⟩, ⟨s.c₃.a, s.c₀.b, s.c₁.c, s.c₂.d⟩⟩

def toBytes (s : Block) : Octets 16 :=
  ⟨s.c₀.toBytes ++ s.c₁.toBytes ++ s.c₂.toBytes ++ s.c₃.toBytes, rfl⟩

def ofBytes : Octets 16 → Block
  | ⟨[a, b, c, d, e, f, g, h, i, j, k, l, m, n, o, p], _⟩ =>
    ⟨⟨a, b, c, d⟩, ⟨e, f, g, h⟩, ⟨i, j, k, l⟩, ⟨m, n, o, p⟩⟩

end Block

/-- Groups words by four, the round keys. -/
def roundKeys : List Column → List Block
  | a :: b :: c :: d :: rest => ⟨a, b, c, d⟩ :: roundKeys rest
  | _ => []

/-- Prepends `n` words to the schedule `ws`, which has its newest word first;
`i` is the index of the next word and `rcon` the next round constant. -/
def expand : (n i : Nat) → (rcon : UInt8) → (ws : List Column) → List Column
  | 0, _, _, ws => ws
  | n + 1, i, rcon, ws =>
    let last := ws.getD 0 ⟨0, 0, 0, 0⟩
    let old := ws.getD 7 ⟨0, 0, 0, 0⟩
    if i % 8 = 0 then
      expand n (i + 1) (double rcon) ((old.xor (last.rotate.sub.xor ⟨rcon, 0, 0, 0⟩)) :: ws)
    else if i % 8 = 4 then expand n (i + 1) rcon ((old.xor last.sub) :: ws)
    else expand n (i + 1) rcon ((old.xor last) :: ws)

def words : Bytes → List Column
  | a :: b :: c :: d :: rest => ⟨a, b, c, d⟩ :: words rest
  | _ => []

/-- The fifteen round keys. -/
def schedule (key : Octets 32) : List Block :=
  roundKeys (expand 52 8 1 (words key.val).reverse).reverse

def fullRound (s k : Block) : Block := (((s.map Column.sub).shiftRows).map Column.mix).xor k

/-- All rounds after the first key addition; the last one does not mix. -/
def rounds : List Block → Block → Block
  | [], s => s
  | [k], s => ((s.map Column.sub).shiftRows).xor k
  | k :: ks, s => rounds ks (fullRound s k)

def encryptWith (keys : List Block) (b : Octets 16) : Octets 16 :=
  match keys with
  | [] => b
  | k :: ks => (rounds ks ((Block.ofBytes b).xor k)).toBytes

/-- One block under a 256-bit key. -/
def encrypt (key : Octets 32) (b : Octets 16) : Octets 16 := encryptWith (schedule key) b

end AttestedVault.Aes
