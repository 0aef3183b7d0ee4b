import AttestedVault.Bytes

/-!
# Base64

The standard alphabet with padding. Every byte string has one written form and
only that form is read: padding must be complete and unused bits must be zero.
-/

namespace AttestedVault.Base64

inductive Error
  | badSymbol (symbol : UInt8) (offset : Nat)
  | badLastSymbol (symbol : UInt8) (offset : Nat)
  | badLength (length : Nat)
  | badPadding
  deriving DecidableEq, Repr

def Error.message : Error → String
  | .badSymbol s i => "Invalid symbol " ++ toString s.toNat ++ ", offset " ++ toString i ++ "."
  | .badLastSymbol s i =>
    "Invalid last symbol " ++ toString s.toNat ++ ", offset " ++ toString i ++ "."
  | .badLength n => "Invalid input length: " ++ toString n
  | .badPadding => "Invalid padding"

/-- The sign that fills the last group. -/
def pad : UInt8 := 61

/-- The symbol of a value below 64. -/
def symbol (n : Nat) : UInt8 :=
  if n < 26 then UInt8.ofNat (65 + n)
  else if n < 52 then UInt8.ofNat (71 + n)
  else if n < 62 then UInt8.ofNat (n - 4)
  else if n = 62 then 43 else 47

def value? (c : UInt8) : Option Nat :=
  if 65 ≤ c ∧ c ≤ 90 then some (c.toNat - 65)
  else if 97 ≤ c ∧ c ≤ 122 then some (c.toNat - 71)
  else if 48 ≤ c ∧ c ≤ 57 then some (c.toNat + 4)
  else if c = 43 then some 62
  else if c = 47 then some 63
  else none

/-- Three bytes become four symbols; a shorter last group is padded. -/
def symbols : Bytes → Bytes
  | a :: b :: c :: rest =>
    let n := 65536 * a.toNat + 256 * b.toNat + c.toNat
    symbol (n / 262144) :: symbol (n / 4096 % 64) :: symbol (n / 64 % 64) :: symbol (n % 64)
      :: symbols rest
  | [a, b] =>
    let n := 1024 * a.toNat + 4 * b.toNat
    [symbol (n / 4096), symbol (n / 64 % 64), symbol (n % 64), pad]
  | [a] => [symbol (a.toNat / 4), symbol (16 * a.toNat % 64), pad, pad]
  | [] => []

def encode (b : Bytes) : String :=
  String.ofList ((symbols b).map fun c => Char.ofNat c.toNat)

/-- The values of symbols, the first of which stands at `offset`. -/
def values (offset : Nat) : Bytes → Except Error (List Nat)
  | [] => .ok []
  | c :: rest =>
    match value? c with
    | none => .error (.badSymbol c offset)
    | some v =>
      match values (offset + 1) rest with
      | .ok vs => .ok (v :: vs)
      | .error e => .error e

/-- Reads the last group, at most four symbols of which padding is the tail. -/
def lastGroup (offset : Nat) (group : Bytes) : Except Error Bytes :=
  let signs := group.takeWhile (· ≠ pad)
  let fill := group.dropWhile (· ≠ pad)
  match values offset signs with
  | .error e => .error e
  | .ok vs =>
    if fill ≠ [] ∧ (vs.length < 2 ∨ fill.any (· ≠ pad)) then
      .error (.badSymbol pad (offset + vs.length))
    else match vs with
      | [] => .ok []
      | [_] => .error (.badLength (offset + 1))
      | [u, v] =>
        if fill.length ≠ 2 then .error .badPadding
        else if v % 16 ≠ 0 then .error (.badLastSymbol (symbol v) (offset + 1))
        else .ok [UInt8.ofNat (4 * u + v / 16)]
      | [u, v, w] =>
        if fill.length ≠ 1 then .error .badPadding
        else if w % 4 ≠ 0 then .error (.badLastSymbol (symbol w) (offset + 2))
        else .ok [UInt8.ofNat (4 * u + v / 16), UInt8.ofNat (16 * v + w / 4)]
      | u :: v :: w :: x :: _ =>
        .ok [UInt8.ofNat (4 * u + v / 16), UInt8.ofNat (16 * v + w / 4), UInt8.ofNat (64 * w + x)]

/-- Reads groups of four symbols. Only the last group may hold padding. -/
def groups (offset : Nat) : Bytes → Except Error Bytes
  | a :: b :: c :: d :: e :: rest =>
    match values offset [a, b, c, d] with
    | .error err => .error err
    | .ok vs =>
      match groups (offset + 4) (e :: rest) with
      | .error err => .error err
      | .ok tail =>
        match vs with
        | [u, v, w, x] =>
          .ok (UInt8.ofNat (4 * u + v / 16) :: UInt8.ofNat (16 * v + w / 4)
            :: UInt8.ofNat (64 * w + x) :: tail)
        | _ => .ok tail
  | group => lastGroup offset group

/-- A stray sign at the very end, such as a line feed, is reported first. -/
def decode (text : Bytes) : Except Error Bytes :=
  match text.getLast? with
  | some c =>
    if text.length % 4 = 1 ∧ c ≠ pad ∧ value? c = none then
      .error (.badSymbol c (text.length - 1))
    else groups 0 text
  | none => .ok []

end AttestedVault.Base64
