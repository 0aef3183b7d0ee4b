import AttestedVault.Bytes
import AttestedVault.Text.Quoted

/-!
# Hexadecimal text

Two digits per byte, written in lower case and read in either case. Reading
works on the bytes of the text, so a position counts bytes.
-/

namespace AttestedVault.Hex

inductive Error
  | oddLength
  | badDigit (digit : UInt8) (index : Nat)
  deriving DecidableEq, Repr

/-- A bad digit is shown as the character with its code. -/
def Error.message : Error → String
  | .oddLength => "Odd number of digits"
  | .badDigit d i =>
    "Invalid character " ++ Text.quoteChar (Char.ofNat d.toNat) ++ " at position " ++ toString i

def digit (n : Nat) : Char :=
  if n < 10 then Char.ofNat (48 + n) else Char.ofNat (87 + n)

def digits (b : Bytes) : List Char :=
  b.flatMap fun x => [digit (x.toNat / 16), digit (x.toNat % 16)]

def encode (b : Bytes) : String := String.ofList (digits b)

/-- The value of a digit of either case, given as its ASCII code. -/
def value? (c : UInt8) : Option UInt8 :=
  if 48 ≤ c ∧ c ≤ 57 then some (c - 48)
  else if 97 ≤ c ∧ c ≤ 102 then some (c - 87)
  else if 65 ≤ c ∧ c ≤ 70 then some (c - 55)
  else none

/-- Reads pairs of digits, the first of them standing at `index`. -/
def pairs (index : Nat) : Bytes → Except Error Bytes
  | hi :: lo :: rest =>
    match value? hi, value? lo with
    | none, _ => .error (.badDigit hi index)
    | some _, none => .error (.badDigit lo (index + 1))
    | some h, some l =>
      match pairs (index + 2) rest with
      | .ok b => .ok ((16 * h + l) :: b)
      | .error e => .error e
  | _ => .ok []

/-- An odd count of digits is reported before any bad digit. -/
def decode (text : Bytes) : Except Error Bytes :=
  if text.length % 2 = 1 then .error .oddLength else pairs 0 text

def decode? (text : Bytes) : Option Bytes := (decode text).toOption

end AttestedVault.Hex
