import AttestedVault.Bytes
import AttestedVault.Text.Blank
import AttestedVault.Text.Decimal

/-!
# Values in a table

What a column of a row can hold, and the conversions that a column's declared
type makes of a value on its way in.
-/

namespace AttestedVault

inductive Cell
  | null
  /-- An integer of 64 bits with sign. -/
  | integer (n : Int)
  /-- A floating-point number by the bits of its double form. -/
  | real (bits : UInt64)
  /-- A text by its UTF-8 bytes, as far as they are that. -/
  | text (b : Bytes)
  | blob (b : Bytes)
  deriving DecidableEq, Repr

namespace Cell

def ofText (s : String) : Cell := .text (Bytes.ofText s)

def toText? : Cell → Option String
  | .text b => Bytes.toText? b
  | _ => none

def toInteger? : Cell → Option Int
  | .integer n => some n
  | _ => none

/-! ## Numbers written as texts -/

/-- The smallest integer. -/
def minInteger : Int := -0x8000000000000000

/-- The largest integer. -/
def maxInteger : Int := 0x7fffffffffffffff

/-- A decimal numeral, `digits` times ten to the power of `scale`. -/
structure Numeral where
  negative : Bool
  digits : Nat
  scale : Int
  /-- It has neither a point nor an exponent. -/
  plain : Bool
  deriving Repr

namespace Numeral

/-- The blanks that may stand around a numeral. -/
def isBlank (c : Char) : Bool := c == ' ' || ('\t' ≤ c && c ≤ '\r')

def sign : List Char → Bool × List Char
  | '-' :: cs => (true, cs)
  | '+' :: cs => (false, cs)
  | cs => (false, cs)

/-- Reads an exponent to the end of the text. -/
def exponent? (cs : List Char) : Option Int :=
  let (negative, ds) := sign cs
  if ds = [] ∨ !ds.all Text.isDigit then none
  else some (if negative then -(Text.ofDigits ds) else Text.ofDigits ds)

/-- A sign, digits with at most one point among them, and perhaps an exponent. -/
def ofText? (cs : List Char) : Option Numeral :=
  let cs := ((cs.dropWhile isBlank).reverse.dropWhile isBlank).reverse
  let (negative, cs) := sign cs
  let whole := cs.takeWhile Text.isDigit
  let cs := cs.dropWhile Text.isDigit
  let (fraction, cs, pointed) := match cs with
    | '.' :: cs => (cs.takeWhile Text.isDigit, cs.dropWhile Text.isDigit, true)
    | cs => ([], cs, false)
  if whole ++ fraction = [] then none
  else
    let make := fun (e : Int) (plain : Bool) =>
      some ⟨negative, Text.ofDigits (whole ++ fraction), e - fraction.length, plain⟩
    match cs with
    | [] => make 0 !pointed
    | c :: cs => if c = 'e' ∨ c = 'E' then (exponent? cs).bind (make · false) else none

/-- The double next to the value. -/
def toFloat (n : Numeral) : Float :=
  let f :=
    if n.digits = 0 ∨ n.scale < -400 - (Nat.log2 n.digits : Int) then 0.0
    else if 400 < n.scale then 1.0 / 0.0
    else Float.ofScientific n.digits (n.scale < 0) n.scale.natAbs
  if n.negative then -f else f

end Numeral

/-- The integer that a double is, if it is one of less than 63 bits. -/
def integral? (bits : UInt64) : Option Int :=
  let b := bits.toNat
  let biased := b / 0x10000000000000 % 0x800
  let fraction := b % 0x10000000000000
  let m := if biased = 0 then fraction else fraction + 0x10000000000000
  let shift : Int := (if biased = 0 then 1 else biased : Nat) - 1075
  let size? : Option Nat :=
    if 0 ≤ shift then if shift ≤ 11 then some (m <<< shift.toNat) else none
    else
      let k := shift.natAbs
      if m = 0 then some 0
      else if k ≤ 52 ∧ m % (1 <<< k) = 0 then some (m >>> k) else none
  size?.bind fun n =>
    if n < 0x8000000000000000 then some (if b < 0x8000000000000000 then (n : Int) else -n) else none

/-- The value in the form in which equal numbers are the same. -/
def plain : Cell → Cell
  | .real bits => ((integral? bits).map .integer).getD (.real bits)
  | c => c

/-- The number that a text stands for: an integer if it is one, written plainly
or not. -/
def numeral? (cs : List Char) : Option Cell :=
  (Numeral.ofText? cs).map fun n =>
    let value : Int := if n.negative then -n.digits else n.digits
    if n.plain ∧ minInteger ≤ value ∧ value ≤ maxInteger then .integer value
    else plain (.real n.toFloat.toBits)

end Cell

/-! ## Declared types -/

/-- What a column prefers to hold. -/
inductive Affinity
  | blob
  | text
  | numeric
  | real
  deriving DecidableEq, Repr

namespace Affinity

/-- The affinity of a declared type, told by the words in it. -/
def ofType (declared : String) : Affinity :=
  let t := declared.toList.map Char.toLower
  let has := fun (s : String) => Text.occursIn s.toList t
  if has "int" then .numeric
  else if has "char" || has "clob" || has "text" then .text
  else if declared = "" || has "blob" then .blob
  else if has "real" || has "floa" || has "doub" then .real
  else .numeric

/-- Numerals become numbers, and whole numbers integers. -/
def toNumber : Cell → Cell
  | .text b => (((Bytes.toText? b).bind fun s => Cell.numeral? s.toList)).getD (.text b)
  | c => c.plain

/-- Integers are held as doubles. -/
def toReal : Cell → Cell
  | .integer n => .real (Float.ofInt n).toBits
  | c => c

/-- What a column holds after a value has been put into it. -/
def apply : Affinity → Cell → Cell
  | .text, .integer n => .ofText (toString n)
  | .numeric, c => toNumber c
  | .real, c => toReal (toNumber c)
  | _, c => c

/-- What a column that holds `stored` yields when it is read. -/
def yield : Affinity → Cell → Cell
  | .real, c => toReal c
  | _, c => c

end Affinity

end AttestedVault
