import AttestedVault.Bytes

/-!
# Distinguished encoding

Elements of tag, length and content, with one written length for each content.
Readers take a byte string and leave the rest of it.
-/

namespace AttestedVault.Der

abbrev Parser (α : Type) := StateT Bytes Option α

/-- An element whose content is not looked into. -/
structure Element where
  tag : UInt8
  content : Bytes
  deriving DecidableEq, Repr

/-- The identifier octets in use: known universal types, and those of the
other classes with a tag number below 31. -/
def knownTag (b : UInt8) : Bool :=
  if b < 0x40 then
    b ∈ [0x01, 0x02, 0x03, 0x04, 0x05, 0x06, 0x09, 0x0a, 0x0c, 0x12, 0x13, 0x14, 0x15, 0x16,
      0x17, 0x18, 0x1a, 0x1b, 0x1e, 0x30, 0x31]
  else b % 32 ≠ 31

/-- The base-256 digits of `n`, most significant first, without leading zeros. -/
def digits (n : Nat) : Bytes :=
  if _h : n = 0 then [] else digits (n / 256) ++ [UInt8.ofNat n]
termination_by n
decreasing_by omega

def lengthOctets (n : Nat) : Bytes :=
  if n < 128 then [UInt8.ofNat n]
  else
    let d := digits n
    UInt8.ofNat (128 + d.length) :: d

/-- The longest content. -/
def maxLength : Nat := 0xfffffff

def Element.toDer (e : Element) : Bytes := e.tag :: lengthOctets e.content.length ++ e.content

def write (tag : UInt8) (content : Bytes) : Bytes := Element.toDer ⟨tag, content⟩

/-- Lengths of one octet, or of one to four more, in their shortest form. -/
def readLength : Parser Nat
  | [] => none
  | b :: rest =>
    if b < 0x80 then some (b.toNat, rest)
    else if 0x81 ≤ b ∧ b ≤ 0x84 then
      let k := b.toNat - 128
      let n := Bytes.toNat (rest.take k)
      if k ≤ rest.length ∧ n ≤ maxLength ∧ lengthOctets n = b :: rest.take k then
        some (n, rest.drop k)
      else none
    else none

def readElement : Parser Element
  | [] => none
  | tag :: rest =>
    if knownTag tag then
      match readLength rest with
      | none => none
      | some (n, rest) =>
        if n ≤ rest.length then some (⟨tag, rest.take n⟩, rest.drop n) else none
    else none

/-- The count of bytes of an element, told by its first ones. -/
def size? : Bytes → Option Nat
  | [] => none
  | tag :: rest =>
    if knownTag tag then
      (readLength rest).map fun (n, content) => 1 + (rest.length - content.length) + n
    else none

/-- The content of the next element, which must have this tag. -/
def read (tag : UInt8) : Parser Bytes := do
  let e ← readElement
  if e.tag = tag then pure e.content else failure

/-- Applies a parser to a byte string that it has to use up. -/
def whole {α : Type} (p : Parser α) (b : Bytes) : Option α :=
  match p b with
  | some (a, []) => some a
  | _ => none

/-- An element with this tag, whose content is what `p` reads. -/
def inside {α : Type} (tag : UInt8) (p : Parser α) : Parser α := do
  let content ← read tag
  StateT.lift (whole p content)

/-- One item after the other until nothing is left, at most `fuel`. -/
def items {α : Type} (p : Parser α) : (fuel : Nat) → Bytes → Option (List α)
  | _, [] => some []
  | 0, _ :: _ => none
  | fuel + 1, b :: bs =>
    match p (b :: bs) with
    | none => none
    | some (a, rest) => (items p fuel rest).map (a :: ·)

/-- An element with this tag that holds any count of items. -/
def list {α : Type} (tag : UInt8) (p : Parser α) : Parser (List α) := do
  let content ← read tag
  StateT.lift (items p content.length content)

/-- What `p` reads, if the next tag is `tag`. -/
def optional {α : Type} (tag : UInt8) (p : Parser α) : Parser (Option α)
  | [] => some (none, [])
  | b :: rest => if b = tag then (p.map some) (b :: rest) else some (none, b :: rest)

def isContextTag (b : UInt8) : Bool := 0x80 ≤ b && b < 0xc0

/-- What `p` reads, if the next element has the context-specific tag number
`number`. Elements with a smaller number are passed over, at most `fuel`. -/
def skipTo {α : Type} (number : UInt8) (p : Parser α) : (fuel : Nat) → Parser (Option α)
  | _, [] => some (none, [])
  | fuel, b :: rest =>
    if !knownTag b then none
    else if !isContextTag b || number < b % 32 then some (none, b :: rest)
    else if b % 32 = number then (p.map some) (b :: rest)
    else
      match fuel, readElement (b :: rest) with
      | fuel + 1, some (_, rest) => skipTo number p fuel rest
      | _, _ => none

/-- A field that is told by its context-specific tag number and may be absent.
Only with `passOver` may fields with a smaller number stand before it. -/
def context {α : Type} (passOver : Bool) (number : UInt8) (p : Parser α) : Parser (Option α) :=
  fun b => skipTo number p (if passOver then b.length else 0) b

end AttestedVault.Der
