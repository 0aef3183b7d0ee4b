import AttestedVault.Base64
import AttestedVault.Certificate.Basic

/-!
# Certificates as text

A bundle of armoured certificates: base64 in lines of 64 signs between two
boundary lines. Text may stand before a certificate, not after the last.
-/

namespace AttestedVault.Certificate.Pem

def beginLine : Bytes := Bytes.ofText "-----BEGIN CERTIFICATE-----"

def endLine : Bytes := Bytes.ofText "-----END CERTIFICATE-----"

/-- What opens a boundary line of any kind. -/
def beginMark : Bytes := Bytes.ofText "-----BEGIN "

/-- Drops one line end: both characters together, or either of them. -/
def dropLineEnd? : Bytes → Option Bytes
  | 13 :: 10 :: rest => some rest
  | 13 :: rest => some rest
  | 10 :: rest => some rest
  | _ => none

/-- Drops one line end from the end of a text. -/
def chopLineEnd? (b : Bytes) : Option Bytes :=
  match b.reverse with
  | 10 :: 13 :: rest => some rest.reverse
  | 13 :: rest => some rest.reverse
  | 10 :: rest => some rest.reverse
  | _ => none

/-- Drops all characters of line ends from the end of a text. -/
def chopLineEnds (b : Bytes) : Bytes :=
  (b.reverse.dropWhile fun c => c == 13 || c == 10).reverse

/-- What follows the first line feed that stands right before an opening mark,
with no zero byte up to there. -/
def afterLineFeed? : Bytes → Option Bytes
  | [] => none
  | c :: rest =>
    if c = 0 then none
    else if c = 10 ∧ beginMark.isPrefixOf rest then some rest
    else afterLineFeed? rest

/-- Drops what stands before the opening boundary line. -/
def dropPreamble? (b : Bytes) : Option Bytes :=
  if beginMark.isPrefixOf b then some b else afterLineFeed? b

/-- Splits base64 into lines of 64 signs, the last of which may be shorter and
may have one line end behind it. -/
def lines? (b : Bytes) : Option (List Bytes) :=
  if b = [] then some []
  else if b.length ≤ 64 then some [(chopLineEnd? b).getD b]
  else
    match dropLineEnd? (b.drop 64) with
    | none => none
    | some rest =>
      if rest.length < b.length then (lines? rest).map (b.take 64 :: ·) else none
termination_by b.length

/-- The base64 between the boundary lines. -/
structure Armour where
  signs : Bytes
  /-- An empty line follows, and the signs must then do without padding. -/
  openEnded : Bool
  deriving DecidableEq, Repr

namespace Armour

/-- What a text holds that ends in the closing boundary line. -/
def ofText? (text : Bytes) : Option Armour := do
  let text ← dropPreamble? text
  if !beginLine.isPrefixOf text then none
  let body ← dropLineEnd? (text.drop beginLine.length)
  let body ← chopLineEnd? (body.take (body.length - endLine.length))
  let lines ← lines? body
  some ⟨lines.flatten, lines.getLast? = some []⟩

/-- How many bytes the signs stand for, told by their number and the last four. -/
def size? (a : Armour) : Option Nat :=
  if a.signs = [] ∨ a.signs.length % 4 ≠ 0 then none
  else
    let groups := a.signs.length / 4 - 1
    (Base64.decode (a.signs.drop (4 * groups))).toOption.map fun tail => 3 * groups + tail.length

/-- The first bytes. Signs behind those that they take are not looked at. -/
def take? (a : Armour) (count : Nat) : Option Bytes := do
  let part := a.signs.take (4 * ((count + 2) / 3))
  let bytes ← (Base64.decode part).toOption
  if (part.length < a.signs.length || a.openEnded) && bytes.length * 4 != part.length * 3 then none
  else some (bytes.take count)

/-- Signs are read as far as 256 bytes reach at a time. -/
def stride : Nat := 256

/-- The certificate at the front. What stands behind it is read only to the end
of a stride. -/
def certificate? (a : Armour) : Option Certificate := do
  let size ← a.size?
  let start ← a.take? (min size stride)
  let length ← Der.size? start
  let der ← a.take? (min size (stride * (length / stride + 1)))
  let (certificate, _) ← Certificate.read false der
  some certificate

end Armour

/-- Splits behind the first occurrence of `mark`. -/
def splitAfter? (mark : Bytes) : Bytes → Option (Bytes × Bytes)
  | [] => none
  | c :: rest =>
    if mark.isPrefixOf (c :: rest) then
      some ((c :: rest).take mark.length, (c :: rest).drop mark.length)
    else (splitAfter? mark rest).map fun (a, b) => (c :: a, b)

/-- Certificates until at most one byte is left, at most `fuel`. -/
def bundle (fuel : Nat) (text : Bytes) : Option (List Certificate) :=
  if text.length ≤ 1 then some []
  else
    match fuel, splitAfter? endLine text with
    | fuel + 1, some (first, rest) => do
      let certificate ← (Armour.ofText? first).bind Armour.certificate?
      let others ← bundle fuel rest
      some (certificate :: others)
    | _, _ => none

/-- The certificates of a text, in order. -/
def read? (text : Bytes) : Option (List Certificate) :=
  let text := chopLineEnds text
  bundle text.length text

end AttestedVault.Certificate.Pem

namespace AttestedVault.Certificate

/-- A bundle of armoured certificates if the first byte that is not blank is a
dash, otherwise one certificate in binary form. -/
def readAll? (b : Bytes) : Option (List Certificate) :=
  if (b.find? fun c => !Bytes.isBlank c) = some 45 then Pem.read? b
  else (ofDer? b).map ([·])

end AttestedVault.Certificate
