import AttestedVault.Der.Basic
import AttestedVault.Time.Timestamp

/-!
# Validity periods

Two points in time, which are read strictly but compared with no clock.
-/

namespace AttestedVault.Certificate

open Der

/-- A point in time, kept as its digits: with two digits for the year, or
with four. -/
inductive Time
  | short (digits : Bytes)
  | long (digits : Bytes)
  deriving DecidableEq, Repr

def twoDigits? : Bytes → Option Nat
  | [a, b] =>
    if 48 ≤ a ∧ a ≤ 57 ∧ 48 ≤ b ∧ b ≤ 57 then some (10 * (a.toNat - 48) + (b.toNat - 48)) else none
  | _ => none

/-- Month, day, hour, minute and second of a year from 1970 on, then `Z`. -/
def validAfterYear (year : Nat) (rest : Bytes) : Bool :=
  match (Bytes.chunks 2 (rest.take 10)).map twoDigits?, rest.drop 10 with
  | [some mon, some day, some hour, some min, some sec], [0x5a] =>
    1970 ≤ year && 1 ≤ mon && mon ≤ 12 && 1 ≤ day && day ≤ daysInMonth year mon
      && hour ≤ 23 && min ≤ 59 && sec ≤ 59
  | _, _ => false

/-- Two digits from 50 on stand for a year before 2000. -/
def validShort (digits : Bytes) : Bool :=
  match twoDigits? (digits.take 2) with
  | some y => validAfterYear (if 50 ≤ y then 1900 + y else 2000 + y) (digits.drop 2)
  | none => false

def validLong (digits : Bytes) : Bool :=
  match twoDigits? (digits.take 2), twoDigits? ((digits.drop 2).take 2) with
  | some c, some y => validAfterYear (100 * c + y) (digits.drop 4)
  | _, _ => false

namespace Time

def ofElement (e : Element) : Option Time :=
  if e.tag = 0x17 then if validShort e.content then some (.short e.content) else none
  else if e.tag = 0x18 then if validLong e.content then some (.long e.content) else none
  else none

def read : Parser Time := do
  let e ← readElement
  StateT.lift (ofElement e)

def toDer : Time → Bytes
  | .short digits => write 0x17 digits
  | .long digits => write 0x18 digits

end Time

structure Validity where
  notBefore : Time
  notAfter : Time
  deriving DecidableEq, Repr

def Validity.read : Parser Validity :=
  inside 0x30 do
    let notBefore ← Time.read
    let notAfter ← Time.read
    pure ⟨notBefore, notAfter⟩

def Validity.toDer (v : Validity) : Bytes := write 0x30 (v.notBefore.toDer ++ v.notAfter.toDer)

end AttestedVault.Certificate
