import AttestedVault.Text.Blank
import AttestedVault.Time.Timestamp

/-!
# RFC 3339 timestamps

Written in UTC with as many digits as the fraction needs. There are two
readers: a strict one, and one that admits blanks and years of any length.
-/

namespace AttestedVault.Rfc3339

/-! ## Writing -/

/-- At least `width` decimal digits. -/
def padded (width n : Nat) : List Char :=
  let d := Nat.toDigits 10 n
  List.replicate (width - d.length) '0' ++ d

/-- Years of other than four digits have a sign. -/
def writeYear (y : Int) : List Char :=
  if 0 ≤ y ∧ y ≤ 9999 then padded 4 y.toNat
  else if y < 0 then '-' :: padded 4 y.natAbs
  else '+' :: padded 4 y.natAbs

/-- No fraction, or three, six or nine digits. -/
def writeFraction (nano : Nat) : List Char :=
  if nano = 0 then []
  else if nano % 1000000 = 0 then '.' :: padded 3 (nano / 1000000)
  else if nano % 1000 = 0 then '.' :: padded 6 (nano / 1000)
  else '.' :: padded 9 nano

def write (zone : List Char) (t : Timestamp) : String :=
  String.ofList (writeYear t.date.year ++ '-' :: padded 2 t.date.month ++ '-' :: padded 2 t.date.day
    ++ 'T' :: padded 2 (t.clock.minute / 60) ++ ':' :: padded 2 (t.clock.minute % 60)
    ++ ':' :: padded 2 t.clock.second ++ writeFraction t.clock.nano ++ zone)

/-- With the zone `Z`. -/
def toText (t : Timestamp) : String := write ['Z'] t

/-- With the zone `+00:00`. -/
def toTextNumeric (t : Timestamp) : String := write ['+', '0', '0', ':', '0', '0'] t

/-! ## Reading -/

abbrev Parser (α : Type) := StateT (List Char) Option α

def digit? (c : Char) : Option Nat :=
  if '0' ≤ c ∧ c ≤ '9' then some (c.toNat - 48) else none

def isDigit (c : Char) : Bool := (digit? c).isSome

def decimal (ds : List Char) : Nat := ds.foldl (fun n c => 10 * n + (c.toNat - 48)) 0

/-- Between `least` and `most` digits, as many as there are. -/
def number (least most : Nat) : Parser Nat := fun s =>
  let ds := (s.take most).takeWhile isDigit
  if ds.length < least then none else some (decimal ds, s.drop ds.length)

/-- Any count of digits, at least one. -/
def longNumber : Parser Nat := fun s => number 1 s.length s

def sign (c : Char) : Parser Unit
  | d :: rest => if c = d then some ((), rest) else none
  | [] => none

def skipBlanks : Parser Unit := modify (·.dropWhile Text.isBlank)

/-- The mark between date and time. -/
def separator : Parser Unit
  | 't' :: rest => some ((), rest)
  | 'T' :: rest => some ((), rest)
  | ' ' :: rest => some ((), rest)
  | _ => none

/-- Digits after the point count nanoseconds; those after the ninth are dropped. -/
def fraction : Parser Nat
  | '.' :: rest =>
    let ds := rest.takeWhile isDigit
    if ds = [] then none
    else
      let kept := ds.take 9
      some (decimal kept * Nat.pow 10 (9 - kept.length), rest.drop ds.length)
  | rest => some (0, rest)

/-- Two digits below 60. -/
def sixty : Parser Nat := do
  let n ← number 2 2
  if n < 60 then pure n else failure

/-- Minutes ahead of UTC: `Z`, or a sign, hours and minutes. -/
def zone (colon : Parser Unit) : Parser Int
  | 'Z' :: rest => some (0, rest)
  | 'z' :: rest => some (0, rest)
  | c :: rest =>
    let offset : Parser Nat := do
      let h ← number 2 2
      colon
      let m ← sixty
      pure (60 * h + m)
    if c = '+' then (offset rest).map fun (n, s) => ((n : Int), s)
    else if c = '-' ∨ c = '\u2212' then (offset rest).map fun (n, s) => (-(n : Int), s)
    else none
  | [] => none

/-- The parts that a reader found. -/
def assemble (year : Int) (month day hour minute second nano : Nat) (offset : Int) :
    Option Timestamp :=
  if hour < 24 ∧ minute < 60 then
    Timestamp.ofLocal? ⟨year, month, day⟩ ⟨60 * hour + minute, second, nano⟩ offset
  else none

def strict : Parser Timestamp := do
  let year ← number 4 4
  sign '-'
  let month ← number 2 2
  sign '-'
  let day ← number 2 2
  separator
  let hour ← number 2 2
  sign ':'
  let minute ← number 2 2
  sign ':'
  let second ← number 2 2
  let nano ← fraction
  let offset ← zone (sign ':')
  StateT.lift (assemble year month day hour minute second nano offset)

/-- Four digits at most, or a sign and any count of digits. -/
def signedYear : Parser Int
  | '-' :: rest => (longNumber rest).map fun (n, s) => (-(n : Int), s)
  | '+' :: rest => (longNumber rest).map fun (n, s) => ((n : Int), s)
  | rest => (number 1 4 rest).map fun (n, s) => ((n : Int), s)

/-- Blanks, then one or two digits. -/
def short : Parser Nat := do
  skipBlanks
  number 1 2

def colonsAndBlanks : Parser Unit := modify (·.dropWhile fun c => c == ':' || Text.isBlank c)

/-- The zone may also be spelled `UTC`, in any case of letters. -/
def looseZone : Parser Int := fun s =>
  if (s.take 3).map Char.toUpper = ['U', 'T', 'C'] then some (0, s.drop 3)
  else zone colonsAndBlanks s

def relaxed : Parser Timestamp := do
  skipBlanks
  let year ← signedYear
  skipBlanks
  sign '-'
  let month ← short
  skipBlanks
  sign '-'
  let day ← short
  separator
  let hour ← short
  skipBlanks
  sign ':'
  let minute ← short
  skipBlanks
  sign ':'
  let second ← short
  let nano ← fraction
  skipBlanks
  let offset ← looseZone
  skipBlanks
  StateT.lift (assemble year month day hour minute second nano offset)

def run (p : Parser Timestamp) (s : String) : Option Timestamp :=
  match p s.toList with
  | some (t, []) => some t
  | _ => none

/-- Reads four-digit years and two digits for all else. -/
def ofTextStrict? (s : String) : Option Timestamp := run strict s

/-- Reads also what has blanks between the parts or fewer digits. -/
def ofText? (s : String) : Option Timestamp := run relaxed s

end AttestedVault.Rfc3339
