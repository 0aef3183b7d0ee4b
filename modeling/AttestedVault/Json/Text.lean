import AttestedVault.Json.Basic

/-!
# JSON text

A reader that refuses all but the grammar, to any depth, and a writer without
blanks.
-/

namespace AttestedVault.Json

/-! ## Writing -/

def hexDigit (n : Nat) : Char := if n < 10 then Char.ofNat (48 + n) else Char.ofNat (87 + n)

/-- A character inside quotes. -/
def writeChar (c : Char) : List Char :=
  if c = '"' then ['\\', '"']
  else if c = '\\' then ['\\', '\\']
  else if c = '\x08' then ['\\', 'b']
  else if c = '\x0c' then ['\\', 'f']
  else if c = '\n' then ['\\', 'n']
  else if c = '\r' then ['\\', 'r']
  else if c = '\t' then ['\\', 't']
  else if c.toNat < 32 then
    ['\\', 'u', '0', '0', hexDigit (c.toNat / 16), hexDigit (c.toNat % 16)]
  else [c]

def writeText (s : String) : List Char := '"' :: (s.toList.flatMap writeChar ++ ['"'])

/-- Writes an object of texts and flags in the order of its fields. -/
def writeFields : List (String × List Char) → List Char
  | [] => []
  | [f] => writeText f.1 ++ ':' :: f.2
  | f :: g :: rest => writeText f.1 ++ ':' :: (f.2 ++ ',' :: writeFields (g :: rest))

def writeObject (fields : List (String × List Char)) : String :=
  String.ofList ('\x7b' :: (writeFields fields ++ ['\x7d']))

/-! ## Reading -/

abbrev Reader (α : Type) := List Char → Option (α × List Char)

def isBlank (c : Char) : Bool := c == ' ' || c == '\n' || c == '\t' || c == '\r'

def skip (s : List Char) : List Char := s.dropWhile isBlank

def hexValue? (c : Char) : Option Nat :=
  if '0' ≤ c ∧ c ≤ '9' then some (c.toNat - 48)
  else if 'a' ≤ c ∧ c ≤ 'f' then some (c.toNat - 87)
  else if 'A' ≤ c ∧ c ≤ 'F' then some (c.toNat - 55)
  else none

/-- What the letter after a backslash stands for. -/
def escaped? : Char → Option Char
  | '"' => some '"'
  | '\\' => some '\\'
  | '/' => some '/'
  | 'b' => some '\x08'
  | 'f' => some '\x0c'
  | 'n' => some '\n'
  | 'r' => some '\r'
  | 't' => some '\t'
  | _ => none

/-- The code units of a string up to its closing quote; a character that stands
for itself is one unit. -/
def units : Reader (List Nat)
  | '"' :: rest => some ([], rest)
  | '\\' :: 'u' :: a :: b :: c :: d :: rest => do
    let a ← hexValue? a
    let b ← hexValue? b
    let c ← hexValue? c
    let d ← hexValue? d
    let (us, rest) ← units rest
    some ((4096 * a + 256 * b + 16 * c + d) :: us, rest)
  | '\\' :: c :: rest => do
    let c ← escaped? c
    let (us, rest) ← units rest
    some (c.toNat :: us, rest)
  | c :: rest =>
    if c = '\\' ∨ c.toNat < 32 then none
    else do
      let (us, rest) ← units rest
      some (c.toNat :: us, rest)
  | [] => none

def isHigh (u : Nat) : Bool := 0xd800 ≤ u && u < 0xdc00

def isLow (u : Nat) : Bool := 0xdc00 ≤ u && u < 0xe000

/-- Joins surrogate pairs; fails on an unpaired one. -/
def characters? : List Nat → Option (List Char)
  | [] => some []
  | [u] => if isHigh u || isLow u then none else some [Char.ofNat u]
  | u :: v :: rest =>
    if isHigh u && isLow v then
      (characters? rest).map (Char.ofNat (0x10000 + (u - 0xd800) * 1024 + (v - 0xdc00)) :: ·)
    else if isHigh u || isLow u then none
    else (characters? (v :: rest)).map (Char.ofNat u :: ·)

/-- A string whose opening quote has been read. -/
def readString : Reader (Option String) := fun s => do
  let (us, rest) ← units s
  some ((characters? us).map String.ofList, rest)

def isDigit (c : Char) : Bool := '0' ≤ c && c ≤ '9'

/-- At least one digit. -/
def readDigits : Reader (List Char) := fun s =>
  let ds := s.takeWhile isDigit
  if ds = [] then none else some (ds, s.drop ds.length)

def readFraction : Reader Bool
  | '.' :: rest => (readDigits rest).map fun (_, s) => (true, s)
  | rest => some (false, rest)

def readExponent : Reader Bool
  | c :: rest =>
    if c = 'e' ∨ c = 'E' then
      match rest with
      | '+' :: rest => (readDigits rest).map fun (_, s) => (true, s)
      | '-' :: rest => (readDigits rest).map fun (_, s) => (true, s)
      | rest => (readDigits rest).map fun (_, s) => (true, s)
    else some (false, c :: rest)
  | [] => some (false, [])

/-- A number without its sign. -/
def readUnsigned : Reader Json := fun s => do
  let (ds, rest) ← readDigits s
  if ds.head? = some '0' ∧ ds.length ≠ 1 then none
  let (fraction, rest) ← readFraction rest
  let (exponent, rest) ← readExponent rest
  let n := ds.foldl (fun n c => 10 * n + (c.toNat - 48)) 0
  some (if fraction || exponent then .number else .nat n, rest)

def readWord (word : String) (j : Json) : Reader Json := fun s =>
  if word.toList.isPrefixOf s then some (j, s.drop word.length) else none

mutual

/-- A value with blanks before it; `fuel` bounds the depth and the count of items. -/
def readValue : (fuel : Nat) → Reader Json
  | 0, _ => none
  | fuel + 1, s =>
    match skip s with
    | '"' :: rest => (readString rest).map fun (t, s) => (.text t, s)
    | '[' :: rest =>
      match skip rest with
      | ']' :: rest => some (.array [], rest)
      | rest => (readItems fuel rest).map fun (js, s) => (.array js, s)
    | '\x7b' :: rest =>
      match skip rest with
      | '\x7d' :: rest => some (.object [], rest)
      | rest => (readFields fuel rest).map fun (fs, s) => (.object fs, s)
    | '-' :: rest => (readUnsigned rest).map fun (_, s) => (.number, s)
    | 'n' :: rest => readWord "null" .null ('n' :: rest)
    | 't' :: rest => readWord "true" (.bool true) ('t' :: rest)
    | 'f' :: rest => readWord "false" (.bool false) ('f' :: rest)
    | rest => readUnsigned rest

/-- The items of an array up to its closing bracket. -/
def readItems : (fuel : Nat) → Reader (List Json)
  | 0, _ => none
  | fuel + 1, s => do
    let (j, rest) ← readValue fuel s
    match skip rest with
    | ']' :: rest => some ([j], rest)
    | ',' :: rest =>
      let (js, rest) ← readItems fuel rest
      some (j :: js, rest)
    | _ => none

/-- The fields of an object up to its closing brace. -/
def readFields : (fuel : Nat) → Reader (List (Option String × Json))
  | 0, _ => none
  | fuel + 1, s =>
    match skip s with
    | '"' :: rest => do
      let (name, rest) ← readString rest
      match skip rest with
      | ':' :: rest =>
        let (j, rest) ← readValue fuel rest
        match skip rest with
        | '\x7d' :: rest => some ([(name, j)], rest)
        | ',' :: rest =>
          let (fs, rest) ← readFields fuel rest
          some ((name, j) :: fs, rest)
        | _ => none
      | _ => none
    | _ => none

end

/-- The value of a text, which has nothing but blanks around it. Every second step
of the reader uses up a character, so the length bounds the steps. -/
def parse? (text : String) : Option Json :=
  let s := text.toList
  match readValue (2 * s.length + 2) s with
  | some (j, rest) => if skip rest = [] then some j else none
  | none => none

end AttestedVault.Json
