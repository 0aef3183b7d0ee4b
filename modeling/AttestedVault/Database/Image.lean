import AttestedVault.Database.Cell

/-!
# Database files

A file is cut into pages of one size. Trees of pages hold entries in order,
each of which lists the values of a row; the tree on the first page lists the
tables and indexes that there are.
-/

namespace AttestedVault.Database

/-- The number in `n` bytes from offset `start` on, most significant first. -/
def number (b : Bytes) (start n : Nat) : Nat := Bytes.toNat (Octets.window b start n).val

inductive Encoding
  | utf8
  | utf16le
  | utf16be
  deriving DecidableEq, Repr

/-- A file that has passed the checks of its header. -/
structure Image where
  content : Bytes
  pageSize : Nat
  /-- The bytes at the end of each page that are left alone. -/
  reserved : Nat
  pages : Nat
  encoding : Encoding
  /-- Only readers understand the format. -/
  readOnly : Bool

namespace Image

def signature : Bytes := Bytes.ofText "SQLite format 3" ++ [0]

def encodingOf (n : Nat) : Encoding :=
  if n % 4 = 2 then .utf16le else if n % 4 = 3 then .utf16be else .utf8

/-- Reads the header. The file must hold all the pages that it counts. -/
def ofBytes? (b : Bytes) : Option Image :=
  let size := if number b 16 2 = 1 then 65536 else number b 16 2
  let present := (b.length + size - 1) / size
  let counted := number b 28 4
  let pages := if counted = 0 ∨ number b 24 4 ≠ number b 92 4 then present else counted
  if signature.isPrefixOf b ∧ 512 ≤ size ∧ size ≤ 65536 ∧ size &&& (size - 1) = 0
      ∧ number b 19 1 ≤ 2 ∧ number b 21 3 = 0x402020 ∧ number b 20 1 + 480 ≤ size
      ∧ pages ≤ present ∧ number b 47 1 ≤ 4 then
    some ⟨b, size, number b 20 1, pages, encodingOf (number b 56 4), 2 < number b 18 1⟩
  else none

def usable (i : Image) : Nat := i.pageSize - i.reserved

/-- Trees can be added: the free pages that the header counts are there, and so
is the largest root that it tells. -/
def canGrow (i : Image) : Bool :=
  let first := number i.content 32 4
  let free := number i.content 36 4
  (free == 0 || (free < i.pages && 2 ≤ first && first ≤ i.pages))
    && number i.content 52 4 ≤ i.pages

/-- The page of this number, counted from one. -/
def page? (i : Image) (n : Nat) : Option Bytes :=
  if 1 ≤ n ∧ n ≤ i.pages then some (Octets.window i.content ((n - 1) * i.pageSize) i.pageSize).val
  else none

/-! ## Entries -/

/-- Reads a number of one to nine bytes. All but a ninth byte give seven bits,
and the last one has the top bit clear. -/
def varint : (left value : Nat) → Bytes → Option (Nat × Bytes)
  | _, _, [] => none
  | 0, v, b :: rest => some (256 * v + b.toNat, rest)
  | left + 1, v, b :: rest =>
    if b < 128 then some (128 * v + b.toNat, rest) else varint left (128 * v + b.toNat % 128) rest

def readVarint : Bytes → Option (Nat × Bytes) := varint 8 0

/-- The bytes behind an entry that run over into pages of their own. -/
def overflow (i : Image) : (fuel missing next : Nat) → Option Bytes
  | _, 0, _ => some []
  | 0, _ + 1, _ => none
  | fuel + 1, missing + 1, next => do
    let page ← i.page? next
    let part := ((page.drop 4).take (i.usable - 4)).take (missing + 1)
    let rest ← i.overflow fuel (missing + 1 - part.length) (number page 0 4)
    some (part ++ rest)

/-- How many of `size` bytes stay on the page of the entry, which holds up to
`most` of them. -/
def kept (i : Image) (size most : Nat) : Nat :=
  let least := (i.usable - 12) * 32 / 255 - 23
  let fitting := least + (size - least) % (i.usable - 4)
  if size ≤ most then size else if fitting ≤ most then fitting else least

/-- The bytes of an entry of this size that begin here. -/
def payload? (i : Image) (size most : Nat) (b : Bytes) : Option Bytes :=
  let n := i.kept size most
  if n = size then if size ≤ b.length then some (b.take size) else none
  else (i.overflow i.pages (size - n) (number b n 4)).map (b.take n ++ ·)

/-- What a page of a tree leads to. -/
inductive Item
  | child (page : Nat)
  /-- The number of the row, or zero if the tree has none, and its bytes. -/
  | entry (row : Nat) (payload : Bytes)

/-- The trees of most tables number their rows. The others, like indexes, are
ordered by their entries, which stand on inner pages too. -/
inductive TreeKind
  | numbered
  | ordered
  deriving DecidableEq, Repr

/-- The items at a place of a page. -/
def itemsAt (i : Image) (mark : Nat) (b : Bytes) : Option (List Item) :=
  let ordered := (i.usable - 12) * 64 / 255 - 23
  if mark = 13 then do
    let (size, b) ← readVarint b
    let (row, b) ← readVarint b
    let payload ← i.payload? size (i.usable - 35) b
    some [.entry row payload]
  else if mark = 5 then some [.child (number b 0 4)]
  else if mark = 10 then do
    let (size, b) ← readVarint b
    let payload ← i.payload? size ordered b
    some [.entry 0 payload]
  else do
    let (size, rest) ← readVarint (b.drop 4)
    let payload ← i.payload? size ordered rest
    some [.child (number b 0 4), .entry 0 payload]

def marks : TreeKind → List Nat
  | .numbered => [5, 13]
  | .ordered => [2, 10]

/-- The items of a page of a tree, in order. -/
def items? (i : Image) (kind : TreeKind) (n : Nat) : Option (List Item) := do
  let page ← i.page? n
  let start := if n = 1 then 100 else 0
  let mark := number page start 1
  let count := number page (start + 3) 2
  let inner := mark < 8
  let pointers := start + (if inner then 12 else 8)
  if mark ∉ marks kind ∨ i.usable < pointers + 2 * count then none
  else
    let parts ← (List.range count).mapM fun k =>
      i.itemsAt mark ((page.take i.usable).drop (number page (pointers + 2 * k) 2 % i.pageSize))
    some (parts.flatten ++ if inner then [.child (number page (start + 8) 4)] else [])

/-- The entries below the items, at most `fuel` steps. -/
def entries (i : Image) (kind : TreeKind) : (fuel : Nat) → List Item → Option (List (Nat × Bytes))
  | _, [] => some []
  | 0, _ :: _ => none
  | fuel + 1, .entry row payload :: rest => (i.entries kind fuel rest).map ((row, payload) :: ·)
  | fuel + 1, .child n :: rest =>
    match i.items? kind n with
    | none => none
    | some first => i.entries kind fuel (first ++ rest)

/-- The entries of the tree that starts at a page. -/
def tree? (i : Image) (kind : TreeKind) (root : Nat) : Option (List (Nat × Bytes)) :=
  i.entries kind (i.content.length + i.pages + 1) [.child root]

/-! ## Values -/

/-- A number of two's complement in `n` bytes. -/
def signed (n value : Nat) : Int :=
  if value < Nat.pow 256 n / 2 then value else (value : Int) - (Nat.pow 256 n : Nat)

/-- The characters of a text in units of 16 bits. -/
def ofUnits : List Nat → List Char
  | [] => []
  | [u] => [if 0xd800 ≤ u ∧ u < 0xe000 then '\ufffd' else Char.ofNat u]
  | u :: v :: rest =>
    if 0xd800 ≤ u ∧ u < 0xdc00 ∧ 0xdc00 ≤ v ∧ v < 0xe000 then
      Char.ofNat (0x10000 + 0x400 * (u - 0xd800) + (v - 0xdc00)) :: ofUnits rest
    else (if 0xd800 ≤ u ∧ u < 0xe000 then '\ufffd' else Char.ofNat u) :: ofUnits (v :: rest)

/-- The UTF-8 bytes of a stored text. -/
def recode (e : Encoding) (b : Bytes) : Bytes :=
  let units := fun (f : Bytes → Nat) => ((Bytes.chunks 2 b).filter fun p => p.length = 2).map f
  match e with
  | .utf8 => b
  | .utf16le => Bytes.ofText (String.ofList (ofUnits (units Bytes.toNatLE)))
  | .utf16be => Bytes.ofText (String.ofList (ofUnits (units Bytes.toNat)))

/-- How many bytes a value of this type code takes. -/
def width (code : Nat) : Nat :=
  if code = 5 then 6 else if code = 6 ∨ code = 7 then 8 else if code < 5 then code
  else if code < 12 then 0 else (code - 12) / 2

def value (e : Encoding) (code : Nat) (b : Bytes) : Cell :=
  if 1 ≤ code ∧ code ≤ 6 then .integer (signed b.length (Bytes.toNat b))
  else if code = 7 then .real (UInt64.ofNat (Bytes.toNat b))
  else if code = 8 then .integer 0
  else if code = 9 then .integer 1
  else if code < 12 then .null
  else if code % 2 = 0 then .blob b
  else .text (recode e b)

/-- Type codes up to the end of a record's header. -/
def codes : (fuel : Nat) → Bytes → Option (List Nat)
  | _, [] => some []
  | 0, _ :: _ => none
  | fuel + 1, b =>
    match readVarint b with
    | none => none
    | some (code, rest) => (codes fuel rest).map (code :: ·)

def valuesOf (e : Encoding) : List Nat → Bytes → Option (List Cell)
  | [], _ => some []
  | code :: rest, b =>
    if width code ≤ b.length then
      (valuesOf e rest (b.drop (width code))).map (value e code (b.take (width code)) :: ·)
    else none

/-- The values that an entry lists. One without a header lists none. -/
def record? (e : Encoding) (b : Bytes) : Option (List Cell) :=
  match readVarint b with
  | none => if b = [] then some [] else none
  | some (size, rest) =>
    let read := b.length - rest.length
    if b.length < size then none
    else (codes size (rest.take (size - read))).bind fun cs => valuesOf e cs (b.drop size)

/-- The rows of a tree with their numbers. -/
def rows? (i : Image) (kind : TreeKind) (root : Nat) : Option (List (Int × List Cell)) := do
  let es ← i.tree? kind root
  es.mapM fun (row, payload) => (record? i.encoding payload).map (signed 8 row, ·)

end Image

/-- What the tree on the first page tells of a table or an index. -/
structure Object where
  kind : String
  name : String
  table : String
  root : Nat
  sql : String
  deriving Repr

namespace Object

def ofCells? : List Cell → Option Object
  | kind :: name :: table :: root :: sql :: _ => do
    let text := fun (c : Cell) => (c.toText?).getD ""
    let root ← root.toInteger?.orElse fun _ => some 0
    if root < 0 then none else some ⟨text kind, text name, text table, root.toNat, text sql⟩
  | _ => none

end Object

/-- A statement that makes the object stands in its row, unless it is an index
that comes with its table. -/
def Object.isMade (o : Object) : Bool :=
  match o.sql.toList with
  | c :: r :: _ => c.toLower == 'c' && r.toLower == 'r'
  | [_] => false
  | [] => o.kind == "index"

/-- The tables and indexes of a file, all of whose trees start in it. -/
def Image.objects? (i : Image) : Option (List Object) := do
  let rows ← i.rows? .numbered 1
  let objects ← rows.mapM fun r => Object.ofCells? r.2
  if objects.all fun o => o.isMade && o.root ≤ i.pages then some objects else none

end AttestedVault.Database
