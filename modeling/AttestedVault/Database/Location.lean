import AttestedVault.Bytes
import AttestedVault.Disk
import AttestedVault.Hex
import AttestedVault.Text.Decimal
import AttestedVault.Text.Utf8

/-!
# Where a database is kept

A database is named by a path, or by a text that begins with `file:` and may
add options behind a question mark. Without a path it is kept in memory.
-/

namespace AttestedVault.Database

inductive Access
  | readOnly
  /-- The file has to exist. -/
  | readWrite
  | create
  deriving DecidableEq, Repr

inductive Location
  | memory (access : Access)
  | file (path : String) (access : Access)
  deriving DecidableEq, Repr

namespace Location

/-- Replaces codes of a percent sign and two digits. A code of zero hides what
follows it. -/
def unescape : Bytes → Bytes
  | 37 :: a :: b :: rest =>
    match Hex.decode? [a, b] with
    | some [0] => []
    | some [c] => c :: unescape rest
    | _ => 37 :: unescape (a :: b :: rest)
  | c :: rest => c :: unescape rest
  | [] => []
termination_by b => b.length

/-- Cuts at ampersands. -/
def stretches : Bytes → List Bytes
  | [] => [[]]
  | c :: rest =>
    match c, stretches rest with
    | 38, os => [] :: os
    | c, o :: os => (c :: o) :: os
    | c, [] => [[c]]

/-- The options as names with values, divided by the first equals sign. Those
without a name do not count. -/
def options (query : Bytes) : List (Bytes × Bytes) :=
  (stretches query).filterMap fun o =>
    let name := o.takeWhile (· ≠ 61)
    if name = [] then none else some (unescape name, unescape ((o.drop name.length).drop 1))

/-- What the options ask for. -/
structure Mode where
  /-- How to open the file, unless there is to be none. -/
  access : Option Access
  /-- The way in which files are kept, if it is named. -/
  keeping : Option Bytes
  /-- The file is taken not to change. -/
  fixed : Option Bool

/-- A wider access may not follow a narrower one. -/
def Mode.allows (m : Mode) (a : Access) : Bool :=
  match m.access, a with
  | some .create, _ => true
  | some .readWrite, a => a != .create
  | some .readOnly, a => a == .readOnly
  | none, _ => true

/-- A switch is on by a word in any case, or by a number whose last byte is not
zero. -/
def isOn (value : Bytes) : Bool :=
  let cs := (Text.lossy value).toList
  let n := Text.ofDigits (cs.takeWhile Text.isDigit)
  String.ofList (cs.map Char.toLower) ∈ ["on", "yes", "true"] || (n < 0x80000000 && n % 256 ≠ 0)

/-- Of several switches the first one counts, and of other options the last. -/
def Mode.add (m : Mode) (option : Bytes × Bytes) : Option Mode :=
  let is := fun (s : String) => option.2 = Bytes.ofText s
  let narrow := fun (a : Access) => if m.allows a then some { m with access := some a } else none
  if option.1 = Bytes.ofText "mode" then
    if is "ro" then narrow .readOnly
    else if is "rw" then narrow .readWrite
    else if is "rwc" then narrow .create
    else if is "memory" then some { m with access := none }
    else none
  else if option.1 = Bytes.ofText "cache" then
    if is "shared" ∨ is "private" then some m else none
  else if option.1 = Bytes.ofText "vfs" then some { m with keeping := some option.2 }
  else if option.1 = Bytes.ofText "immutable" then
    some { m with fixed := some (m.fixed.getD (isOn option.2)) }
  else some m

/-- The ways in which files are kept on the disk. -/
def onDisk : List Bytes := ["unix", "unix-none", "unix-dotfile", "unix-excl"].map Bytes.ofText

/-- Tells whether files are kept in memory, if the way is known at all. -/
def Mode.inMemory? (m : Mode) : Option Bool :=
  match m.keeping with
  | none => some false
  | some way =>
    if way ∈ onDisk then some false else if way = Bytes.ofText "memdb" then some true else none

/-- Drops an authority, which must be empty or the local host. -/
def dropAuthority? : Bytes → Option Bytes
  | 47 :: 47 :: rest =>
    let authority := rest.takeWhile (· ≠ 47)
    if authority = [] ∨ authority = Bytes.ofText "localhost" then some (rest.dropWhile (· ≠ 47))
    else none
  | b => some b

/-- The location that a path names under a mode. -/
def ofPath? (path : String) (m : Mode) : Option Location :=
  let access := if m.fixed.getD false then .readOnly else m.access.getD .create
  m.inMemory?.map fun inMemory =>
    if path = "" ∨ path = ":memory:" ∨ m.access = none ∨ inMemory = true then .memory access
    else .file path access

/-- Opened for writing, and made where it does not exist. -/
def plainMode : Mode := ⟨some .create, none, none⟩

/-- What a name means, if it may be opened at all. -/
def ofName? (name : String) : Option Location :=
  let b := Bytes.ofText name
  if b.contains 0 then none
  else if (Bytes.ofText "file:").isPrefixOf b then do
    let rest ← dropAuthority? ((b.drop 5).takeWhile (· ≠ 35))
    let path := rest.takeWhile (· ≠ 63)
    let mode ← (options ((rest.drop path.length).drop 1)).foldlM Mode.add plainMode
    ofPath? (Text.lossy (unescape path)) mode
  else ofPath? name plainMode

end Location

end AttestedVault.Database

namespace AttestedVault.Disk

/-- Follows a name of a database's path. Names need not exist, but nothing lies
below a plain file. -/
def approach (d : Disk) (p : Place) (name : String) : Option Place :=
  if name = "" ∨ name = "." ∨ name = ".." then some (step p name)
  else if maxName < name.utf8ByteSize ∨ (d.file? p).isSome then none
  else some (p ++ [name])

/-- The longest path of a database in bytes. -/
def maxDatabasePath : Nat := 512

/-- The place of a database. Unlike for other files, names are taken back by two
dots whether they exist or not. -/
def databasePlace (d : Disk) (path : String) : Option Place :=
  if maxDatabasePath < path.utf8ByteSize then none else (names path).foldlM d.approach []

/-- The content of a database's file, which may be still to be made. A sink
cannot hold one. -/
def database? (d : Disk) (path : String) (access : Database.Access) : Option Bytes := do
  let p ← d.databasePlace path
  match d.file? p with
  | some b => if d.sinks.contains p then none else some b
  | none =>
    if access == .create && !p.isEmpty && !d.isDirectory p && d.isDirectory p.dropLast then some []
    else none

end AttestedVault.Disk
