import AttestedVault.Bytes

/-!
# Files

Path texts, and a small file system of plain files and directories that is
addressed by them. A path is followed name by name, so each directory that it
mentions has to exist, also one that two dots lead out of again.
-/

namespace AttestedVault

/-- Failures of the file system. -/
inductive IoError
  | notFound
  | alreadyExists
  | notDirectory
  | isDirectory
  | nameTooLong
  | zeroByte
  deriving DecidableEq, Repr

def IoError.message : IoError → String
  | .notFound => "No such file or directory (os error 2)"
  | .alreadyExists => "File exists (os error 17)"
  | .notDirectory => "Not a directory (os error 20)"
  | .isDirectory => "Is a directory (os error 21)"
  | .nameTooLong => "File name too long (os error 36)"
  | .zeroByte => "file name contained an unexpected NUL byte"

/-! ## Path texts -/

/-- The path of `name` seen from `dir`. An absolute name stands for itself. -/
def joinPath (dir name : String) : String :=
  if "/".toList.isPrefixOf name.toList ∨ dir = "" then name
  else if dir.toList.getLast? = some '/' then dir ++ name
  else dir ++ "/" ++ name

namespace Disk

/-- A place in the tree: the names on the way to it. -/
abbrev Place := List String

/-- Cuts a text at slashes. -/
def cuts : List Char → List (List Char)
  | [] => [[]]
  | c :: rest =>
    match c, cuts rest with
    | '/', ns => [] :: ns
    | c, n :: ns => (c :: n) :: ns
    | c, [] => [[c]]

/-- The names between the slashes of a path, empty ones included. -/
def names (path : String) : List String := (cuts path.toList).map String.ofList

/-- The names of a path that lead somewhere. -/
def steps (path : String) : List String := (names path).filter fun n => n ≠ "" ∧ n ≠ "."

/-- Two dots lead one level up. -/
def step (place : Place) (name : String) : Place :=
  if name = "" ∨ name = "." then place
  else if name = ".." then place.dropLast
  else place ++ [name]

/-- The longest name in bytes. -/
def maxName : Nat := 255

/-- The longest path in bytes. -/
def maxPath : Nat := 4095

/-- Why a path text is refused before it is followed. -/
def refusal? (path : String) : Option IoError :=
  if path.toList.contains '\x00' then some .zeroByte
  else if path = "" then some .notFound
  else if maxPath < path.utf8ByteSize then some .nameTooLong
  else none

end Disk

/-! ## The tree -/

structure Disk where
  files : List (Disk.Place × Bytes)
  directories : List Disk.Place
  /-- Files that are empty for readers and swallow what is written to them. -/
  sinks : List Disk.Place

namespace Disk

def empty : Disk := ⟨[], [[]], []⟩

def file? (d : Disk) (p : Place) : Option Bytes :=
  if p ∈ d.sinks then some [] else (d.files.find? fun f => f.1 = p).map (·.2)

def isDirectory (d : Disk) (p : Place) : Bool := p ∈ d.directories

/-- Follows names from a place. What the last one leads to need not exist. -/
def walk (d : Disk) : Place → List String → Except IoError Place
  | p, [] => .ok p
  | p, name :: rest =>
    if d.isDirectory p then
      if maxName < name.utf8ByteSize then .error .nameTooLong else d.walk (step p name) rest
    else .error (if (d.file? p).isSome then .notDirectory else .notFound)

/-- The place that a path leads to. -/
def locate (d : Disk) (path : String) : Except IoError Place :=
  match refusal? path with
  | some e => .error e
  | none => d.walk [] (names path)

def read (d : Disk) (path : String) : Except IoError Bytes :=
  match d.locate path with
  | .error e => .error e
  | .ok p =>
    match d.file? p with
    | some b => .ok b
    | none => .error (if d.isDirectory p then .isDirectory else .notFound)

/-- The file at the place has this content from now on, unless it is a sink. -/
def store (d : Disk) (p : Place) (content : Bytes) : Disk :=
  if p ∈ d.sinks then d
  else { d with files := (p, content) :: d.files.filter fun f => f.1 ≠ p }

/-- The file gets this content if its directory exists. -/
def write (d : Disk) (path : String) (content : Bytes) : Disk :=
  match d.locate path with
  | .error _ => d
  | .ok p => if d.isDirectory p then d else d.store p content

/-- A new directory at the end of these names. -/
def make (d : Disk) (ns : List String) : Except IoError Disk :=
  match d.walk [] ns with
  | .error e => .error e
  | .ok p =>
    if d.isDirectory p || (d.file? p).isSome then .error .alreadyExists
    else .ok { d with directories := p :: d.directories }

/-- These names lead to a directory. -/
def leadsIn (d : Disk) (ns : List String) : Bool :=
  match d.walk [] ns with
  | .ok p => d.isDirectory p
  | .error _ => false

/-- The directory at the end of names that come last to first, and all that are
missing on the way to it. Tells whether it is there afterwards. -/
def makeAll (d : Disk) : List String → Disk × Bool
  | [] => (d, true)
  | last :: up =>
    let ns := (last :: up).reverse
    match d.make ns with
    | .ok d => (d, true)
    | .error .notFound =>
      match d.makeAll up with
      | (d, false) => (d, false)
      | (d, true) =>
        match d.make ns with
        | .ok d => (d, true)
        | .error _ => (d, d.leadsIn ns)
    | .error _ => (d, d.leadsIn ns)

/-- The directory and all on the way to it. Tells whether it is there afterwards. -/
def createDirectories (d : Disk) (path : String) : Disk × Bool :=
  if path = "" then (d, true)
  else if (refusal? path).isSome then (d, false)
  else d.makeAll (steps path).reverse

/-- A file in a directory that is made first. Nothing is written if that fails. -/
def writeIn (d : Disk) (dir path : String) (content : Bytes) : Disk :=
  match d.createDirectories dir with
  | (d, true) => d.write path content
  | (d, false) => d

/-- A file with all the directories on the way to it. -/
def put (d : Disk) (path : String) (content : Bytes) : Disk :=
  (d.makeAll (steps path).reverse.tail).1.write path content

/-- The directory is gone, with all below it. A plain file stays. -/
def removeDirectory (d : Disk) (path : String) : Disk :=
  match d.locate path with
  | .error _ => d
  | .ok p =>
    if d.isDirectory p then
      { d with
        files := d.files.filter fun f => !p.isPrefixOf f.1
        directories := d.directories.filter fun q => !p.isPrefixOf q }
    else d

/-- The plain files of a directory with their names. -/
def list (d : Disk) (path : String) : List (String × Bytes) :=
  match d.locate path with
  | .error _ => []
  | .ok p =>
    d.files.filterMap fun f =>
      if f.1.dropLast = p ∧ f.1 ≠ [] then f.1.getLast?.map fun name => (name, f.2) else none

end Disk

end AttestedVault
