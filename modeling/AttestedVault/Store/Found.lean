import AttestedVault.Database.Image
import AttestedVault.Database.Schema
import AttestedVault.Store.Table

/-!
# The store in a table that was found

A database file may hold the table of records already, perhaps with other
columns, types and constraints. Records are read from it and written to it as
far as its definition allows.
-/

namespace AttestedVault

open Database

structure FoundTable where
  definition : TableDefinition
  /-- The keys of the table and of its indexes. -/
  keys : List UniqueKey
  /-- The rows in order, each under its number, unless the file is damaged. -/
  rows : Option (List (Int × List Cell))
  writable : Bool

namespace TableRow

/-- The columns of a record with their values. -/
def cells (r : TableRow) : List (String × Cell) := [
  ("id", .ofText r.id), ("encrypted_dek", .ofText r.encryptedDek), ("iv", .ofText r.iv),
  ("auth_tag", .ofText r.authTag), ("key_version", .ofText r.version),
  ("master_key_id", .ofText r.masterKeyId), ("active", (r.active.map .integer).getD .null),
  ("created_at", .ofText r.createdAt)]

/-- The names of a record's columns. -/
def columnNames : List String := ["id", "encrypted_dek", "iv", "auth_tag", "key_version",
  "master_key_id", "active", "created_at"]

/-- The row whose columns `column` yields, if they hold texts. -/
def ofCells? (column : String → Cell) : Option TableRow := do
  let text := fun (name : String) => (column name).toText?
  some ⟨← text "id", ← text "encrypted_dek", ← text "iv", ← text "auth_tag",
    ← text "key_version", ← text "master_key_id", (column "active").toInteger?,
    ← text "created_at"⟩

end TableRow

namespace FoundTable

def column? (t : FoundTable) (name : String) : Option Column :=
  t.definition.columns.find? fun c => c.name = name

/-- These columns are there. -/
def has (t : FoundTable) (names : List String) : Bool :=
  names.all fun name => (t.column? name).isSome

/-- What a row holds in a column. -/
def cell (t : FoundTable) (row : Int × List Cell) (name : String) : Cell :=
  match (t.definition.columns.zip row.2).find? fun p => p.1.name = name with
  | some (c, value) => if c.rowNumber then .integer row.1 else value
  | none => .null

/-- A value counts as one, in a column of this affinity. -/
def isOne (a : Affinity) (c : Cell) : Bool :=
  match a with
  | .text => c == .ofText "1"
  | .blob => c.plain == .integer 1
  | _ => Affinity.toNumber c == .integer 1

def isActive (t : FoundTable) (row : Int × List Cell) : Bool :=
  isOne (((t.column? "active").map (·.affinity)).getD .blob) (t.cell row "active")

def record (t : FoundTable) (row : Int × List Cell) : Except StoreError KeyRecord :=
  match TableRow.ofCells? (t.cell row) with
  | some r => r.toRecord
  | none => .error .database

/-- The rows, if they can be read and have these columns. -/
def select (t : FoundTable) (names : List String) : Except StoreError (List (Int × List Cell)) :=
  match t.has names, t.rows with
  | true, some rows => .ok rows
  | _, _ => .error .database

def active? (t : FoundTable) : Except StoreError (Option KeyRecord) :=
  match t.select TableRow.columnNames with
  | .error e => .error e
  | .ok rows =>
    match rows.find? t.isActive with
    | none => .ok none
    | some row => (t.record row).map some

def list (t : FoundTable) : Except StoreError (List KeyRecord) :=
  if t.definition.ordered ≠ [] then .error .database
  else
    match t.select TableRow.columnNames with
    | .error e => .error e
    | .ok rows => rows.mapM t.record

/-- Two rows agree on a key. -/
def collide (t : FoundTable) (a b : Int × List Cell) (k : UniqueKey) : Bool :=
  k.columns.all (fun name => t.cell a name != .null && (t.cell a name).plain == (t.cell b name).plain)
    && (!k.activeOnly || (t.isActive a && t.isActive b))

/-- The row agrees with one of the others on some key. -/
def clashes (t : FoundTable) (row : Int × List Cell) (others : List (Int × List Cell)) : Bool :=
  t.keys.any fun k => others.any fun other => t.collide row other k

/-- No two rows agree on this key. -/
def distinct (t : FoundTable) (k : UniqueKey) : List (Int × List Cell) → Bool
  | [] => true
  | row :: rest => !(rest.any fun other => t.collide row other k) && t.distinct k rest

/-- What a new row with these values holds in a column. -/
def fill (values : List (String × Cell)) (c : Column) : Cell :=
  match values.lookup c.name with
  | some v => c.affinity.apply v
  | none => c.default

/-- The number of a new row, which one of its columns may give. -/
def newNumber (t : FoundTable) (values : List (String × Cell)) (rows : List (Int × List Cell)) :
    Option Int :=
  match t.definition.columns.find? (·.rowNumber) with
  | some c =>
    match values.lookup c.name with
    | some v => (Affinity.toNumber v).toInteger?
    | none => some ((rows.map (·.1)).foldl max 0 + 1)
  | none => some ((rows.map (·.1)).foldl max 0 + 1)

/-- Stores a record. A constraint of the table that stands against it looks to
the caller like an active record. -/
def create (t : FoundTable) (r : KeyRecord) : Except StoreError FoundTable :=
  match t.select TableRow.columnNames with
  | .error e => .error e
  | .ok rows =>
    if !t.writable then .error .database
    else
      let values := (TableRow.ofRecord r).cells
      match t.newNumber values rows with
      | none => .error .database
      | some number =>
        let row := (number, t.definition.columns.map (fill values))
        if (t.definition.columns.any fun c => c.required && fill values c == .null)
            || (rows.any fun other => other.1 == number && t.definition.ordered == [])
            || t.clashes row rows then
          .error .activeRecordExists
        else .ok { t with rows := some (rows ++ [row]) }

/-- The row with its active column set to zero. -/
def retire (t : FoundTable) (row : Int × List Cell) : Int × List Cell :=
  (row.1, (t.definition.columns.zip row.2).map fun (c, v) =>
    if c.name = "active" then c.affinity.apply (.integer 0) else v)

/-- Stores a record in place of the active one, which must have this id. -/
def replace (t : FoundTable) (previous : String) (r : KeyRecord) : Except StoreError FoundTable :=
  match t.select ["id", "active"] with
  | .error e => .error e
  | .ok rows =>
    let named := fun row => t.isActive row && t.cell row "id" == .ofText previous
    if !t.writable then .error .database
    else if (rows.filter named).length ≠ 1 then .error (.activeRecordChanged previous)
    else
      let retired := rows.map fun row => if named row then t.retire row else row
      if t.keys.all fun k => t.distinct k retired then create { t with rows := some retired } r
      else .error .database

end FoundTable

end AttestedVault
