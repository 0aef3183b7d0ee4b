import AttestedVault.Database.Cell
import AttestedVault.Key.Record
import AttestedVault.Store.Error

/-!
# The store in a database table

One row for each record, in the order of insertion. The id is the primary key,
a unique index admits one active row, and a call that fails is rolled back.
Creation times are stored as text and read again on the way out.
-/

namespace AttestedVault

structure TableRow where
  id : String
  encryptedDek : String
  iv : String
  authTag : String
  version : String
  masterKeyId : String
  /-- The flag's number, if the column holds an integer. -/
  active : Option Int
  createdAt : String
  deriving DecidableEq, Repr

namespace TableRow

/-- The row of a record that is stored as the active one. -/
def ofRecord (r : KeyRecord) : TableRow :=
  ⟨r.id, r.encryptedDek, r.iv, r.authTag, r.version, r.masterKeyId, some 1,
    Rfc3339.toTextNumeric r.createdAt⟩

/-- What a row says, if its columns can be read. -/
def toRecord (r : TableRow) : Except StoreError KeyRecord :=
  match r.active, Rfc3339.ofTextStrict? r.createdAt with
  | none, _ => .error .database
  | some _, none => .error (.corrupt (r.id ++ ": created_at"))
  | some n, some time =>
    .ok ⟨r.id, r.encryptedDek, r.iv, r.authTag, r.version, r.masterKeyId, n ≠ 0, time⟩

def isActive (r : TableRow) : Bool := r.active = some 1

end TableRow

structure TableStore where
  rows : List TableRow

namespace TableStore

def empty : TableStore := ⟨[]⟩

def active? (s : TableStore) : Except StoreError (Option KeyRecord) :=
  match s.rows.find? (·.isActive) with
  | none => .ok none
  | some r => r.toRecord.map some

/-- Stores a record. A second active row and an id that is taken already look
the same to the caller. -/
def create (s : TableStore) (r : KeyRecord) : Except StoreError TableStore :=
  if s.rows.any fun q => q.isActive || q.id == r.id then .error .activeRecordExists
  else .ok ⟨s.rows ++ [TableRow.ofRecord r]⟩

/-- The row is the active one and has this id. -/
def named (id : String) (r : TableRow) : Bool := r.isActive && r.id == id

/-- Stores a record in place of the active one, which must have this id. -/
def replace (s : TableStore) (previous : String) (r : KeyRecord) : Except StoreError TableStore :=
  if s.rows.any (named previous) then
    create ⟨s.rows.map fun q => if named previous q then { q with active := some 0 } else q⟩ r
  else .error (.activeRecordChanged previous)

/-- All records, unless some row cannot be read. -/
def list (s : TableStore) : Except StoreError (List KeyRecord) := s.rows.mapM (·.toRecord)

/-! ## Writing past the store -/

/-- The number that a column of integers makes of a text, if it is a whole one. -/
def integer? (text : String) : Option Int := (Cell.numeral? text.toList).bind (·.toInteger?)

def setColumn? (column value : String) (r : TableRow) : Option TableRow :=
  match column with
  | "id" => some { r with id := value }
  | "encrypted_dek" => some { r with encryptedDek := value }
  | "iv" => some { r with iv := value }
  | "auth_tag" => some { r with authTag := value }
  | "key_version" => some { r with version := value }
  | "master_key_id" => some { r with masterKeyId := value }
  | "active" => some { r with active := integer? value }
  | "created_at" => some { r with createdAt := value }
  | _ => none

/-- The ids are distinct and at most one row is active. -/
def consistent (rows : List TableRow) : Bool :=
  (rows.map (·.id)).Nodup && (rows.filter (·.isActive)).length ≤ 1

/-- Sets a column of the row with this id by a statement of its own. Also gives
the number of rows changed. -/
def set (s : TableStore) (id column value : String) : Except StoreError (Nat × TableStore) :=
  match s.rows.mapM fun r => if r.id = id then setColumn? column value r else some r with
  | none => .error .database
  | some rows =>
    if consistent rows then .ok ((s.rows.filter (·.id = id)).length, ⟨rows⟩)
    else .error .database

end TableStore

end AttestedVault
