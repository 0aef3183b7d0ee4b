import AttestedVault.Database.Location
import AttestedVault.Store.Basic

/-!
# Opening a store

The table of records is made where a database does not have it yet, and so is
the index that admits one active record. Opening fails where that fails.
-/

namespace AttestedVault

namespace FoundTable

open Database

/-- The statement that makes the table. -/
def ownDefinition : String :=
  "CREATE TABLE key_records (id TEXT PRIMARY KEY, encrypted_dek TEXT NOT NULL, iv TEXT NOT NULL,
    auth_tag TEXT NOT NULL, key_version TEXT NOT NULL, master_key_id TEXT NOT NULL,
    active INTEGER NOT NULL DEFAULT 0, created_at TEXT NOT NULL)"

def tableName : String := "key_records"

def indexName : String := "idx_key_records_single_active"

/-- The key of the index. -/
def singleActive : UniqueKey := ⟨["active"], true⟩

/-- The columns in the order in which rows are stored. -/
def storedColumns (d : TableDefinition) : List Column :=
  let leading := d.ordered.filterMap fun name => d.columns.find? fun c => c.name = name
  leading ++ d.columns.filter fun c => c.name ∉ d.ordered

/-- The values of a stored row in the order of the columns. -/
def arrange (d : TableDefinition) (values : List Cell) : List Cell :=
  let stored := (storedColumns d).map (·.name)
  d.columns.map fun c =>
    match (stored.zip values).lookup c.name with
    | some v => c.affinity.yield v
    | none => c.default

/-- The table that a file holds. Its constraints are those of its definition and
of the unique indexes on it. -/
def ofObject? (i : Image) (objects : List Object) (o : Object) : Option FoundTable := do
  let d ← TableDefinition.ofText? o.sql
  let indexes := objects.filter fun x => x.kind = "index" ∧ Token.lower x.table = tableName
  let rows := i.rows? (if d.ordered = [] then .numbered else .ordered) o.root
  some {
    definition := d
    keys := d.keys ++ indexes.filterMap fun x => UniqueKey.ofText? x.sql
    rows := rows.map fun rs => rs.map fun r => (r.1, arrange d r.2)
    writable := !i.readOnly }

/-- The table as it is made in a file that lacks it. -/
def made? : Option FoundTable :=
  (TableDefinition.ofText? ownDefinition).map fun d => ⟨d, d.keys, some [], true⟩

/-- Adds the index, if the rows are there and admit it. -/
def addIndex? (t : FoundTable) : Option FoundTable :=
  match t.writable, t.column? "active", t.rows with
  | true, some _, some rows =>
    if t.distinct singleActive rows then some { t with keys := t.keys ++ [singleActive] } else none
  | _, _, _ => none

/-- The table of a file, which is completed where that is allowed. -/
def ofImage? (i : Image) (access : Access) : Option FoundTable := do
  let objects ← i.objects?
  let named := fun (name : String) (o : Object) => Token.lower o.name = name
  let isIndex := fun (o : Object) => decide (o.kind = "index")
  let table? := objects.find? fun o => named tableName o && !isIndex o && o.kind ≠ "trigger"
  if objects.any fun o => named tableName o && isIndex o then none
  else if objects.any fun o => named indexName o && !isIndex o && o.kind ≠ "trigger" then none
  else
    let table ← match table? with
      | some o => if o.kind = "table" ∧ o.root ≠ 0 then ofObject? i objects o else none
      | none => if i.readOnly ∨ access = .readOnly ∨ !i.canGrow then none else made?
    let table := { table with writable := table.writable && access ≠ .readOnly }
    if objects.any fun o => named indexName o && isIndex o then some table
    else if i.canGrow then table.addIndex?
    else none

end FoundTable

namespace Store

open Database

/-- The store in the database of this name. -/
def open? (disk : Disk) (name : String) : Option Store :=
  match Location.ofName? name with
  | none => none
  | some (.memory access) => if access = .readOnly then none else some (.table .empty)
  | some (.file path access) =>
    match disk.database? path access with
    | none => none
    | some [] => if access = .readOnly then none else some (.table .empty)
    | some b => ((Image.ofBytes? b).bind (FoundTable.ofImage? · access)).map .found

end Store

end AttestedVault
