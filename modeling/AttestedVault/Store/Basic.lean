import AttestedVault.Store.Found
import AttestedVault.Store.Memory
import AttestedVault.Store.Table

/-!
# Key stores

The stores behind one set of calls. A failing call leaves the store as it was.
-/

namespace AttestedVault

inductive Store
  | memory (s : MemoryStore)
  | table (s : TableStore)
  | found (s : FoundTable)

namespace Store

def active? : Store → Except StoreError (Option KeyRecord)
  | memory s => .ok s.active?
  | table s => s.active?
  | found s => s.active?

def hasActive (s : Store) : Except StoreError Bool := s.active?.map (·.isSome)

def list : Store → Except StoreError (List KeyRecord)
  | memory s => .ok s.records
  | table s => s.list
  | found s => s.list

def create (r : KeyRecord) : Store → Except StoreError Store
  | memory s => (s.create r).map .memory
  | table s => (s.create r).map .table
  | found s => (s.create r).map .found

def replace (previous : String) (r : KeyRecord) : Store → Except StoreError Store
  | memory s => (s.replace previous r).map .memory
  | table s => (s.replace previous r).map .table
  | found s => (s.replace previous r).map .found

/-- The outcome of a call, and the store after it. -/
def settle (call : Store → Except StoreError Store) (s : Store) : Except StoreError Unit × Store :=
  match call s with
  | .ok t => (.ok (), t)
  | .error e => (.error e, s)

end Store

end AttestedVault
