import AttestedVault.Key.Record
import AttestedVault.Store.Error

/-!
# The store in memory

Records in the order in which they were stored. A call that fails has no new
state to give.
-/

namespace AttestedVault

structure MemoryStore where
  records : List KeyRecord

namespace MemoryStore

def empty : MemoryStore := ⟨[]⟩

def active? (s : MemoryStore) : Option KeyRecord := s.records.find? (·.active)

/-- Appends a record, whatever its flag says as the active one. -/
def insert (s : MemoryStore) (r : KeyRecord) : MemoryStore :=
  ⟨s.records ++ [{ r with active := true }]⟩

/-- Stores a record, unless one is active. -/
def create (s : MemoryStore) (r : KeyRecord) : Except StoreError MemoryStore :=
  if s.records.any (·.active) then .error .activeRecordExists else .ok (s.insert r)

/-- Clears the flag of the first record that is active and has this id. -/
def retire? (id : String) : List KeyRecord → Option (List KeyRecord)
  | [] => none
  | r :: rest =>
    if r.active ∧ r.id = id then some ({ r with active := false } :: rest)
    else (retire? id rest).map (r :: ·)

/-- Stores a record in place of the active one, which must have this id. -/
def replace (s : MemoryStore) (previous : String) (r : KeyRecord) :
    Except StoreError MemoryStore :=
  match retire? previous s.records with
  | none => .error (.activeRecordChanged previous)
  | some records => .ok ((MemoryStore.mk records).insert r)

end MemoryStore

end AttestedVault
