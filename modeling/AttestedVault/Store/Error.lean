/-!
# Store errors

Why a call on the store of key records failed.
-/

namespace AttestedVault

inductive StoreError
  | activeRecordExists
  | activeRecordChanged (expected : String)
  | notFound (id : String)
  /-- A row whose creation time cannot be read. -/
  | corrupt (detail : String)
  | database
  | task (reason : String)
  deriving DecidableEq, Repr

def StoreError.message : StoreError → String
  | .activeRecordExists => "An active key record already exists"
  | .activeRecordChanged expected => "Active key record changed: expected " ++ expected
  | .notFound id => "Key record " ++ id ++ " not found"
  | .corrupt detail => "Corrupt key record: " ++ detail
  | .database => "SQLite error"
  | .task reason => "Store task failed: " ++ reason

end AttestedVault
