import AttestedVault.Json.Text
import AttestedVault.Key.Id

/-!
# Outcomes

What an operator learns about the key, and how it is written in JSON.
-/

namespace AttestedVault

/-- How the store and the running code relate. -/
inductive KeyState
  | uninitialized
  | active (masterKeyId : MasterKeyId) (version : String)
  | migrationRequired (stored current : MasterKeyId)
  deriving DecidableEq

structure RotationOutcome where
  previousVersion : String
  newVersion : String
  masterKeyId : MasterKeyId
  deriving DecidableEq

structure MigrationOutcome where
  previousMasterKeyId : MasterKeyId
  newMasterKeyId : MasterKeyId
  version : String
  deriving DecidableEq

/-- A master key's id as a JSON string. -/
def MasterKeyId.writeJson (id : MasterKeyId) : List Char := Json.writeText id.toHex

def KeyState.toJsonText : KeyState → String
  | .uninitialized => Json.writeObject [("state", Json.writeText "uninitialized")]
  | .active id version =>
    Json.writeObject [("state", Json.writeText "active"), ("master_key_id", id.writeJson),
      ("key_version", Json.writeText version)]
  | .migrationRequired stored current =>
    Json.writeObject [("state", Json.writeText "migration_required"),
      ("stored", stored.writeJson), ("current", current.writeJson)]

def RotationOutcome.toJsonText (o : RotationOutcome) : String :=
  Json.writeObject [("previous_version", Json.writeText o.previousVersion),
    ("new_version", Json.writeText o.newVersion), ("master_key_id", o.masterKeyId.writeJson)]

def MigrationOutcome.toJsonText (o : MigrationOutcome) : String :=
  Json.writeObject [("previous_master_key_id", o.previousMasterKeyId.writeJson),
    ("new_master_key_id", o.newMasterKeyId.writeJson), ("key_version", Json.writeText o.version)]

end AttestedVault
