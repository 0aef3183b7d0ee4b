import AttestedVault.Manager.Fresh
import AttestedVault.Manager.Outcome

/-!
# The life of the data encryption key

The first use creates the key, and later ones unwrap and cache it. Rotation
puts a new key in its place, migration wraps the same key for other code.
Whatever fails, the store keeps its records and the cache its key.
-/

namespace AttestedVault

namespace KeyRecord

/-- The record's key under a master key, in the record's own context. -/
def unwrap (r : KeyRecord) (key : MasterKey) : Except KeyError Dek := do
  let w ← r.wrapped.mapError .invalidRecord
  let c ← r.context.mapError .invalidRecord
  (w.unwrap key (some c)).mapError .ofCrypto

/-- The record's key. A record that names another master key is not unwrapped. -/
def openWith (r : KeyRecord) (key : MasterKey) : Except KeyError Dek := do
  let stored ← r.keyId.mapError .invalidRecord
  if stored ≠ key.id then throw (.migrationRequired stored key.id)
  r.unwrap key

end KeyRecord

namespace KeyManager

def currentMasterKey : Action KeyError MasterKey := do
  let report ← Action.ofExcept .attestation (← Action.ask .attest)
  Action.ofExcept id report.masterKey

def currentMasterKeyId : Action KeyError MasterKeyId := do
  pure (← currentMasterKey).id

/-- Creates the first key. If another manager was faster, its key counts. -/
def bootstrap (key : MasterKey) : Action KeyError Dek := do
  let dek ← Action.mapError .ofCrypto generateDek
  let record ← Action.mapError .ofCrypto (sealRecord dek key KeyVersion.first)
  match ← Action.ask (.create record) with
  | .ok () => pure dek
  | .error .activeRecordExists =>
    match ← Action.readActive with
    | none => throw .noActiveRecord
    | some r => Action.ofExcept id (r.openWith key)
  | .error e => throw (.store e)

/-- The key as the store has it, or a first one. -/
def loadDek : Action KeyError Dek := do
  let key ← currentMasterKey
  match ← Action.readActive with
  | some r => Action.ofExcept id (r.openWith key)
  | none => bootstrap key

/-- The active key. The cache is looked at again once the lock is held, since
it may have been filled meanwhile. -/
def currentDek : Action KeyError Dek := do
  match ← Action.ask .cached with
  | some dek => pure dek
  | none =>
    Action.holding .lifecycle .exclusive do
      match ← Action.ask .cached with
      | some dek => pure dek
      | none =>
        let dek ← loadDek
        Action.ask (.remember dek)
        pure dek

/-- Runs `use` with the active key, which is not retired meanwhile. -/
def withLease {ε α : Type} (lift : KeyError → ε) (use : Dek → Action ε α) : Action ε α :=
  Action.holding .gate .shared do
    use (← Action.mapError lift currentDek)

/-- The active key, with the gate held from now on, unless it fails. -/
def lease : Action KeyError Dek := ExceptT.mk do
  Prog.ask (.acquire .gate .shared)
  match ← currentDek.run with
  | .ok dek => pure (.ok dek)
  | .error e =>
    Prog.ask (.release .gate)
    pure (.error e)

/-- The active record, which must exist. -/
def activeRecord : Action KeyError KeyRecord := do
  match ← Action.readActive with
  | some r => pure r
  | none => throw .noActiveRecord

/-- Replaces the key by a new one. `reencrypt` sees the old and the new key
before the new record is stored. -/
def rotateWith {ε α : Type} (lift : KeyError → ε) (reencrypt : Dek → Dek → Action ε α) :
    Action ε (RotationOutcome × α) :=
  Action.holding .gate .exclusive <| Action.holding .lifecycle .exclusive do
    let key ← Action.mapError lift currentMasterKey
    let current ← Action.mapError lift activeRecord
    let old ← Action.ofExcept lift (current.openWith key)
    let version := KeyVersion.next current.version
    let dek ← Action.mapError (lift ∘ .ofCrypto) generateDek
    let record ← Action.mapError (lift ∘ .ofCrypto) (sealRecord dek key version)
    let result ← reencrypt old dek
    Action.mapError lift (Action.replace current.id record)
    Action.ask (.remember dek)
    pure (⟨current.version, version, key.id⟩, result)

/-- Replaces the key. What was encrypted before becomes unreadable. -/
def rotate : Action KeyError RotationOutcome := do
  let (outcome, ()) ← rotateWith id fun _ _ => pure ()
  pure outcome

/-- Wraps the same key for the running code. `oldKey` must be the master key
that it is wrapped with. -/
def migrate (oldKey : MasterKey) : Action KeyError MigrationOutcome :=
  Action.holding .lifecycle .exclusive do
    let key ← currentMasterKey
    let current ← activeRecord
    let stored ← Action.ofExcept .invalidRecord current.keyId
    if stored = key.id then throw .migrationNotRequired
    let dek ← Action.ofExcept id (current.unwrap oldKey)
    let record ← Action.mapError .ofCrypto (sealRecord dek key current.version)
    Action.replace current.id record
    Action.ask .forget
    pure ⟨stored, key.id, current.version⟩

/-- A verified report can be had right now. -/
def hardwareKeyAvailable : Prog Bool := do
  match ← Prog.ask .attest with
  | .ok report => pure report.verified
  | .error _ => pure false

/-- Compares the store with the running code without unwrapping anything. -/
def state : Action KeyError KeyState := do
  match ← Action.readActive with
  | none => pure .uninitialized
  | some r =>
    let stored ← Action.ofExcept .invalidRecord r.keyId
    let current ← currentMasterKeyId
    if stored = current then pure (.active current r.version)
    else pure (.migrationRequired stored current)

/-- The next use looks at the store again. -/
def clearCache : Prog Unit := Prog.ask .forget

end KeyManager

end AttestedVault
