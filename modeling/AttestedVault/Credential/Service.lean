import AttestedVault.Credential.Error
import AttestedVault.Manager.Lifecycle
import AttestedVault.Text.Blank

/-!
# Encrypted credentials

A credential is written as the hexadecimal digits of initial value, tag and
ciphertext. It names no key: it can be read under the key that sealed it only.
-/

namespace AttestedVault

namespace Credential

/-- Encrypts a text under a drawn initial value. -/
def encrypt (key : Dek) (text : String) : Action CredentialError String := do
  let sealed ← Action.mapError .ofCrypto (sealCredential key.bytes.val (Bytes.ofText text))
  pure (Hex.encode sealed.toBytes)

/-- Reads a credential. Blanks around it do not count. -/
def decrypt (key : Dek) (encoded : String) : Except CredentialError String :=
  match Hex.decode (Bytes.ofText (Text.trim encoded)) with
  | .error e => .error (.malformed (.digits e))
  | .ok blob =>
    match openCredential key.bytes.val blob with
    | .error e => .error (.ofCrypto e)
    | .ok plaintext =>
      match Bytes.toText? plaintext with
      | none => .error (.malformed .notText)
      | some text => .ok text

/-- Reads each credential under the old key and encrypts it under the new one. -/
def reencrypt (old new : Dek) : List String → Action CredentialError (List String)
  | [] => pure []
  | c :: rest => do
    let text ← Action.ofExcept id (decrypt old c)
    let d ← encrypt new text
    pure (d :: (← reencrypt old new rest))

end Credential

/-- Where the key for credentials comes from. -/
inductive KeySource
  | attested
  /-- A key that is bound to no hardware. -/
  | development (dek : Dek)

namespace KeySource

def developmentSalt : Bytes := Bytes.ofText "insecure-dev-fallback"

def developmentInfo : Bytes := Bytes.ofText "track-record-enclave/dev-dek/v1"

/-- Whoever knows the passphrase has the key. -/
def ofPassphrase (passphrase : String) : Except CredentialError KeySource :=
  if passphrase = "" then .error (.config .empty)
  else .ok (.development ⟨hkdf (Bytes.ofText passphrase) developmentSalt developmentInfo⟩)

def mode : KeySource → String
  | attested => "attested"
  | development _ => "insecure_development"

/-- The key for reading. -/
def dek : KeySource → Action CredentialError Dek
  | attested => Action.mapError .key KeyManager.currentDek
  | development k => pure k

/-- Runs `use` with the key for new credentials. -/
def withEncryptionKey {α : Type} (s : KeySource) (use : Dek → Action CredentialError α) :
    Action CredentialError α :=
  match s with
  | attested => KeyManager.withLease .key use
  | development k => use k

def encrypt (s : KeySource) (text : String) : Action CredentialError String :=
  s.withEncryptionKey fun k => Credential.encrypt k text

def decrypt (s : KeySource) (encoded : String) : Action CredentialError String := do
  let k ← s.dek
  Action.ofExcept id (Credential.decrypt k encoded)

/-- Only an attested key has a manager. -/
def managed {α : Type} (s : KeySource) (operation : AttestedOperation)
    (a : Action CredentialError α) : Action CredentialError α :=
  match s with
  | attested => a
  | development _ => throw (.unsupported operation)

/-- Replaces the key and encrypts these credentials under the new one. -/
def rotateAndReencrypt (s : KeySource) (credentials : List String) :
    Action CredentialError (List String) :=
  s.managed .rotation do
    let (_, reencrypted) ← KeyManager.rotateWith .key fun old new =>
      Credential.reencrypt old new credentials
    pure reencrypted

def rotate (s : KeySource) : Action CredentialError RotationOutcome :=
  s.managed .rotation (Action.mapError .key KeyManager.rotate)

def migrate (s : KeySource) (oldKey : MasterKey) : Action CredentialError MigrationOutcome :=
  s.managed .migration (Action.mapError .key (KeyManager.migrate oldKey))

def currentMasterKeyId (s : KeySource) : Action CredentialError MasterKeyId :=
  s.managed .masterKeyId (Action.mapError .key KeyManager.currentMasterKeyId)

def hardwareKeyAvailable : KeySource → Prog Bool
  | attested => KeyManager.hardwareKeyAvailable
  | development _ => pure false

end KeySource

end AttestedVault
