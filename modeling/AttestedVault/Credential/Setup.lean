import AttestedVault.Credential.Config
import AttestedVault.Credential.Service
import AttestedVault.Host.Node
import AttestedVault.Store.Open

/-!
# Setting up the service

The key source and the attestation that settings ask for. A development key
has to be allowed explicitly and needs neither attestation nor a database.
-/

namespace AttestedVault

/-- A service, and what its manager asks for reports and keeps records in, if it
has one. -/
structure Service where
  source : KeySource
  backing : Option (Provider × Store)

namespace Service

def ofConfig (c : VaultConfig) (tool : GuestTool) (disk : Disk) :
    Except CredentialError Service :=
  if c.allowInsecureDevKey then
    match c.insecureDevPassphrase with
    | none => .error (.config .notConfigured)
    | some passphrase => (KeySource.ofPassphrase passphrase).map fun s => ⟨s, none⟩
  else
    match Provider.ofConfig c.attestation tool disk with
    | .error e => .error (.key (.attestation e))
    | .ok p =>
      match Store.open? disk c.databasePath with
      | some store => .ok ⟨.attested, some (p, store)⟩
      | none => .error (.key (.store .database))

end Service

end AttestedVault
