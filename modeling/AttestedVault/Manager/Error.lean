import AttestedVault.Attestation.Report
import AttestedVault.Key.Record
import AttestedVault.Store.Error

/-!
# Key errors

Why a key could not be obtained, replaced or bound to other code.
-/

namespace AttestedVault

inductive KeyError
  | attestation (cause : AttestationError)
  | unverifiedReport
  | migrationRequired (stored current : MasterKeyId)
  | migrationNotRequired
  | noActiveRecord
  | unwrapAuthentication
  | invalidRecord (cause : RecordError)
  | store (cause : StoreError)
  | crypto (cause : CryptoError)
  deriving DecidableEq

namespace KeyError

/-- A failed unwrap is an error of its own. -/
def ofCrypto : CryptoError → KeyError
  | .unwrapAuthentication => .unwrapAuthentication
  | e => .crypto e

def message : KeyError → String
  | .attestation e => e.message
  | .unverifiedReport => "Attestation report has not been verified"
  | .migrationRequired stored current =>
    "Master key changed: active DEK is bound to " ++ stored.toHex ++ ", running code derives "
      ++ current.toHex ++ "; run migrate_dek_to_new_master_key with the previous master key"
  | .migrationNotRequired => "Active DEK is already bound to the current master key"
  | .noActiveRecord => "No active key record"
  | .unwrapAuthentication => "DEK unwrap failed: authentication tag mismatch"
  | .invalidRecord e => "Invalid key record: " ++ e.message
  | .store e => e.message
  | .crypto e => e.message

end KeyError

/-- The master key of the code that a report attests to. The measurement in a
report that is not verified is only a claim and never becomes a key. -/
def AttestationReport.masterKey (r : AttestationReport) : Except KeyError MasterKey :=
  if r.verified then
    match MasterKey.derive r.measurementBytes r.platformVersion with
    | .ok k => .ok k
    | .error e => .error (.ofCrypto e)
  else .error .unverifiedReport

end AttestedVault
