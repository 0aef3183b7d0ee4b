import AttestedVault.Manager.Error

/-!
# Credential errors

Why a credential could not be encrypted or decrypted, or the service not set up.
-/

namespace AttestedVault

/-- Why a text is no encrypted credential. -/
inductive CiphertextError
  | digits (cause : Hex.Error)
  | tooShort
  | notText
  deriving DecidableEq, Repr

def CiphertextError.message : CiphertextError → String
  | .digits cause => "invalid hex: " ++ cause.message
  | .tooShort => "shorter than IV and tag"
  | .notText => "plaintext is not UTF-8"

/-- What settings for a development key lack. -/
inductive DevelopmentKeyError
  | notConfigured
  | empty
  deriving DecidableEq, Repr

def DevelopmentKeyError.message : DevelopmentKeyError → String
  | .notConfigured => "allow_insecure_dev_key is set but no passphrase is configured"
  | .empty => "insecure development key requires a passphrase"

/-- What only an attested key can do. -/
inductive AttestedOperation
  | rotation
  | migration
  | masterKeyId
  deriving DecidableEq, Repr

def AttestedOperation.name : AttestedOperation → String
  | .rotation => "rotation"
  | .migration => "migration"
  | .masterKeyId => "master key id"

inductive CredentialError
  | key (cause : KeyError)
  | decryption
  | malformed (cause : CiphertextError)
  | crypto (cause : CryptoError)
  | config (cause : DevelopmentKeyError)
  | unsupported (operation : AttestedOperation)
  deriving DecidableEq

namespace CredentialError

/-- A failed authentication and a text that is too short are errors of their own. -/
def ofCrypto : CryptoError → CredentialError
  | .decryption => .decryption
  | .tooShort => .malformed .tooShort
  | e => .crypto e

def message : CredentialError → String
  | .key e => e.message
  | .decryption => "Credential decryption failed: authentication tag mismatch"
  | .malformed e => "Malformed encrypted credential: " ++ e.message
  | .crypto e => e.message
  | .config e => "Configuration error: " ++ e.message
  | .unsupported o => o.name ++ " is not available in insecure development mode"

end CredentialError

end AttestedVault
