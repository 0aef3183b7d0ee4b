import AttestedVault.Attestation.Config

/-!
# Vault settings

Where key records are stored, and whether a development key stands in for
attestation.
-/

namespace AttestedVault

structure VaultConfig where
  attestation : AttestationConfig
  databasePath : String
  allowInsecureDevKey : Bool
  insecureDevPassphrase : Option String
  deriving DecidableEq, Repr

namespace VaultConfig

def defaultDatabasePath : String := "/var/lib/enclave/keys.db"

/-- What a switch has to say to be on, in any case of letters. -/
def isOn (value : String) : Bool :=
  let v := (Text.trimChars value.toList).map Char.toLower
  v == ['1'] || v == ['t', 'r', 'u', 'e'] || v == ['y', 'e', 's']

def ofVariables (vars : Variables) : VaultConfig where
  attestation := AttestationConfig.ofVariables vars
  databasePath := (vars.filled? "ENCLAVE_DATABASE_PATH").getD defaultDatabasePath
  allowInsecureDevKey := (vars.filled? "ENCLAVE_ALLOW_INSECURE_DEV_KEY").any isOn
  insecureDevPassphrase := vars.filled? "ENCLAVE_INSECURE_DEV_PASSPHRASE"

def fieldNames : List String :=
  ["attestation", "database_path", "allow_insecure_dev_key", "insecure_dev_passphrase"]

def ofJson? (j : Json) : Option VaultConfig := do
  match ← j.record? fieldNames with
  | [attestation, path, allow, passphrase] =>
    some {
      attestation := ← Json.orElse AttestationConfig.ofJson? AttestationConfig.default attestation
      databasePath := ← Json.orElse Json.text? defaultDatabasePath path
      allowInsecureDevKey := ← Json.orElse Json.bool? false allow
      insecureDevPassphrase := ← Json.orElse Json.optionalText? none passphrase }
  | _ => none

def ofJsonText? (text : String) : Option VaultConfig := (Json.parse? text).bind ofJson?

/-- Diagnostics never show the passphrase. -/
def debug (c : VaultConfig) : String :=
  AttestationConfig.debugRecord "VaultConfig" [
    ("attestation", c.attestation.debug),
    ("database_path", Text.quote c.databasePath),
    ("allow_insecure_dev_key", if c.allowInsecureDevKey then "true" else "false"),
    ("insecure_dev_passphrase",
      AttestationConfig.debugOption Text.quote (c.insecureDevPassphrase.map fun _ => "[REDACTED]"))]

end VaultConfig

end AttestedVault
