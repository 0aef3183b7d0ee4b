import AttestedVault.Disk
import AttestedVault.Json.Text
import AttestedVault.Text.Blank
import AttestedVault.Text.Decimal
import AttestedVault.Text.Quoted

/-!
# Attestation settings

Where reports come from and how they are verified, read from variables or
from JSON. Absent and blank settings have defaults.
-/

namespace AttestedVault

/-- A variable lookup. -/
abbrev Variables := String → Option String

/-- The variable's value, unless it is blank. -/
def Variables.filled? (vars : Variables) (name : String) : Option String :=
  (vars name).filter fun v => !Text.allBlank v

structure AttestationConfig where
  reportPath : Option String
  snpguestPath : String
  metadataUrl : Option String
  kdsBaseUrl : String
  product : String
  vcekCacheDir : String
  arkPath : Option String
  httpTimeout : Nat
  commandTimeout : Nat
  deriving DecidableEq, Repr

namespace AttestationConfig

def default : AttestationConfig where
  reportPath := none
  snpguestPath := "snpguest"
  metadataUrl := none
  kdsBaseUrl := "https://kdsintf.amd.com"
  product := "Milan"
  vcekCacheDir := "/var/cache/enclave/vcek"
  arkPath := none
  httpTimeout := 10
  commandTimeout := 15

/-- A count of seconds that cannot be read keeps the default. -/
def seconds (vars : Variables) (name : String) (default : Nat) : Nat :=
  ((vars.filled? name).bind fun v => Text.decimal64? v.toList).getD default

def ofVariables (vars : Variables) : AttestationConfig where
  reportPath := vars.filled? "SEV_SNP_REPORT_PATH"
  snpguestPath := (vars.filled? "ENCLAVE_ATTESTATION_SNPGUEST_PATH").getD default.snpguestPath
  metadataUrl := vars.filled? "ENCLAVE_ATTESTATION_METADATA_URL"
  kdsBaseUrl :=
    ((vars.filled? "ENCLAVE_ATTESTATION_KDS_URL").map Text.dropSlashes).getD default.kdsBaseUrl
  product := (vars.filled? "ENCLAVE_ATTESTATION_PRODUCT").getD default.product
  vcekCacheDir := (vars.filled? "ENCLAVE_ATTESTATION_VCEK_CACHE_DIR").getD default.vcekCacheDir
  arkPath := vars.filled? "ENCLAVE_ATTESTATION_ARK_PATH"
  httpTimeout := seconds vars "ENCLAVE_ATTESTATION_HTTP_TIMEOUT_SECS" default.httpTimeout
  commandTimeout := seconds vars "ENCLAVE_ATTESTATION_COMMAND_TIMEOUT_SECS" default.commandTimeout

def fieldNames : List String :=
  ["report_path", "snpguest_path", "metadata_url", "kds_base_url", "product", "vcek_cache_dir",
   "ark_path", "http_timeout_secs", "command_timeout_secs"]

def ofJson? (j : Json) : Option AttestationConfig := do
  match ← j.record? fieldNames with
  | [report, guest, metadata, kds, product, cache, ark, http, command] =>
    some {
      reportPath := ← Json.orElse Json.optionalText? none report
      snpguestPath := ← Json.orElse Json.text? default.snpguestPath guest
      metadataUrl := ← Json.orElse Json.optionalText? none metadata
      kdsBaseUrl := ← Json.orElse Json.text? default.kdsBaseUrl kds
      product := ← Json.orElse Json.text? default.product product
      vcekCacheDir := ← Json.orElse Json.text? default.vcekCacheDir cache
      arkPath := ← Json.orElse Json.optionalText? none ark
      httpTimeout := ← Json.orElse Json.nat64? default.httpTimeout http
      commandTimeout := ← Json.orElse Json.nat64? default.commandTimeout command }
  | _ => none

def ofJsonText? (text : String) : Option AttestationConfig := (Json.parse? text).bind ofJson?

/-- The root certificate's file, by default one for each product line. -/
def resolvedArkPath (c : AttestationConfig) : String :=
  c.arkPath.getD (joinPath "/etc/enclave/amd" ("ark-" ++ c.product ++ ".pem"))

/-! ## Diagnostics -/

/-- Names and values as diagnostics show a record. -/
def debugRecord (name : String) (fields : List (String × String)) : String :=
  name ++ " \x7b " ++ Text.join ", " (fields.map fun f => f.1 ++ ": " ++ f.2) ++ " \x7d"

def debugOption (quote : String → String) : Option String → String
  | none => "None"
  | some s => "Some(" ++ quote s ++ ")"

def debug (c : AttestationConfig) : String :=
  debugRecord "AttestationConfig" [
    ("report_path", debugOption Text.quote c.reportPath),
    ("snpguest_path", Text.quote c.snpguestPath),
    ("metadata_url", debugOption Text.quote c.metadataUrl),
    ("kds_base_url", Text.quote c.kdsBaseUrl),
    ("product", Text.quote c.product),
    ("vcek_cache_dir", Text.quote c.vcekCacheDir),
    ("ark_path", debugOption Text.quote c.arkPath),
    ("http_timeout_secs", toString c.httpTimeout),
    ("command_timeout_secs", toString c.commandTimeout)]

end AttestationConfig

end AttestedVault
