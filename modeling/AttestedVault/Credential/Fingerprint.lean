import AttestedVault.Digest.Sha2
import AttestedVault.Hex

/-!
# Credential fingerprints

A digest by which two credential sets are recognised as duplicates. It has no
key and protects nothing.
-/

namespace AttestedVault.Fingerprint

/-- The text that is hashed. An absent passphrase counts as empty. -/
def joined (apiKey apiSecret : String) (passphrase : Option String) : String :=
  apiKey ++ ":" ++ apiSecret ++ ":" ++ passphrase.getD ""

/-- SHA-256 of a text in lower case hexadecimal. -/
def ofText (text : String) : String := Hex.encode (sha256 (Bytes.ofText text)).val

def ofCredentials (apiKey apiSecret : String) (passphrase : Option String) : String :=
  ofText (joined apiKey apiSecret passphrase)

end AttestedVault.Fingerprint
