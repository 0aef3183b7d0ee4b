import AttestedVault.Digest.Hmac
import AttestedVault.Sealing

/-!
# Keys

The master key is derived from the launch measurement and wraps the data
encryption key, which seals every credential.
-/

namespace AttestedVault

structure MasterKey where
  bytes : Octets 32
  deriving DecidableEq

/-- A data encryption key. -/
structure Dek where
  bytes : Octets 32
  deriving DecidableEq

namespace MasterKey

def ofBytes (b : Bytes) : Except CryptoError MasterKey :=
  match Octets.ofBytes? 32 b with
  | some k => .ok ⟨k⟩
  | none => .error (.keyLength b.length)

/-- The first eight bytes of the key's SHA-256 digest. -/
def id (k : MasterKey) : MasterKeyId := ⟨Octets.ofBytes 8 (sha256 k.bytes.val).val⟩

/-- Diagnostics never show key bytes. -/
def debug (_ : MasterKey) : String := "MasterKey(\"<redacted>\")"

def derivationInfo : Bytes := Bytes.ofText "track-record-enclave/master-key/v1"

/-- The key of the code with this launch measurement. The platform version is
the salt, an absent one counting as empty. -/
def derive (measurement : Bytes) (platformVersion : Option String) :
    Except CryptoError MasterKey :=
  if measurement = [] then .error .emptyMeasurement
  else .ok ⟨hkdf measurement (Bytes.ofText (platformVersion.getD "")) derivationInfo⟩

end MasterKey

namespace Dek

def ofBytes (b : Bytes) : Except CryptoError Dek :=
  match Octets.ofBytes? 32 b with
  | some k => .ok ⟨k⟩
  | none => .error (.dekLength b.length)

def debug (_ : Dek) : String := "Dek(\"<redacted>\")"

end Dek

end AttestedVault
