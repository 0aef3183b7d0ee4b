import AttestedVault.Digest.Sha2

/-!
# HMAC and HKDF

Keyed digests after RFC 2104, and the key derivation of RFC 5869 for outputs
of one digest length.
-/

namespace AttestedVault

/-- A digest with the block size that HMAC pads its key to. -/
structure Digest (n : Nat) where
  blockSize : Nat
  run : Bytes → Octets n

def Digest.sha256 : Digest 32 := ⟨64, AttestedVault.sha256⟩

def Digest.sha384 : Digest 48 := ⟨128, AttestedVault.sha384⟩

/-- A key longer than a block is replaced by its digest. -/
def hmac {n : Nat} (d : Digest n) (key message : Bytes) : Octets n :=
  let short := if d.blockSize < key.length then (d.run key).val else key
  let block := (Octets.ofBytes d.blockSize short).val
  d.run (block.map (· ^^^ 0x5c) ++ (d.run (block.map (· ^^^ 0x36) ++ message)).val)

/-- HKDF-SHA256 with 32 bytes of output, so one expansion step. An empty salt
counts as 32 zero bytes, which HMAC's key padding makes of it. -/
def hkdf (ikm salt info : Bytes) : Octets 32 :=
  let prk := hmac .sha256 salt ikm
  hmac .sha256 prk.val (info ++ [1])

end AttestedVault
