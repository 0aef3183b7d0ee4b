import AttestedVault.Cipher.Gcm
import AttestedVault.CryptoError

/-!
# Sealed texts

Authenticated encryption with the tag kept apart: initial values of twelve
bytes for wrapped keys, of sixteen for credentials.
-/

namespace AttestedVault

structure Sealed where
  iv : Bytes
  tag : Octets 16
  ciphertext : Bytes
  deriving DecidableEq

namespace Sealed

/-- Seals under a key and an initial value of the right lengths. -/
def make (key : Octets 32) (iv plaintext aad : Bytes) : Sealed :=
  let (ciphertext, tag) := Gcm.encrypt key iv plaintext aad
  ⟨iv, tag, ciphertext⟩

/-- The plaintext, if the tag is the one that sealing it produces. -/
def plaintext? (s : Sealed) (key : Octets 32) (aad : Bytes) : Option Bytes :=
  Gcm.decrypt key s.iv s.ciphertext s.tag aad

/-- The layout of credentials: initial value, tag, ciphertext. -/
def toBytes (s : Sealed) : Bytes := s.iv ++ s.tag.val ++ s.ciphertext

end Sealed

/-- Seals under a key of 32 and an initial value of `ivLength` bytes. -/
def sealText (ivLength : Nat) (key iv plaintext aad : Bytes) : Except CryptoError Sealed :=
  match Octets.ofBytes? 32 key with
  | none => .error (.keyLength key.length)
  | some k =>
    if iv.length = ivLength then .ok (Sealed.make k iv plaintext aad)
    else .error (.ivLength ivLength iv.length)

/-- Opens what `sealText` sealed. Lengths are checked in the order key, initial
value, tag. -/
def openText (ivLength : Nat) (key iv tag ciphertext aad : Bytes) : Except CryptoError Bytes :=
  match Octets.ofBytes? 32 key with
  | none => .error (.keyLength key.length)
  | some k =>
    if iv.length = ivLength then
      match Octets.ofBytes? 16 tag with
      | none => .error (.tagLength tag.length)
      | some t =>
        match (Sealed.mk iv t ciphertext).plaintext? k aad with
        | some p => .ok p
        | none => .error .decryption
    else .error (.ivLength ivLength iv.length)

/-- Opens the layout initial value, tag, ciphertext. -/
def openCredential (key blob : Bytes) : Except CryptoError Bytes :=
  if blob.length < 32 then .error .tooShort
  else openText 16 key (blob.take 16) ((blob.drop 16).take 16) (blob.drop 32) []

end AttestedVault
