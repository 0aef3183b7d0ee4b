import AttestedVault.Key.Basic

/-!
# Wrapped data encryption keys

A data encryption key sealed under a master key, bound to the id and version
of the record that holds it.
-/

namespace AttestedVault

structure WrappedDek where
  ciphertext : Bytes
  iv : Octets 12
  tag : Octets 16
  deriving DecidableEq

/-- What a wrapped key is bound to. -/
structure WrapContext where
  masterKeyId : MasterKeyId
  version : String
  deriving DecidableEq

namespace WrapContext

/-- The id, the version's length in four bytes, the version. -/
def aad (c : WrapContext) : Bytes :=
  let version := Bytes.ofText c.version
  c.masterKeyId.bytes.val ++ Bytes.ofNat 4 version.length ++ version

/-- Without a context nothing is bound. -/
def aad? (c : Option WrapContext) : Bytes := (c.map aad).getD []

end WrapContext

namespace WrappedDek

def toSealed (w : WrappedDek) : Sealed := ⟨w.iv.val, w.tag, w.ciphertext⟩

/-- The wrapped form that a seal of a data encryption key gives. -/
def ofSealed (iv : Octets 12) (s : Sealed) : WrappedDek := ⟨s.ciphertext, iv, s.tag⟩

/-- Seals `dek` under a given initial value. -/
def wrap (dek : Dek) (key : MasterKey) (iv : Octets 12) (c : Option WrapContext) : WrappedDek :=
  ofSealed iv (Sealed.make key.bytes iv.val dek.bytes.val (WrapContext.aad? c))

/-- A wrong key, a wrong context and a changed record all look the same. -/
def unwrap (w : WrappedDek) (key : MasterKey) (c : Option WrapContext) :
    Except CryptoError Dek :=
  if w.ciphertext.length = 32 then
    match w.toSealed.plaintext? key.bytes (WrapContext.aad? c) with
    | some p => Dek.ofBytes p
    | none => .error .unwrapAuthentication
  else .error (.dekLength w.ciphertext.length)

end WrappedDek

end AttestedVault
