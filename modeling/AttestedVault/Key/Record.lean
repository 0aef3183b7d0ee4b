import AttestedVault.Base64
import AttestedVault.Json.Text
import AttestedVault.Key.Wrapped
import AttestedVault.Time.Rfc3339

/-!
# Key records

A wrapped data encryption key as it is stored: binary fields in base64, the
master key's id in hexadecimal.
-/

namespace AttestedVault

structure KeyRecord where
  id : String
  encryptedDek : String
  iv : String
  authTag : String
  version : String
  masterKeyId : String
  active : Bool
  createdAt : Timestamp
  deriving DecidableEq

/-- What is wrong with a record. -/
inductive RecordError
  | masterKeyId (record : String) (cause : MasterKeyId.ParseError)
  | encoding (record field : String) (cause : Base64.Error)
  | length (record field : String) (expected got : Nat)
  | rejected (reason : String)
  deriving DecidableEq, Repr

def RecordError.message : RecordError → String
  | .masterKeyId record cause => record ++ ": " ++ (CryptoError.badMasterKeyId cause).message
  | .encoding record field cause => record ++ ": " ++ field ++ ": " ++ cause.message
  | .length record field expected got =>
    record ++ ": " ++ field ++ ": expected " ++ toString expected ++ " bytes, got " ++ toString got
  | .rejected reason => reason

namespace KeyRecord

/-- An active record for a key that has just been wrapped. -/
def make (id : String) (createdAt : Timestamp) (w : WrappedDek) (key : MasterKeyId)
    (version : String) : KeyRecord where
  id := id
  encryptedDek := Base64.encode w.ciphertext
  iv := Base64.encode w.iv.val
  authTag := Base64.encode w.tag.val
  version := version
  masterKeyId := key.toHex
  active := true
  createdAt := createdAt

def keyId (r : KeyRecord) : Except RecordError MasterKeyId :=
  match MasterKeyId.parse r.masterKeyId with
  | .ok id => .ok id
  | .error e => .error (.masterKeyId r.id e)

def decode (r : KeyRecord) (field text : String) : Except RecordError Bytes :=
  match Base64.decode (Bytes.ofText text) with
  | .ok b => .ok b
  | .error e => .error (.encoding r.id field e)

def decodeFixed (n : Nat) (r : KeyRecord) (field text : String) : Except RecordError (Octets n) := do
  let b ← r.decode field text
  match Octets.ofBytes? n b with
  | some o => .ok o
  | none => .error (.length r.id field n b.length)

def wrapped (r : KeyRecord) : Except RecordError WrappedDek := do
  let ciphertext ← r.decode "encryptedDek" r.encryptedDek
  let iv ← r.decodeFixed 12 "iv" r.iv
  let tag ← r.decodeFixed 16 "authTag" r.authTag
  .ok ⟨ciphertext, iv, tag⟩

/-- What the key in the record is bound to. -/
def context (r : KeyRecord) : Except RecordError WrapContext := do
  let id ← r.keyId
  .ok ⟨id, r.version⟩

/-! ## JSON -/

def fieldNames : List String :=
  ["id", "encryptedDek", "iv", "authTag", "keyVersion", "masterKeyId", "active", "createdAt"]

def ofJson? (j : Json) : Option KeyRecord := do
  match ← j.record? fieldNames with
  | [some id, some encryptedDek, some iv, some authTag, some version, some masterKeyId,
      some active, some createdAt] =>
    let createdAt ← Rfc3339.ofText? (← createdAt.text?)
    some ⟨← id.text?, ← encryptedDek.text?, ← iv.text?, ← authTag.text?, ← version.text?,
      ← masterKeyId.text?, ← active.bool?, createdAt⟩
  | _ => none

def ofJsonText? (text : String) : Option KeyRecord := (Json.parse? text).bind ofJson?

def toJsonText (r : KeyRecord) : String :=
  Json.writeObject [
    ("id", Json.writeText r.id),
    ("encryptedDek", Json.writeText r.encryptedDek),
    ("iv", Json.writeText r.iv),
    ("authTag", Json.writeText r.authTag),
    ("keyVersion", Json.writeText r.version),
    ("masterKeyId", Json.writeText r.masterKeyId),
    ("active", (if r.active then "true" else "false").toList),
    ("createdAt", Json.writeText (Rfc3339.toText r.createdAt))]

end KeyRecord

end AttestedVault
