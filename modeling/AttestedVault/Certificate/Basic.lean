import AttestedVault.Certificate.Name
import AttestedVault.Certificate.Validity
import AttestedVault.Der.BitString

/-!
# Certificates

The parts of an X.509 certificate, each with a reader and a writer. What an
issuer signs is checked over the written form of the body that was read.
-/

namespace AttestedVault.Certificate

open Der

structure Algorithm where
  oid : Oid
  parameters : Option Element
  deriving DecidableEq, Repr

def Algorithm.read : Parser Algorithm :=
  inside 0x30 do
    let oid ← Oid.read
    let rest ← get
    if rest = [] then pure ⟨oid, none⟩
    else
      let parameters ← readElement
      pure ⟨oid, some parameters⟩

def Algorithm.toDer (a : Algorithm) : Bytes :=
  write 0x30 (a.oid.toDer ++ (a.parameters.map Element.toDer).getD [])

structure PublicKey where
  algorithm : Algorithm
  key : BitString
  deriving DecidableEq, Repr

def PublicKey.read : Parser PublicKey :=
  inside 0x30 do
    let algorithm ← Algorithm.read
    let key ← BitString.read
    pure ⟨algorithm, key⟩

def PublicKey.toDer (k : PublicKey) : Bytes := write 0x30 (k.algorithm.toDer ++ k.key.toDer)

structure Extension where
  oid : Oid
  critical : Bool
  value : Bytes
  deriving DecidableEq, Repr

/-- One octet, all bits of which are equal. -/
def readBool : Parser Bool := do
  match ← Der.read 0x01 with
  | [0x00] => pure false
  | [0xff] => pure true
  | _ => failure

/-- An absent mark means that the extension is not critical. -/
def Extension.read : Parser Extension :=
  inside 0x30 do
    let oid ← Oid.read
    let critical ← optional 0x01 readBool
    let value ← Der.read 0x04
    pure ⟨oid, critical.getD false, value⟩

/-- The mark is written only where it says something. -/
def Extension.toDer (e : Extension) : Bytes :=
  write 0x30 (e.oid.toDer ++ (if e.critical then write 0x01 [0xff] else []) ++ write 0x04 e.value)

inductive Version
  | v1
  | v2
  | v3
  deriving DecidableEq, Repr

def Version.number : Version → UInt8
  | .v1 => 0
  | .v2 => 1
  | .v3 => 2

def Version.read : Parser Version := do
  match ← Der.read 0x02 with
  | [0] => pure .v1
  | [1] => pure .v2
  | [2] => pure .v3
  | _ => failure

/-- An integer's content octets in their shortest form, at most 21 of them. -/
def validSerial : Bytes → Bool
  | [] => false
  | [_] => true
  | a :: b :: rest =>
    !(a == 0 && b < 128) && !(a == 0xff && 128 ≤ b) && rest.length ≤ 19

def readSerial : Parser Bytes := do
  let octets ← Der.read 0x02
  if validSerial octets then pure octets else failure

/-- The body, which the issuer signs. -/
structure Body where
  version : Version
  serial : Bytes
  algorithm : Algorithm
  issuer : Name
  validity : Validity
  subject : Name
  publicKey : PublicKey
  issuerUniqueId : Option BitString
  subjectUniqueId : Option BitString
  extensions : Option (List Extension)
  deriving DecidableEq, Repr

namespace Body

/-- With `passOver`, tagged fields out of their order are left out of account. -/
def read (passOver : Bool) : Parser Body :=
  inside 0x30 do
    let version ← context passOver 0 (inside 0xa0 Version.read)
    let serial ← readSerial
    let algorithm ← Algorithm.read
    let issuer ← readName
    let validity ← Validity.read
    let subject ← readName
    let publicKey ← PublicKey.read
    let issuerUniqueId ← context passOver 1 (BitString.readAs 0x81)
    let subjectUniqueId ← context passOver 2 (BitString.readAs 0x82)
    let extensions ← context passOver 3 (inside 0xa3 (Der.list 0x30 Extension.read))
    pure ⟨version.getD .v1, serial, algorithm, issuer, validity, subject, publicKey,
      issuerUniqueId, subjectUniqueId, extensions⟩

def optionalToDer {α : Type} (f : α → Bytes) (o : Option α) : Bytes := (o.map f).getD []

/-- The first version is written by leaving it out. -/
def versionToDer (v : Version) : Bytes :=
  if v = .v1 then [] else write 0xa0 (write 0x02 [v.number])

def extensionsToDer (es : List Extension) : Bytes :=
  write 0xa3 (write 0x30 (es.flatMap Extension.toDer))

def toDer (b : Body) : Bytes :=
  write 0x30 (versionToDer b.version ++ write 0x02 b.serial ++ b.algorithm.toDer
    ++ nameToDer b.issuer ++ b.validity.toDer ++ nameToDer b.subject ++ b.publicKey.toDer
    ++ optionalToDer (fun s => write 0x81 s.content) b.issuerUniqueId
    ++ optionalToDer (fun s => write 0x82 s.content) b.subjectUniqueId
    ++ optionalToDer extensionsToDer b.extensions)

end Body

end AttestedVault.Certificate

namespace AttestedVault

structure Certificate where
  body : Certificate.Body
  algorithm : Certificate.Algorithm
  signature : Der.BitString
  deriving DecidableEq, Repr

namespace Certificate

def read (passOver : Bool) : Der.Parser Certificate :=
  Der.inside 0x30 do
    let body ← Body.read passOver
    let algorithm ← Algorithm.read
    let signature ← Der.BitString.read
    pure ⟨body, algorithm, signature⟩

/-- A certificate and nothing else. -/
def ofDer? (b : Bytes) : Option Certificate := Der.whole (read true) b

def toDer (c : Certificate) : Bytes :=
  Der.write 0x30 (c.body.toDer ++ c.algorithm.toDer ++ c.signature.toDer)

end Certificate

end AttestedVault
