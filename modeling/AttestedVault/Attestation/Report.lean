import AttestedVault.Attestation.Error
import AttestedVault.Attestation.Tcb
import AttestedVault.Curve.Ecdsa
import AttestedVault.Hex
import AttestedVault.Json.Text

/-!
# Attestation reports

The fixed layout of a raw report, its signature, and the statement about the
running code that is drawn from it. A statement is marked verified only where
the signature was checked.
-/

namespace AttestedVault

/-- A raw report's fields. All of them are claims until the signature holds. -/
structure SnpReport where
  version : Nat
  algorithm : Nat
  reportData : Octets 64
  measurement : Octets 48
  tcb : TcbVersion
  chipId : Octets 64
  /-- The two values of the signature, most significant byte first. -/
  signature : Octets 96
  /-- The bytes that the signature covers. -/
  signedBody : Octets 0x2a0
  deriving DecidableEq

namespace SnpReport

def length : Nat := 0x4a0

/-- The only algorithm in use: ECDSA over P-384 with SHA-384. -/
def ecdsaP384 : Nat := 1

def number (b : Bytes) (start : Nat) : Nat := Bytes.toNatLE (Octets.window b start 4).val

/-- A component fills 72 bytes, least significant first, of which only the
first 48 may be used. -/
def component? (b : Bytes) (start : Nat) : Option Bytes :=
  if ((b.drop (start + 48)).take 24).all (· == 0) then
    some (Octets.window b start 48).val.reverse
  else none

def parse (b : Bytes) : Except ReportError SnpReport :=
  if b.length ≠ length then .error (.length b.length)
  else if number b 0x34 ≠ ecdsaP384 then .error (.algorithm (number b 0x34))
  else
    match component? b 0x2a0, component? b 0x2e8 with
    | some r, some s =>
      .ok {
        version := number b 0
        algorithm := number b 0x34
        reportData := Octets.window b 0x50 64
        measurement := Octets.window b 0x90 48
        tcb := TcbVersion.ofBytes (Octets.window b 0x180 8)
        chipId := Octets.window b 0x1a0 64
        signature := Octets.ofBytes 96 (r ++ s)
        signedBody := Octets.window b 0 0x2a0 }
    | _, _ => .error .componentTooLong

/-- The report version in decimal, which salts the master key. -/
def platformVersion (r : SnpReport) : String := toString r.version

/-! ## Building -/

/-- What a report states. -/
structure Claims where
  version : UInt32
  measurement : Octets 48
  reportData : Octets 64
  tcb : TcbVersion
  chipId : Octets 64

/-- The covered bytes of a report with these claims; all else is zero. -/
def body (c : Claims) : Octets 0x2a0 :=
  ⟨Bytes.ofNatLE 4 c.version.toNat ++ List.replicate 0x30 0 ++ Bytes.ofNatLE 4 ecdsaP384
    ++ List.replicate 0x18 0 ++ c.reportData.val ++ c.measurement.val ++ List.replicate 0xc0 0
    ++ c.tcb.toBytes.val ++ List.replicate 0x18 0 ++ c.chipId.val ++ List.replicate 0xc0 0,
   by simp only [List.length_append, List.length_replicate, Bytes.length_ofNatLE,
     c.reportData.property, c.measurement.property, c.tcb.toBytes.property, c.chipId.property]⟩

/-- The body with the two halves of a signature in their places. -/
def embed (body : Octets 0x2a0) (signature : Octets 96) : Bytes :=
  body.val ++ (signature.val.take 48).reverse ++ List.replicate 24 0
    ++ (signature.val.drop 48).reverse ++ List.replicate 24 0 ++ List.replicate 0x170 0

end SnpReport

/-- A statement about the code that runs. -/
structure AttestationReport where
  measurement : Octets 48
  platformVersion : Option String
  chipId : Octets 64
  signature : Octets 96
  verified : Bool
  deriving DecidableEq

/-- The measurement as a statement carries it: lower case hexadecimal digits. -/
def AttestationReport.measurementText (r : AttestationReport) : String := Hex.encode r.measurement.val

/-- The measurement read from its digits. A text that is none counts as no bytes. -/
def AttestationReport.measurementBytes (r : AttestationReport) : Bytes :=
  (Hex.decode? (Bytes.ofText r.measurementText)).getD []

/-- A statement can be written but not read back: it would be trusted unchecked. -/
def AttestationReport.toJsonText (r : AttestationReport) : String :=
  Json.writeObject [
    ("measurement", Json.writeText r.measurementText),
    ("platform_version", match r.platformVersion with
      | some v => Json.writeText v
      | none => "null".toList),
    ("chip_id", Json.writeText (Hex.encode r.chipId.val)),
    ("signature", Json.writeText (Hex.encode r.signature.val)),
    ("verified", (if r.verified then "true" else "false").toList)]

namespace SnpReport

def toReport (r : SnpReport) (verified : Bool) : AttestationReport :=
  ⟨r.measurement, some r.platformVersion, r.chipId, r.signature, verified⟩

/-- The statement without anyone vouching for it. -/
def toUnverified (r : SnpReport) : AttestationReport := r.toReport false

/-- The statement, if the chip's key signed the covered bytes. -/
def verify (r : SnpReport) (key : P384.Affine) : Except AttestationError AttestationReport :=
  match Ecdsa.Signature.ofBytes? r.signature.val with
  | none => .error .signatureInvalid
  | some σ =>
    if Ecdsa.verify key r.signedBody.val σ then .ok (r.toReport true) else .error .signatureInvalid

end SnpReport

end AttestedVault
