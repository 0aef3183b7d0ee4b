import AttestedVault.Attestation.Error
import AttestedVault.Certificate.Pem
import AttestedVault.Curve.Ecdsa
import AttestedVault.Rsa

/-!
# The certificate chain

The pinned root (ARK) signs the intermediate (ASK), which signs the chip's key
(VCEK). A certificate is trusted only by a signature that goes back to the root.
-/

namespace AttestedVault.Certificate

open Der

def ecdsaWithSha384 : Oid := ⟨[0x2a, 0x86, 0x48, 0xce, 0x3d, 0x04, 0x03, 0x03]⟩

def rsassaPss : Oid := ⟨[0x2a, 0x86, 0x48, 0x86, 0xf7, 0x0d, 0x01, 0x01, 0x0a]⟩

/-- A sequence of two positive integers in the range of scalars. -/
def ecdsaSignature? (b : Bytes) : Option Ecdsa.Signature := do
  let σ ← whole (inside 0x30 do
    let r ← Rsa.readNatural
    let s ← Rsa.readNatural
    pure (⟨r, s⟩ : Ecdsa.Signature)) b
  if σ.inRange then some σ else none

/-- The signature of `message` under the key in `issuerKey`, by the algorithm
that the signed certificate names. -/
def checkSignature (algorithm : Oid) (issuerKey message signature : Bytes) :
    Except ChainError Unit :=
  if algorithm = ecdsaWithSha384 then
    match P384.ofBytes? issuerKey with
    | none => .error .issuerKeyNotP384
    | some key =>
      match ecdsaSignature? signature with
      | none => .error .malformedEcdsa
      | some σ => if Ecdsa.verify key message σ then .ok () else .error .ecdsaMismatch
  else if algorithm = rsassaPss then
    match Rsa.PublicKey.ofDer? issuerKey with
    | none => .error .issuerKeyNotRsa
    | some key => if Rsa.verify key message signature then .ok () else .error .pssMismatch
  else .error (.unsupportedAlgorithm algorithm)

/-- `child` names `issuer` and carries its signature. -/
def issuedBy (child issuer : Certificate) : Except ChainError Unit :=
  if child.body.issuer ≠ issuer.body.subject then .error .issuerName
  else
    match child.signature.aligned? with
    | none => .error .signatureNotAligned
    | some signature =>
      match issuer.body.publicKey.key.aligned? with
      | none => .error .issuerKeyNotAligned
      | some key => checkSignature child.algorithm.oid key child.body.toDer signature

/-- The point in a chip's certificate. -/
def chipKey (c : Certificate) : Except CertificateError P384.Affine :=
  match c.body.publicKey.key.aligned? with
  | none => .error .keyNotAligned
  | some b =>
    match P384.ofBytes? b with
    | none => .error .notP384
    | some q => .ok q

end AttestedVault.Certificate

namespace AttestedVault

/-- The operator's root certificate, which signs itself. -/
structure PinnedArk where
  certificate : Certificate
  selfSigned : certificate.issuedBy certificate = .ok ()

namespace PinnedArk

/-- The first certificate counts. -/
def ofBytes (b : Bytes) : Except AnchorError PinnedArk :=
  match Certificate.readAll? b with
  | none => .error (.certificate .unreadable)
  | some [] => .error .noCertificate
  | some (c :: _) =>
    match h : c.issuedBy c with
    | .error e => .error (.notSelfSigned e)
    | .ok () => .ok ⟨c, h⟩

def verifyAsk (ark : PinnedArk) (ask : Certificate) : Except ChainError Unit :=
  ask.issuedBy ark.certificate

/-- The chip's key, if the chain from it to the root holds. -/
def chipKey (ark : PinnedArk) (ask : Certificate) (vcek : Bytes) :
    Except AttestationError P384.Affine :=
  match ark.verifyAsk ask with
  | .error e => .error (.untrustedVcek e)
  | .ok () =>
    match Certificate.ofDer? vcek with
    | none => .error (.invalidVcek .unreadable)
    | some c =>
      match c.issuedBy ask with
      | .error e => .error (.untrustedVcek e)
      | .ok () =>
        match c.chipKey with
        | .error e => .error (.invalidVcek e)
        | .ok q => .ok q

end PinnedArk

end AttestedVault
