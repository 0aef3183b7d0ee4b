import AttestedVault.Der.Oid
import AttestedVault.Disk

/-!
# Attestation errors

Why a report could not be obtained or is not to be trusted.
-/

namespace AttestedVault

/-- Why a certificate is not vouched for by its issuer. -/
inductive ChainError
  | issuerName
  | signatureNotAligned
  | issuerKeyNotAligned
  | issuerKeyNotP384
  | malformedEcdsa
  | ecdsaMismatch
  | issuerKeyNotRsa
  | pssMismatch
  | unsupportedAlgorithm (algorithm : Der.Oid)
  | emptyBundle
  deriving DecidableEq, Repr

def ChainError.message : ChainError → String
  | .issuerName => "issuer name does not match signing certificate"
  | .signatureNotAligned => "signature is not octet aligned"
  | .issuerKeyNotAligned => "issuer key is not octet aligned"
  | .issuerKeyNotP384 => "issuer key is not P-384"
  | .malformedEcdsa => "malformed ECDSA signature"
  | .ecdsaMismatch => "ECDSA signature mismatch"
  | .issuerKeyNotRsa => "issuer key is not RSA"
  | .pssMismatch => "RSA-PSS signature mismatch"
  | .unsupportedAlgorithm a => "unsupported signature algorithm " ++ a.message
  | .emptyBundle => "empty certificate chain"

/-- Why a certificate cannot be used by itself. -/
inductive CertificateError
  | unreadable
  | keyNotAligned
  | notP384
  deriving DecidableEq, Repr

def CertificateError.message : CertificateError → String
  | .unreadable => "failed to parse certificate"
  | .keyNotAligned => "public key bit string is not octet aligned"
  | .notP384 => "not a P-384 key"

/-- Why a byte string is no report. -/
inductive ReportError
  | length (got : Nat)
  | algorithm (got : Nat)
  | componentTooLong
  deriving DecidableEq, Repr

def ReportError.message : ReportError → String
  | .length got => "expected 1184 bytes, got " ++ toString got
  | .algorithm got => "unsupported signature algorithm " ++ toString got
  | .componentTooLong => "signature component exceeds 384 bits"

/-- Why there is no root to trust. -/
inductive AnchorError
  | certificate (cause : CertificateError)
  | noCertificate
  | notSelfSigned (cause : ChainError)
  | unreadable (path : String) (cause : IoError)
  deriving DecidableEq, Repr

inductive AttestationError
  | unavailable (detail : String)
  | signatureInvalid
  | malformedReport (cause : ReportError)
  | invalidVcek (cause : CertificateError)
  | untrustedVcek (cause : ChainError)
  | trustAnchor (cause : AnchorError)
  | vcekFetch (detail : String)
  | source (name reason : String)
  | timeout (name : String)
  | io (cause : IoError)
  | http (url : String)
  deriving DecidableEq, Repr

namespace AttestationError

def invalidVcekMessage (e : CertificateError) : String :=
  "Invalid VCEK certificate: " ++ e.message

def untrustedVcekMessage (e : ChainError) : String :=
  "VCEK does not chain to the pinned AMD root: " ++ e.message

def anchorMessage : AnchorError → String
  | .certificate e => invalidVcekMessage e
  | .noCertificate => "no certificate found"
  | .notSelfSigned e => "ARK is not self-signed: " ++ untrustedVcekMessage e
  | .unreadable path e => "cannot read ARK " ++ path ++ ": " ++ e.message

def message : AttestationError → String
  | .unavailable detail => "Attestation unavailable: " ++ detail
  | .signatureInvalid => "Attestation report signature is invalid"
  | .malformedReport e => "Malformed attestation report: " ++ e.message
  | .invalidVcek e => invalidVcekMessage e
  | .untrustedVcek e => untrustedVcekMessage e
  | .trustAnchor e => "AMD root key unusable: " ++ anchorMessage e
  | .vcekFetch detail => "VCEK fetch failed: " ++ detail
  | .source name reason => "Report source " ++ name ++ " failed: " ++ reason
  | .timeout name => name ++ " timed out"
  | .io e => "IO error: " ++ e.message
  | .http url => "HTTP error: error sending request for url (" ++ url ++ ")"

end AttestationError

end AttestedVault
