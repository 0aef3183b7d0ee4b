import AttestedVault.Attestation.Report

/-!
# Software attestation

Reports signed in process with a key that is at hand. They have the layout of
hardware reports and pass the same checks.
-/

namespace AttestedVault

structure SoftwareAttestor where
  key : Ecdsa.SigningKey
  measurement : Octets 48
  version : UInt32

namespace SoftwareAttestor

def claims (a : SoftwareAttestor) : SnpReport.Claims where
  version := a.version
  measurement := a.measurement
  reportData := Octets.ofBytes 64 []
  tcb := ⟨3, 0, 8, 115⟩
  chipId := Octets.ofBytes 64 (List.replicate 64 0x42)

/-- The raw report. -/
def rawReport (a : SoftwareAttestor) : Bytes :=
  let body := SnpReport.body a.claims
  SnpReport.embed body (Octets.ofBytes 96 (Ecdsa.sign a.key body.val).toBytes)

/-- The raw report, read and verified under the attestor's own key. -/
def report (a : SoftwareAttestor) : Except AttestationError AttestationReport :=
  match SnpReport.parse a.rawReport with
  | .error e => .error (.malformedReport e)
  | .ok r => r.verify a.key.point

end SoftwareAttestor

/-- Reports on request, while they are to be had. -/
structure ReportSupply where
  report : Except AttestationError AttestationReport
  available : Bool
  /-- Reports keep their mark of having been verified. -/
  verified : Bool
  /-- Requests from this number on are refused. -/
  limit : Option Nat

/-- The reply to the request of this number. -/
def ReportSupply.reply (s : ReportSupply) (number : Nat) :
    Except AttestationError AttestationReport :=
  if s.limit.any (· ≤ number) then .error (.unavailable "attestation budget spent")
  else if s.available then
    s.report.map fun r => { r with verified := r.verified && s.verified }
  else .error (.unavailable "software attestor disabled")

end AttestedVault
