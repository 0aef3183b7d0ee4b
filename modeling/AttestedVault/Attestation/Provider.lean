import AttestedVault.Attestation.Kds
import AttestedVault.Attestation.Source

/-!
# Verified reports

The first source that yields bytes decides: they are read, the chip's key is
looked up, and the signature is checked.
-/

namespace AttestedVault

/-- Where the key that must have signed a chip's reports comes from. -/
inductive VcekSource
  | pinned (key : P384.Affine)
  | kds (client : KdsClient)
  | failing (error : AttestationError)

def VcekSource.vcek (s : VcekSource) (chip : Bytes) (tcb : TcbVersion) :
    StateM Network (Except AttestationError P384.Affine × VcekSource) := do
  match s with
  | .pinned key => pure (.ok key, s)
  | .failing e => pure (.error e, s)
  | .kds client =>
    let (key, client) ← client.vcek chip tcb
    pure (key, .kds client)

structure Provider where
  sources : List ReportSource
  vcek : VcekSource

namespace Provider

/-- Sources and key distribution service by the settings of a host. -/
def ofConfig (c : AttestationConfig) (tool : GuestTool) (disk : Disk) :
    Except AttestationError Provider :=
  match KdsClient.open? c disk with
  | .error e => .error e
  | .ok client => .ok ⟨ReportSource.ofConfig c tool, .kds client⟩

/-- The bytes of the first source that yields any. `failures` describes the
sources that failed before. -/
def rawReport (failures : List String) : List ReportSource →
    StateM Network (Except AttestationError Bytes)
  | [] =>
    pure (.error (.unavailable
      (if failures = [] then "no report source present" else Text.join "; " failures)))
  | s :: rest => do
    match ← s.fetch with
    | .ok (some b) => pure (.ok b)
    | .ok none => rawReport failures rest
    | .error e => rawReport (failures ++ [s.name ++ ": " ++ e.message]) rest

/-- A verified report, and the provider afterwards. -/
def report (p : Provider) : StateM Network (Except AttestationError AttestationReport × Provider) := do
  match ← rawReport [] p.sources with
  | .error e => pure (.error e, p)
  | .ok b =>
    match SnpReport.parse b with
    | .error e => pure (.error (.malformedReport e), p)
    | .ok r =>
      match ← p.vcek.vcek r.chipId.val r.tcb with
      | (.error e, vcek) => pure (.error e, { p with vcek := vcek })
      | (.ok key, vcek) => pure (r.verify key, { p with vcek := vcek })

end Provider

end AttestedVault
