import AttestedVault.Attestation.Config
import AttestedVault.Attestation.Network
import AttestedVault.Attestation.Report
import AttestedVault.Text.Utf8

/-!
# Report sources

Each source yields raw report bytes, is not present on this host, or fails.
-/

namespace AttestedVault

/-- How a run of the guest tool goes. -/
structure ToolRun where
  milliseconds : Nat
  exitStatus : Nat
  stderr : Bytes
  /-- What it wrote to the report file. -/
  report : Option Bytes

/-- The guest tool as a host has it. -/
structure GuestTool where
  /-- The guest device exists. -/
  device : Bool
  /-- How the tool runs, if it is installed. -/
  run : Option ToolRun

inductive ReportSource
  | file (path : String)
  | snpguest (tool : GuestTool) (timeoutMilliseconds : Nat)
  | metadata (url : String)
  /-- A source with a fixed outcome. -/
  | fixed (name : String) (outcome : Except AttestationError (Option Bytes))

namespace ReportSource

def name : ReportSource → String
  | .file _ => "file"
  | .snpguest .. => "snpguest"
  | .metadata _ => "metadata"
  | .fixed name _ => name

/-- A body of other than a report's length may be hexadecimal text with ASCII
whitespace around it. -/
def decodeBody (body : Bytes) : Bytes :=
  if body.length ≠ SnpReport.length then (Hex.decode? (Bytes.trim body)).getD body else body

def runTool (run : ToolRun) (timeout : Nat) : Except AttestationError (Option Bytes) :=
  if timeout < run.milliseconds then .error (.timeout "snpguest")
  else if run.exitStatus ≠ 0 then
    .error (.source "snpguest" ("exited with exit status: " ++ toString run.exitStatus ++ ": "
      ++ Text.trim (Text.lossy run.stderr)))
  else
    match run.report with
    | some b => .ok (some b)
    | none => .error (.io .notFound)

def fetch (s : ReportSource) : StateM Network (Except AttestationError (Option Bytes)) := do
  match s with
  | .fixed _ outcome => pure outcome
  | .file path =>
    match ← Network.readFile path with
    | .ok b => pure (.ok (some b))
    | .error .notFound => pure (.error (.source "file" (path ++ " does not exist")))
    | .error e => pure (.error (.io e))
  | .snpguest tool timeout =>
    match tool.device, tool.run with
    | true, some run => pure (runTool run timeout)
    | _, _ => pure (.ok none)
  | .metadata url =>
    match ← Network.get url with
    | none => pure (.error (.http url))
    | some r =>
      if r.isSuccess then pure (.ok (some (decodeBody r.body)))
      else
        pure (.error (.source "metadata" ("endpoint returned " ++ Http.statusText r.status)))

/-- The sources that settings imply, in the order they are tried. -/
def ofConfig (c : AttestationConfig) (tool : GuestTool) : List ReportSource :=
  (c.reportPath.map .file).toList ++ [.snpguest tool (1000 * c.commandTimeout)]
    ++ (c.metadataUrl.map .metadata).toList

end ReportSource

end AttestedVault
