import AttestedVault.Attestation.Config
import AttestedVault.Attestation.Network
import AttestedVault.Attestation.Tcb
import AttestedVault.Certificate.Chain
import AttestedVault.Hex

/-!
# The key distribution service

Looks up a chip's key by chip id and firmware levels. Every fetched certificate
is kept in a cache, which is used while the service cannot be reached. Fetched
or kept, a certificate counts only if it chains to the pinned root.
-/

namespace AttestedVault

structure KdsClient where
  baseUrl : String
  product : String
  cacheDir : String
  ark : PinnedArk
  /-- The verified intermediate certificate, once it has been looked up. -/
  ask : Option Certificate

namespace KdsClient

def withArk (c : AttestationConfig) (ark : PinnedArk) : KdsClient :=
  ⟨Text.dropSlashes c.kdsBaseUrl, c.product, c.vcekCacheDir, ark, none⟩

/-- A client that trusts the root certificate in the settings' file. -/
def open? (c : AttestationConfig) (disk : Disk) : Except AttestationError KdsClient :=
  match disk.read c.resolvedArkPath with
  | .error e => .error (.trustAnchor (.unreadable c.resolvedArkPath e))
  | .ok b =>
    match PinnedArk.ofBytes b with
    | .error e => .error (.trustAnchor e)
    | .ok ark => .ok (withArk c ark)

/-- At least two digits. -/
def twoDigits (n : Nat) : String := if n < 10 then "0" ++ toString n else toString n

def vcekUrl (c : KdsClient) (chip : Bytes) (tcb : TcbVersion) : String :=
  c.baseUrl ++ "/vcek/v1/" ++ c.product ++ "/" ++ Hex.encode chip
    ++ "?blSPL=" ++ twoDigits tcb.bootLoader.toNat ++ "&teeSPL=" ++ twoDigits tcb.tee.toNat
    ++ "&snpSPL=" ++ twoDigits tcb.snp.toNat ++ "&ucodeSPL=" ++ twoDigits tcb.microcode.toNat

def chainUrl (c : KdsClient) : String := c.baseUrl ++ "/vcek/v1/" ++ c.product ++ "/cert_chain"

def vcekFile (chip : Bytes) (tcb : TcbVersion) : String :=
  Hex.encode chip ++ "-" ++ toString tcb.bootLoader.toNat ++ "-" ++ toString tcb.tee.toNat
    ++ "-" ++ toString tcb.snp.toNat ++ "-" ++ toString tcb.microcode.toNat ++ ".der"

def vcekPath (c : KdsClient) (chip : Bytes) (tcb : TcbVersion) : String :=
  joinPath c.cacheDir (vcekFile chip tcb)

def chainPath (c : KdsClient) : String := joinPath c.cacheDir (c.product ++ "-cert_chain.pem")

/-- The body of a successful answer. -/
def fetch (url : String) : StateM Network (Except AttestationError Bytes) := do
  match ← Network.get url with
  | none => pure (.error (.http url))
  | some r =>
    if r.isSuccess then pure (.ok r.body)
    else pure (.error (.vcekFetch ("KDS returned " ++ Http.statusText r.status)))

/-- The first certificate of a bundle, which the root must have signed. -/
def askOfBundle (ark : PinnedArk) (bundle : Bytes) : Except AttestationError Certificate :=
  match Certificate.readAll? bundle with
  | none => .error (.invalidVcek .unreadable)
  | some [] => .error (.untrustedVcek .emptyBundle)
  | some (c :: _) =>
    match ark.verifyAsk c with
    | .ok () => .ok c
    | .error e => .error (.untrustedVcek e)

/-- What `check` finds in the bytes behind `url`, which are then kept under
`path`. If they cannot be fetched, those under `path` are checked instead. -/
def fetchOrKept {α : Type} (c : KdsClient) (url path missing : String)
    (check : Bytes → Except AttestationError α) : StateM Network (Except AttestationError α) := do
  match ← fetch url with
  | .ok b =>
    match check b with
    | .ok a =>
      Network.keepFile c.cacheDir path b
      pure (.ok a)
    | .error e => pure (.error e)
  | .error e =>
    match ← Network.readFile path with
    | .ok b => pure (check b)
    | .error _ =>
      pure (.error (.unavailable (missing ++ " not retrievable and not cached (" ++ e.message ++ ")")))

/-- The intermediate certificate, looked up once for each client. -/
def getAsk (c : KdsClient) : StateM Network (Except AttestationError Certificate) := do
  match c.ask with
  | some ask => pure (.ok ask)
  | none => c.fetchOrKept c.chainUrl c.chainPath "AMD certificate chain" (askOfBundle c.ark)

/-- The key of a chip at its firmware levels, and the client afterwards. -/
def vcek (c : KdsClient) (chip : Bytes) (tcb : TcbVersion) :
    StateM Network (Except AttestationError P384.Affine × KdsClient) := do
  match ← c.getAsk with
  | .error e => pure (.error e, c)
  | .ok ask =>
    let key ← c.fetchOrKept (c.vcekUrl chip tcb) (c.vcekPath chip tcb) "VCEK" (c.ark.chipKey ask)
    pure (key, { c with ask := some ask })

end KdsClient

end AttestedVault
