import AttestedVault.Attestation.Provider
import AttestedVault.Proofs.ReportLayout

/-!
# Reports and the pinned root

A report that a provider returns was signed by a chip's key whose certificate
goes back to the root that the operator pinned. Certificates are fetched, kept
on disk or remembered from an earlier call: all of them pass the same checks.
-/

namespace AttestedVault

/-! ## Signed certificates -/

namespace Certificate

/-- `signature` is one of `message` under the key in `issuerKey`. -/
inductive Authentic (algorithm : Der.Oid) (issuerKey message signature : Bytes) : Prop
  | ecdsa (q : P384.Affine) (σ : Ecdsa.Signature) (ha : algorithm = ecdsaWithSha384)
      (hq : P384.ofBytes? issuerKey = some q) (hσ : ecdsaSignature? signature = some σ)
      (hv : Ecdsa.verify q message σ = true)
  | pss (k : Rsa.PublicKey) (ha : algorithm = rsassaPss)
      (hk : Rsa.PublicKey.ofDer? issuerKey = some k) (hv : Rsa.verify k message signature = true)

theorem checkSignature_ok {a : Der.Oid} {k m s : Bytes} (h : checkSignature a k m s = .ok ()) :
    Authentic a k m s := by
  unfold checkSignature at h
  by_cases ha : a = ecdsaWithSha384
  · rw [if_pos ha] at h
    cases hq : P384.ofBytes? k with
    | none => simp [hq] at h
    | some q =>
      cases hσ : ecdsaSignature? s with
      | none => simp [hq, hσ] at h
      | some σ =>
        by_cases hv : Ecdsa.verify q m σ = true
        · exact .ecdsa q σ ha hq hσ hv
        · simp [hq, hσ, hv] at h
  · rw [if_neg ha] at h
    by_cases hp : a = rsassaPss
    · rw [if_pos hp] at h
      cases hk : Rsa.PublicKey.ofDer? k with
      | none => simp [hk] at h
      | some key =>
        by_cases hv : Rsa.verify key m s = true
        · exact .pss key hp hk hv
        · simp [hk, hv] at h
    · rw [if_neg hp] at h
      cases h

structure SignedBy (child issuer : Certificate) : Prop where
  name : child.body.issuer = issuer.body.subject
  signature : ∃ key s, issuer.body.publicKey.key.aligned? = some key ∧
    child.signature.aligned? = some s ∧ Authentic child.algorithm.oid key child.body.toDer s

theorem issuedBy_ok {child issuer : Certificate} (h : child.issuedBy issuer = .ok ()) :
    child.SignedBy issuer := by
  unfold issuedBy at h
  by_cases hn : child.body.issuer = issuer.body.subject
  · rw [if_neg (not_not_intro hn)] at h
    cases hs : child.signature.aligned? with
    | none => simp [hs] at h
    | some s =>
      cases hk : issuer.body.publicKey.key.aligned? with
      | none => simp [hs, hk] at h
      | some key =>
        simp only [hs, hk] at h
        exact ⟨hn, key, s, hk, hs, checkSignature_ok h⟩
  · rw [if_pos hn] at h
    cases h

end Certificate

/-- The root signed an intermediate certificate that signed one for this key. -/
def PinnedArk.Endorses (ark : PinnedArk) (key : P384.Affine) : Prop :=
  ∃ ask vcek : Certificate, ask.SignedBy ark.certificate ∧ vcek.SignedBy ask ∧ vcek.chipKey = .ok key

theorem PinnedArk.endorses_of_chipKey {ark : PinnedArk} {ask : Certificate} {b : Bytes}
    {key : P384.Affine} (h : ark.chipKey ask b = .ok key) : ark.Endorses key := by
  unfold chipKey at h
  cases ha : ark.verifyAsk ask with
  | error e => simp [ha] at h
  | ok =>
    cases hc : Certificate.ofDer? b with
    | none => simp [ha, hc] at h
    | some c =>
      cases hi : c.issuedBy ask with
      | error e => simp [ha, hc, hi] at h
      | ok =>
        cases hk : c.chipKey with
        | error e => simp [ha, hc, hi, hk] at h
        | ok q =>
          simp only [ha, hc, hi, hk, Except.ok.injEq] at h
          subst h
          exact ⟨ask, c, Certificate.issuedBy_ok ha, Certificate.issuedBy_ok hi, hk⟩

/-! ## Looking keys up -/

namespace KdsClient

/-- The client's root is this one, and what it remembers was signed by it. -/
structure Trusts (c : KdsClient) (ark : PinnedArk) : Prop where
  root : c.ark = ark
  remembered : ∀ ask, c.ask = some ask → ask.SignedBy ark.certificate

theorem trusts_withArk (s : AttestationConfig) (ark : PinnedArk) : (withArk s ark).Trusts ark :=
  ⟨rfl, fun _ h => nomatch h⟩

theorem fetchOrKept_ok {α : Type} {c : KdsClient} {url path missing : String}
    {check : Bytes → Except AttestationError α} {net : Network} {a : α}
    (h : (c.fetchOrKept url path missing check net).1 = .ok a) : ∃ b, check b = .ok a := by
  simp only [fetchOrKept, bind, StateT.bind, pure] at h
  cases hf : fetch url net with
  | mk r net₁ =>
    simp only [hf] at h
    cases r with
    | ok b =>
      cases hb : check b with
      | ok x =>
        simp only [hb] at h
        exact ⟨b, hb.trans h⟩
      | error e =>
        simp only [hb] at h
        cases h
    | error e =>
      cases hr : net₁.disk.read path with
      | ok b =>
        simp only [StateT.bind, Network.readFile, hr] at h
        exact ⟨b, h⟩
      | error e =>
        simp only [StateT.bind, Network.readFile, hr] at h
        cases h

theorem askOfBundle_ok {ark : PinnedArk} {b : Bytes} {ask : Certificate}
    (h : askOfBundle ark b = .ok ask) : ask.SignedBy ark.certificate := by
  unfold askOfBundle at h
  split at h
  · cases h
  · cases h
  · rename_i c _ _
    cases hc : ark.verifyAsk c with
    | error e => simp [hc] at h
    | ok =>
      simp only [hc, Except.ok.injEq] at h
      exact h ▸ Certificate.issuedBy_ok hc

section
variable {c : KdsClient} {ark : PinnedArk} (hc : c.Trusts ark)

include hc in
theorem Trusts.getAsk {net : Network} {ask : Certificate} (h : (c.getAsk net).1 = .ok ask) :
    ask.SignedBy ark.certificate := by
  cases hm : c.ask with
  | some a =>
    simp only [KdsClient.getAsk, hm] at h
    cases h
    exact hc.remembered ask hm
  | none =>
    simp only [KdsClient.getAsk, hm] at h
    obtain ⟨b, hb⟩ := fetchOrKept_ok h
    exact hc.root ▸ askOfBundle_ok hb

include hc in
theorem Trusts.vcek (chip : Bytes) (tcb : TcbVersion) (net : Network) :
    (c.vcek chip tcb net).1.2.Trusts ark ∧
      ∀ key, (c.vcek chip tcb net).1.1 = .ok key → ark.Endorses key := by
  simp only [KdsClient.vcek, bind, StateT.bind, pure]
  cases ha : c.getAsk net with
  | mk r net' =>
    cases r with
    | error e => exact ⟨hc, fun _ h => nomatch h⟩
    | ok ask =>
      have hask := hc.getAsk (congrArg Prod.fst ha)
      refine ⟨⟨hc.root, fun a h => ?_⟩, fun key h => ?_⟩
      · cases h
        exact hask
      · obtain ⟨b, hb⟩ := fetchOrKept_ok h
        exact hc.root ▸ PinnedArk.endorses_of_chipKey hb

end

end KdsClient

/-! ## Reading reports -/

namespace SnpReport

/-- The two numbers in the places of a raw report's signature. -/
def stored (b : Bytes) : Ecdsa.Signature :=
  ⟨Bytes.toNatLE ((b.drop 0x2a0).take 72), Bytes.toNatLE ((b.drop 0x2e8).take 72)⟩

theorem toNat_component {b : Bytes} {start : Nat} (h : (b.drop (start + 48)).take 24 = List.replicate 24 0) :
    Bytes.toNat ((b.drop start).take 48).reverse = Bytes.toNatLE ((b.drop start).take 72) := by
  have hs : (b.drop start).take 72 = (b.drop start).take 48 ++ List.replicate 24 0 := by
    rw [show 72 = 48 + 24 from rfl, List.take_add, List.drop_drop, h]
  rw [Bytes.toNat_reverse, hs, Bytes.toNatLE_append_zeros _ (by decide)]

theorem Fields.stored {r : SnpReport} {b : Bytes} (hf : r.Fields b) (hw : WellFormed b) {σ : Ecdsa.Signature}
    (h : Ecdsa.Signature.ofBytes? r.signature.val = some σ) : σ = stored b ∧ σ.inRange = true := by
  have hl : ((b.drop 0x2a0).take 48).reverse.length = 48 := by
    have := hw.length
    rw [List.length_reverse, List.length_take, List.length_drop]
    omega
  have hr : Bytes.toNat (r.signature.val.take 48) = (SnpReport.stored b).r := by
    rw [hf.signature, List.take_left' hl]
    exact toNat_component hw.first
  have hs : Bytes.toNat (r.signature.val.drop 48) = (SnpReport.stored b).s := by
    rw [hf.signature, List.drop_left' hl]
    exact toNat_component hw.second
  rw [Ecdsa.Signature.ofBytes?, if_pos r.signature.property, hr, hs] at h
  by_cases hi : (SnpReport.stored b).inRange = true
  · rw [if_pos hi, Option.some.injEq] at h
    exact h ▸ ⟨rfl, hi⟩
  · rw [if_neg hi] at h
    cases h

structure ReadFrom (r : SnpReport) (b : Bytes) : Prop where
  length : b.length = 0x4a0
  algorithm : Bytes.toNatLE ((b.drop 0x34).take 4) = 1
  version : r.version = Bytes.toNatLE (b.take 4)
  measurement : r.measurement.val = (b.drop 0x90).take 48
  chipId : r.chipId.val = (b.drop 0x1a0).take 64
  signedBody : r.signedBody.val = b.take 0x2a0
  signature : ∀ σ, Ecdsa.Signature.ofBytes? r.signature.val = some σ → σ = stored b ∧ σ.inRange = true

theorem parse_ok {b : Bytes} {r : SnpReport} (h : parse b = .ok r) : r.ReadFrom b := by
  obtain ⟨hw, hf⟩ := parse_eq_ok_iff.mp h
  exact {
    length := hw.length
    algorithm := hw.algorithm
    version := hf.version
    measurement := hf.measurement
    chipId := hf.chipId
    signedBody := hf.signedBody
    signature := fun _ hσ => hf.stored hw hσ }

end SnpReport

/-- `b` vouches for the statement: it has the form of a report, the signature in
it is one of its covered bytes under a key that the root endorses, and what is
stated stands in it. -/
structure Vouched (ark : PinnedArk) (b : Bytes) (r : AttestationReport) : Prop where
  verified : r.verified = true
  length : b.length = 0x4a0
  algorithm : Bytes.toNatLE ((b.drop 0x34).take 4) = 1
  inRange : (SnpReport.stored b).inRange = true
  signed : ∃ key, ark.Endorses key ∧ Ecdsa.verify key (b.take 0x2a0) (SnpReport.stored b) = true
  measurement : r.measurement.val = (b.drop 0x90).take 48
  platformVersion : r.platformVersion = some (toString (Bytes.toNatLE (b.take 4)))
  chipId : r.chipId.val = (b.drop 0x1a0).take 64

theorem vouched_of_verify {ark : PinnedArk} {b : Bytes} {s : SnpReport} {key : P384.Affine}
    {r : AttestationReport} (hs : s.ReadFrom b) (hk : ark.Endorses key) (h : s.verify key = .ok r) :
    Vouched ark b r := by
  unfold SnpReport.verify at h
  cases hσ : Ecdsa.Signature.ofBytes? s.signature.val with
  | none => simp [hσ] at h
  | some σ =>
    obtain ⟨rfl, hr⟩ := hs.signature σ hσ
    by_cases hv : Ecdsa.verify key s.signedBody.val (SnpReport.stored b) = true
    · simp only [hσ, hv, ↓reduceIte, Except.ok.injEq] at h
      subst h
      exact {
        verified := rfl
        length := hs.length
        algorithm := hs.algorithm
        inRange := hr
        signed := ⟨key, hk, hs.signedBody ▸ hv⟩
        measurement := hs.measurement
        platformVersion := congrArg (fun n => some (toString n)) hs.version
        chipId := hs.chipId }
    · simp [hσ, hv] at h

/-! ## The first bytes -/

/-- These sources are tried in order, and the last of them is the first that
yields bytes, namely `b`. -/
inductive FirstBytes (b : Bytes) : List ReportSource → Network → Prop
  | here {s : ReportSource} {net : Network} (h : (s.fetch net).1 = .ok (some b)) :
      FirstBytes b [s] net
  | next {s : ReportSource} {tried : List ReportSource} {net : Network}
      (h : ∀ c, (s.fetch net).1 ≠ .ok (some c)) (ht : FirstBytes b tried (s.fetch net).2) :
      FirstBytes b (s :: tried) net

namespace Provider

theorem firstBytes_of_rawReport {b : Bytes} {sources : List ReportSource} {failures : List String}
    {net : Network} (h : (rawReport failures sources net).1 = .ok b) :
    ∃ tried later, sources = tried ++ later ∧ FirstBytes b tried net := by
  induction sources generalizing failures net with
  | nil => cases h
  | cons s rest ih =>
    simp only [rawReport, bind, StateT.bind, pure] at h
    cases hf : s.fetch net with
    | mk r net₁ =>
      simp only [hf] at h
      cases r with
      | error e =>
        obtain ⟨tried, later, rfl, ht⟩ := ih h
        exact ⟨s :: tried, later, rfl, .next (by simp [hf]) (by rwa [hf])⟩
      | ok o =>
        cases o with
        | none =>
          obtain ⟨tried, later, rfl, ht⟩ := ih h
          exact ⟨s :: tried, later, rfl, .next (by simp [hf]) (by rwa [hf])⟩
        | some c =>
          cases h
          exact ⟨[s], rest, rfl, .here (congrArg Prod.fst hf)⟩

theorem rawReport_of_firstBytes {b : Bytes} {tried : List ReportSource} {net : Network}
    (h : FirstBytes b tried net) : ∃ net', ∀ failures later,
      rawReport failures (tried ++ later) net = (.ok b, net') := by
  induction h with
  | @here s net h =>
    refine ⟨(s.fetch net).2, fun failures later => ?_⟩
    simp only [List.singleton_append, rawReport, bind, StateT.bind]
    cases hf : s.fetch net with
    | mk r net₁ =>
      rw [hf] at h
      cases h
      rfl
  | @next s tried net h ht ih =>
    obtain ⟨net', ih⟩ := ih
    refine ⟨net', fun failures later => ?_⟩
    simp only [List.cons_append, rawReport, bind, StateT.bind]
    cases hf : s.fetch net with
    | mk r net₁ =>
      rw [hf] at ih h
      cases r with
      | error e => exact ih _ later
      | ok o =>
        cases o with
        | none => exact ih _ later
        | some c => exact absurd rfl (h c)

def examine (v : VcekSource) (b : Bytes) :
    StateM Network (Except AttestationError AttestationReport × VcekSource) := fun net =>
  match SnpReport.parse b with
  | .error e => ((.error (.malformedReport e), v), net)
  | .ok r =>
    let found := v.vcek r.chipId.val r.tcb net
    ((found.1.1.bind r.verify, found.1.2), found.2)

theorem report_of_ok {sources : List ReportSource} {v : VcekSource} {net net' : Network} {b : Bytes}
    (h : rawReport [] sources net = (.ok b, net')) :
    (mk sources v).report net =
      (((examine v b net').1.1, ⟨sources, (examine v b net').1.2⟩), (examine v b net').2) := by
  simp only [report, bind, StateT.bind, h, pure, examine]
  cases SnpReport.parse b with
  | error e => rfl
  | ok r =>
    simp only [StateT.bind]
    cases v.vcek r.chipId.val r.tcb net' with
    | mk found net₁ =>
      obtain ⟨key, v₁⟩ := found
      cases key with
      | error e => rfl
      | ok key => rfl

theorem report_of_error {sources : List ReportSource} {v : VcekSource} {net net' : Network}
    {e : AttestationError} (h : rawReport [] sources net = (.error e, net')) :
    (mk sources v).report net = ((.error e, ⟨sources, v⟩), net') := by
  simp only [report, bind, StateT.bind, h]
  rfl

end Provider

/-! ## Runs of calls -/

namespace VcekSource

def Trusts (v : VcekSource) (ark : PinnedArk) : Prop := ∃ c : KdsClient, v = .kds c ∧ c.Trusts ark

/-- What has become of the source after calls, each of which met sources, a
network and a disk of its own. -/
def after (v : VcekSource) : List (List ReportSource × Network) → VcekSource
  | [] => v
  | (sources, net) :: calls => ((Provider.mk sources v).report net).1.2.vcek.after calls

end VcekSource

namespace Provider

section
variable {v : VcekSource} {ark : PinnedArk} (hv : v.Trusts ark)

include hv in
theorem trusts_examine (b : Bytes) (net : Network) :
    (examine v b net).1.2.Trusts ark ∧
      ∀ r, (examine v b net).1.1 = .ok r → Vouched ark b r := by
  unfold examine
  cases hp : SnpReport.parse b with
  | error e => exact ⟨hv, fun _ h => nomatch h⟩
  | ok s =>
    obtain ⟨c, rfl, hc⟩ := hv
    obtain ⟨ht, hk⟩ := hc.vcek s.chipId.val s.tcb net
    refine ⟨⟨_, rfl, ht⟩, fun r h => ?_⟩
    cases hf : (c.vcek s.chipId.val s.tcb net).1.1 with
    | error e =>
      have he : (Except.error e).bind s.verify = .ok r := hf ▸ h
      cases he
    | ok key =>
      have hs : (Except.ok key).bind s.verify = .ok r := hf ▸ h
      exact vouched_of_verify (SnpReport.parse_ok hp) (hk key hf) hs

include hv in
theorem trusts_report (sources : List ReportSource) (net : Network) :
    ((mk sources v).report net).1.2.vcek.Trusts ark := by
  cases hr : rawReport [] sources net with
  | mk raw net' =>
    cases raw with
    | error e => rwa [report_of_error hr]
    | ok b =>
      rw [report_of_ok hr]
      exact (trusts_examine hv b net').1

end

theorem trusts_after {ark : PinnedArk} (calls : List (List ReportSource × Network)) {v : VcekSource}
    (hv : v.Trusts ark) : (v.after calls).Trusts ark := by
  induction calls generalizing v with
  | nil => exact hv
  | cons call calls ih => exact ih (trusts_report hv call.1 call.2)

/-- A report that a provider returns, after any calls, is vouched for by the
first bytes that a source yields. If these are not enough the call fails, and
the sources behind are never tried. -/
theorem report_vouched (settings : AttestationConfig) (ark : PinnedArk)
    (calls : List (List ReportSource × Network)) (sources : List ReportSource) (net : Network) :
    let v := (VcekSource.kds (KdsClient.withArk settings ark)).after calls
    (∀ r, ((mk sources v).report net).1.1 = .ok r →
      ∃ b tried later, sources = tried ++ later ∧ FirstBytes b tried net ∧ Vouched ark b r) ∧
    ∀ b tried later, sources = tried ++ later → FirstBytes b tried net →
      ((∃ e, ((mk sources v).report net).1.1 = .error e) ∨
        ∃ r, ((mk sources v).report net).1.1 = .ok r ∧ Vouched ark b r) ∧
      ∀ others, ((mk (tried ++ others) v).report net).1.1 = ((mk sources v).report net).1.1 ∧
        ((mk (tried ++ others) v).report net).1.2.vcek = ((mk sources v).report net).1.2.vcek ∧
        ((mk (tried ++ others) v).report net).2 = ((mk sources v).report net).2 := by
  intro v
  -- whatever the calls met, all that the client carries on goes back to the root
  have hv : v.Trusts ark := trusts_after calls ⟨_, rfl, KdsClient.trusts_withArk settings ark⟩
  refine ⟨fun r h => ?_, ?_⟩
  · cases hr : rawReport [] sources net with
    | mk raw net' =>
      cases raw with
      | error e =>
        rw [report_of_error hr] at h
        cases h
      | ok b =>
        obtain ⟨tried, later, hs, ht⟩ := firstBytes_of_rawReport (congrArg Prod.fst hr)
        rw [report_of_ok hr] at h
        exact ⟨b, tried, later, hs, ht, (trusts_examine hv b net').2 r h⟩
  · rintro b tried later rfl ht
    obtain ⟨net', hr⟩ := rawReport_of_firstBytes ht
    rw [report_of_ok (hr [] later)]
    refine ⟨?_, fun others => ?_⟩
    · cases he : (examine v b net').1.1 with
      | error e => exact .inl ⟨e, rfl⟩
      | ok r => exact .inr ⟨r, rfl, (trusts_examine hv b net').2 r he⟩
    · rw [report_of_ok (hr [] others)]
      exact ⟨rfl, rfl, rfl⟩

end Provider

end AttestedVault
