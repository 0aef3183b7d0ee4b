import AttestedVault.Proofs.NewRecords
import AttestedVault.Proofs.Replacement
import AttestedVault.Proofs.Visibility
import Mathlib.Data.List.Forall2

/-!
# Re-encryption

A rotation that re-encrypts credentials keeps every one of them readable, under
the key that it has put in force, or it changes nothing.
-/

namespace AttestedVault

variable {ε α : Type} {s t : Host}

open AttestedVault.Action

/-! ## The list -/

theorem Credential.reencrypt_ok {old new : Dek} : ∀ {cs ds : List String} {s t : Host},
    (reencrypt old new cs).on s = (.ok ds, t) → s.Prepared cs.length 0 t ∧
      List.Forall₂ (fun c d => ∃ text, decrypt old c = .ok text ∧ decrypt new d = .ok text) cs ds
  | [], ds, s, t, h => by
    cases h
    exact ⟨.refl s, .nil⟩
  | c :: cs, ds, s, t, h => by
    obtain ⟨text, u, htext, h⟩ := bind_ok h
    obtain ⟨hread, hu⟩ := ofExcept_ok htext
    obtain ⟨d, v, hd, h⟩ := bind_ok h
    obtain ⟨rest, w, hrest, hend⟩ := bind_ok h
    obtain ⟨hp, ih⟩ := reencrypt_ok hrest
    cases hend
    subst hu
    refine ⟨?_, .cons ⟨text, hread, (encrypt_yields new text).on hd⟩ ih⟩
    rw [List.length_cons, Nat.add_comm]
    exact (encrypt_ok hd).trans hp

namespace KeyManager

/-! ## The rotation -/

/-- What a rotation that succeeds has gone through before it gave `result`. -/
inductive Exchanged (c : Closure ε α) (result : α) (s t : Host) : Prop
  | intro (key : MasterKey) (current r : KeyRecord) (old new : Dek) (u v w : Host) (attested : s.masterKey = .ok key)
      (active : s.shared.store.active? = .ok (some current)) (opens : current.openWith key = .ok old)
      (seals : r.Seals key new (KeyVersion.next current.version))
      (stamp : (r.id, r.createdAt) = s.shared.stamps s.shared.stamped) (prepared : s.Prepared 2 1 u)
      (closure : (c.act old new).on u = (.ok result, v)) (same : u.Same v)
      (replace : Host.perform (.replace current.id r) v = (Except.ok (), w)) (after : t = w.withCache (some new))

theorem rotateWith_exchanged {lift : KeyError → ε} {c : Closure ε α} {x : RotationOutcome × α}
    (h : (rotateWith lift c.act).on s = (.ok x, t)) : Exchanged c x.2 s t := by
  rw [rotateWith, on_holding, on_holding] at h
  obtain ⟨key, u₁, hkey, h⟩ := bind_ok h
  obtain ⟨current, u₂, hcur, h⟩ := bind_ok h
  obtain ⟨old, u₃, hold, h⟩ := bind_ok h
  obtain ⟨new, u₄, hnew, h⟩ := bind_ok h
  obtain ⟨r, u₅, hr, h⟩ := bind_ok h
  obtain ⟨result, u₆, hc, h⟩ := bind_ok h
  obtain ⟨_, w, hw, hend⟩ := bind_ok h
  have hlook₁ := Host.Looked.on currentMasterKey_looks (mapError_ok hkey)
  have hlook₂ := Host.Looked.on activeRecord_looks (mapError_ok hcur)
  have hactive := activeRecord_ok (mapError_ok hcur)
  rw [hlook₁.shared] at hactive
  obtain ⟨hold, hu₃⟩ := ofExcept_ok hold
  rw [hu₃] at hnew
  have h₄ := (Host.Prepared.of_looked (hlook₁.trans hlook₂)).trans (generateDek_ok (mapError_ok hnew))
  obtain ⟨hmade, hseals, hstamp⟩ := sealRecord_made (mapError_ok hr)
  rw [h₄.stamps, h₄.stamped] at hstamp
  have hsame := same_of_quiet (c.isLocal old new).quiet u₅
  rw [hc] at hsame
  cases hend
  exact .intro key current r old new u₅ u₆ w (currentMasterKey_ok (mapError_ok hkey)) hactive hold hseals hstamp
    (h₄.trans hmade) hc hsame (replace_ok (mapError_ok hw)) rfl

theorem rotateWith_of_none {lift : KeyError → ε} {c : Closure ε α} {e : ε}
    (hn : s.shared.store.active? = .ok none) (h : (rotateWith lift c.act).on s = (.error e, t)) :
    t.shared = s.shared := by
  rw [rotateWith, on_holding, on_holding] at h
  obtain h | ⟨key, u, hkey, h⟩ := bind_error h
  · obtain ⟨c, hc, -⟩ := mapError_error h
    exact (Host.Looked.on currentMasterKey_looks hc).shared
  have hlook := Host.Looked.on currentMasterKey_looks (mapError_ok hkey)
  obtain h | ⟨current, v, hcur, -⟩ := bind_error h
  · obtain ⟨c, hc, -⟩ := mapError_error h
    exact (hlook.trans (Host.Looked.on activeRecord_looks hc)).shared
  · have hactive := activeRecord_ok (mapError_ok hcur)
    rw [hlook.shared, hn] at hactive
    cases hactive

/-! ## Reading -/

theorem readActive_bind_on {f : Option KeyRecord → Action KeyError α} {o : Option KeyRecord}
    (hx : (Host.perform .readActive s).1 = Except.ok o) :
    (readActive >>= f).on s = (f o).on (Host.perform .readActive s).2 := by
  change ((ofExcept .store (Host.perform .readActive s).1 >>= f).on (Host.perform .readActive s).2) = _
  rw [hx]
  rfl

theorem readActive_bind_on_error {f : Option KeyRecord → Action KeyError α} {e : StoreError}
    (hx : (Host.perform .readActive s).1 = Except.error e) :
    ((readActive >>= f).on s).1 = .error (.store e) := by
  change ((ofExcept .store (Host.perform .readActive s).1 >>= f).on (Host.perform .readActive s).2).1 = _
  rw [hx]
  rfl

theorem loadDek_congr {shared shared' : Shared} (n : Node) (hstore : shared'.store = shared.store)
    (hn : shared.store.active? ≠ .ok none) :
    (loadDek.on ⟨shared', n⟩).1 = (loadDek.on ⟨shared, n⟩).1 := by
  have hkey : Host.masterKey ⟨shared', n⟩ = Host.masterKey ⟨shared, n⟩ := rfl
  rw [loadDek, on_bind, on_bind, currentMasterKey_on, currentMasterKey_on, hkey]
  cases Host.masterKey ⟨shared, n⟩ with
  | error e => rfl
  | ok key =>
    -- both read the same
    have hread : (Host.perform .readActive (Host.perform .attest ⟨shared', n⟩).2).1 =
        (Host.perform .readActive (Host.perform .attest ⟨shared, n⟩).2).1 := by
      simp only [Host.perform, hstore]
    cases hx : ((Host.perform .readActive (Host.perform .attest ⟨shared, n⟩).2).1 :
      Except StoreError (Option KeyRecord)) with
    | error e => exact (readActive_bind_on_error (hread.trans hx)).trans (readActive_bind_on_error hx).symm
    | ok o =>
      cases o with
      | none => exact absurd (Host.read_ok hx) hn
      | some r =>
        refine (congrArg Prod.fst (readActive_bind_on (hread.trans hx))).trans
          (Eq.trans ?_ (congrArg Prod.fst (readActive_bind_on hx)).symm)
        exact (congrArg Prod.fst (on_ofExcept_id _ _)).trans (congrArg Prod.fst (on_ofExcept_id _ _)).symm

theorem currentDek_congr {shared shared' : Shared} (n : Node) (hstore : shared'.store = shared.store)
    (hn : shared.store.active? ≠ .ok none) :
    (currentDek.on ⟨shared', n⟩).1 = (currentDek.on ⟨shared, n⟩).1 := by
  rw [currentDek_on, currentDek_on]
  cases n.cache with
  | some d => rfl
  | none =>
    have h := loadDek_congr n hstore hn
    cases hx : loadDek.on ⟨shared', n⟩ with
    | mk x u =>
      cases hy : loadDek.on ⟨shared, n⟩ with
      | mk y v =>
        rw [hx, hy] at h
        obtain rfl : x = y := h
        cases x <;> rfl

end KeyManager

namespace KeySource

theorem decrypt_congr {shared shared' : Shared} (n : Node) (c : String) (hstore : shared'.store = shared.store)
    (hn : shared.store.active? ≠ .ok none) :
    ((attested.decrypt c).on ⟨shared', n⟩).1 = ((attested.decrypt c).on ⟨shared, n⟩).1 := by
  rw [decrypt_on, decrypt_on, KeyManager.currentDek_congr n hstore hn]

theorem decrypt_of_cache {d : Dek} (hc : s.node.cache = some d) (c : String) :
    ((attested.decrypt c).on s).1 = Credential.decrypt d c := by
  rw [decrypt_on, KeyManager.currentDek_on, hc]

theorem decrypt_of_fresh {shared : Shared} {a : Attestor} {key : MasterKey} {r : KeyRecord} {dek : Dek}
    (hk : Host.masterKey ⟨shared, .fresh a⟩ = .ok key) (hr : shared.store.active? = .ok (some r))
    (ho : r.openWith key = .ok dek) (c : String) :
    ((attested.decrypt c).on ⟨shared, .fresh a⟩).1 = Credential.decrypt dek c := by
  rw [decrypt_on, KeyManager.currentDek_of_openWith rfl rfl hk hr ho]

/-- `d` is under the new key what `c` was under the old one. It is read on the host
`t`, and by a manager that starts there under the same master key. -/
def Carried (t : Host) (key : MasterKey) (record : KeyRecord) (old new : Dek) (c d : String) : Prop :=
  ∃ text, Credential.decrypt old c = .ok text ∧ Credential.decrypt new d = .ok text ∧
    ((attested.decrypt d).on t).1 = .ok text ∧
    ∀ a, Host.masterKey ⟨t.shared, .fresh a⟩ = .ok key → t.shared.store.active? = .ok (some record) →
      ((attested.decrypt d).on ⟨t.shared, .fresh a⟩).1 = .ok text

/-- The credentials `ds` are for the texts of `cs`: the host `s` has become `t`
in between, and `record` has taken the place of `current`. -/
structure Reencrypted (cs ds : List String) (s t : Host) (key : MasterKey) (current record : KeyRecord)
    (old new : Dek) : Prop where
  attested : s.masterKey = .ok key
  active : s.shared.store.active? = .ok (some current)
  opens : current.openWith key = .ok old
  draws : ∀ i < 2 + cs.length, s.shared.random.fails (s.shared.random.attempts + i) = none
  stamp : (record.id, record.createdAt) = s.shared.stamps s.shared.stamped
  commits : s.node.faults.replace s.node.writes = none ∧
    s.shared.store.replace current.id record = .ok t.shared.store
  version : record.version = KeyVersion.next current.version
  wraps : record.openWith key = .ok new
  cached : t.node.cache = some new
  /-- The time of a row is read again in years of four digits. -/
  readable : s.shared.store.Reads (s.shared.stamps s.shared.stamped).2 →
    t.shared.store.active? = .ok (some record)
  texts : List.Forall₂ (Carried t key record old new) cs ds

theorem rotateAndReencrypt_reencrypted {cs ds : List String} (hs : s.shared.store.AtMostOneActive)
    (h : (attested.rotateAndReencrypt cs).on s = (.ok ds, t)) :
    ∃ key current record old new, Reencrypted cs ds s t key current record old new := by
  obtain ⟨y, u, hy, ho⟩ := bind_ok h
  cases ho
  obtain ⟨key, current, record, old, new, u, v, w, attested, active, opens, seals, stamp, prepared, closure, same,
    replace, rfl⟩ := KeyManager.rotateWith_exchanged (c := .reencrypt cs) hy
  obtain ⟨hlist, htexts⟩ := Credential.reencrypt_ok closure
  have hv := prepared.trans hlist
  obtain ⟨hfault, hreplace⟩ := Host.perform_replace_ok replace
  rw [hv.faults, hv.writes] at hfault
  rw [hv.store] at hreplace
  obtain ⟨store, hreplaced, -, huniq⟩ := Store.replace_active hs active seals.active
  have hwraps : record.openWith key = .ok new := KeyRecord.openWith_eq_ok.mpr ⟨seals.keyId, seals.unwrap⟩
  refine ⟨key, current, record, old, new, attested, active, opens, hv.random.granted, stamp, ⟨hfault, hreplace⟩,
    seals.version_eq, hwraps, rfl, fun hclock => ?_, htexts.imp fun c d hcd => ?_⟩
  · rw [← stamp] at hclock
    have hactive := hreplaced.active? seals.active hclock
    rwa [← huniq _ hreplace] at hactive
  · obtain ⟨text, hc, hd⟩ := hcd
    exact ⟨text, hc, hd, (decrypt_of_cache rfl d).trans hd, fun a hk hr => (decrypt_of_fresh hk hr hwraps d).trans hd⟩

theorem rotateAndReencrypt_of_none {cs : List String} {e : CredentialError}
    (hn : s.shared.store.active? = .ok none) (h : (attested.rotateAndReencrypt cs).on s = (.error e, t)) :
    t.shared = s.shared := by
  change ((KeyManager.rotateWith .key (Closure.reencrypt cs).act >>= fun x => pure x.2 :
    Action CredentialError (List String)).on s) = _ at h
  rw [on_bind] at h
  split at h
  · cases h
  · rename_i hr
    cases h
    exact KeyManager.rotateWith_of_none hn hr

/-- Something that the re-encryption needs is not to be had. -/
inductive Hindered (cs : List String) (s : Host) : Prop
  | attestation {e : KeyError} (refused : s.masterKey = .error e)
  | draw {i : Nat} {reason : String} (needed : i < 2 + cs.length)
      (fails : s.shared.random.fails (s.shared.random.attempts + i) = some reason)
  | credential {key : MasterKey} {current : KeyRecord} {old : Dek} {c : String} (attested : s.masterKey = .ok key)
      (active : s.shared.store.active? = .ok (some current)) (opens : current.openWith key = .ok old) (mem : c ∈ cs)
      (unread : ∀ text, Credential.decrypt old c ≠ .ok text)
  | fault {e : StoreError} (fails : s.node.faults.replace s.node.writes = some e)
  | commit {current : KeyRecord} (active : s.shared.store.active? = .ok (some current))
      (refused : ∀ record store, (record.id, record.createdAt) = s.shared.stamps s.shared.stamped →
        s.shared.store.replace current.id record ≠ .ok store)

theorem Reencrypted.not_hindered {cs ds : List String} {key : MasterKey} {current record : KeyRecord} {old new : Dek}
    (h : Reencrypted cs ds s t key current record old new) : ¬ Hindered cs s := by
  intro hh
  cases hh with
  | attestation refused => cases h.attested.symm.trans refused
  | draw needed fails => cases (h.draws _ needed).symm.trans fails
  | credential attested active opens mem unread =>
    cases h.attested.symm.trans attested
    cases h.active.symm.trans active
    cases h.opens.symm.trans opens
    obtain ⟨i, hi, rfl⟩ := List.getElem_of_mem mem
    obtain ⟨text, htext, -⟩ := (List.forall₂_iff_get.mp h.texts).2 i hi (h.texts.length_eq ▸ hi)
    exact unread text htext
  | fault fails => cases h.commits.1.symm.trans fails
  | commit active refused =>
    cases h.active.symm.trans active
    exact refused _ _ h.stamp h.commits.2

/-- Whatever the credentials are. Either each is decrypted under the key that was
in force and encrypted under the one that then is, or it is as if nothing had
been asked: the manager that asked and any other one reads what it read before.
So it is if anything that is needed fails. A manager started afterwards gets the new
key from a table only if the clock showed a year of four digits. -/
theorem rotateAndReencrypt_preserves (cs : List String) (hs : s.shared.store.AtMostOneActive) :
    (match (attested.rotateAndReencrypt cs).on s with
    | (.ok ds, t) => ∃ key current record old new, Reencrypted cs ds s t key current record old new
    | (.error _, t) => t.shared.store = s.shared.store ∧ t.node.cache = s.node.cache ∧
        ∀ n c, ((attested.decrypt c).on ⟨t.shared, n⟩).1 = ((attested.decrypt c).on ⟨s.shared, n⟩).1) ∧
    (Hindered cs s → ∃ e, ((attested.rotateAndReencrypt cs).on s).1 = .error e) := by
  cases h : (attested.rotateAndReencrypt cs).on s with
  | mk r t =>
    cases r with
    | ok ds =>
      obtain ⟨key, current, record, old, new, hr⟩ := rotateAndReencrypt_reencrypted hs h
      exact ⟨⟨key, current, record, old, new, hr⟩, fun hh => absurd hh hr.not_hindered⟩
    | error e =>
      obtain ⟨hstore, hcache⟩ := rotateAndReencrypt_clean cs s e t h
      refine ⟨⟨hstore, hcache, fun n c => ?_⟩, fun _ => ⟨e, rfl⟩⟩
      by_cases hn : s.shared.store.active? = .ok none
      · rw [rotateAndReencrypt_of_none hn h]
      · exact decrypt_congr n c hstore hn

end KeySource

/-! ## A rotation that succeeds -/

theorem Credential.reencrypt_succeeds {old new : Dek} : ∀ {cs : List String} {s : Host}, s.Unhindered →
    (∀ c ∈ cs, ∃ text, decrypt old c = .ok text) → (reencrypt old new cs).Succeeds s
  | [], s, _, _ => .pure _
  | c :: cs, s, hs, hcs => by
    obtain ⟨text, htext⟩ := hcs c List.mem_cons_self
    refine .quiet_bind hs (.ofExcept _ _) (.ofExcept htext) fun x u _ hu _ => ?_
    obtain ⟨iv, hiv⟩ := hu.draw 16
    have henc : (encrypt new x).Succeeds u := by
      refine .of_fst (x := Hex.encode (Sealed.make new.bytes iv.val (Bytes.ofText x) []).toBytes) ?_
      rw [on_encrypt, hiv]
    refine .quiet_bind hu (encrypt_local new x).quiet henc fun d v _ hv _ => ?_
    refine .bind (reencrypt_succeeds hv fun c hc => hcs c (List.mem_cons_of_mem _ hc)) fun ds w _ => .pure _

theorem KeySource.rotateAndReencrypt_preserves_twice : ∃ s c ds t, s.shared.store.AtMostOneActive ∧
    (attested.rotateAndReencrypt [c, c]).on s = (.ok ds, t) ∧ ds.length = 2 ∧
    ∀ d ∈ ds, ((attested.decrypt d).on t).1 = .ok "secret" := by
  obtain ⟨a, k, hk⟩ := AttestationReport.exists_masterKey
  let dek : Dek := ⟨.ofBytes 32 []⟩
  let r : KeyRecord := .make "" ⟨⟨1970, 1, 1⟩, ⟨0, 0, 0⟩, by decide⟩
    (.wrap dek k (.ofBytes 12 []) (some ⟨k.id, KeyVersion.first⟩)) k.id KeyVersion.first
  let s : Host := ⟨{ (Host.attested a).shared with store := .memory ⟨[r]⟩ }, .fresh (.scripted fun _ => .ok a)⟩
  let c := Hex.encode (Sealed.make dek.bytes (Octets.ofBytes 16 []).val (Bytes.ofText "secret") []).toBytes
  have hs : s.shared.store.AtMostOneActive := List.length_filter_le ..
  have hr : s.shared.store.active? = .ok (some r) := rfl
  have ho : r.openWith k = .ok dek :=
    KeyRecord.openWith_eq_ok.mpr ⟨KeyRecord.keyId_make .., KeyRecord.unwrap_make ..⟩
  have hmk : s.masterKey = .ok k := (Host.masterKey_of_report rfl).trans hk
  have hc : Credential.decrypt dek c = .ok "secret" := Credential.decrypt_encode dek _ "secret"
  have hsucc : (attested.rotateAndReencrypt [c, c]).Succeeds s := by
    refine .bind (KeyManager.rotateWith_succeeds (c := .reencrypt [c, c]) ⟨rfl, fun _ => rfl⟩ hmk hr ho ?_ ?_)
      fun _ _ _ => .pure _
    · intro new t ht
      exact Credential.reencrypt_succeeds ht fun c' hc' => ⟨"secret", by simp at hc'; rw [hc']; exact hc⟩
    · intro q _
      exact ⟨.memory ⟨[r.retire, q.activate]⟩, by simp [s, Store.replace, MemoryStore.replace, MemoryStore.retire?, r,
        KeyRecord.make, Except.map, MemoryStore.insert, KeyRecord.retire, KeyRecord.activate]⟩
  obtain ⟨ds, t, hx⟩ := hsucc
  have h := (rotateAndReencrypt_preserves [c, c] hs).1
  rw [hx] at h
  obtain ⟨key, current, record, old, new, h⟩ := h
  cases hmk.symm.trans h.attested
  cases hr.symm.trans h.active
  cases ho.symm.trans h.opens
  have hread : ∀ d, Carried t k record dek new c d → ((attested.decrypt d).on t).1 = .ok "secret" := by
    rintro d ⟨text, htext, -, hd, -⟩
    cases hc.symm.trans htext
    exact hd
  refine ⟨s, c, ds, t, hs, hx, h.texts.length_eq.symm, ?_⟩
  cases h.texts with
  | cons h₁ h' =>
    cases h' with
    | cons h₂ h'' =>
      cases h''
      exact List.forall_mem_cons.mpr ⟨hread _ h₁, List.forall_mem_singleton.mpr (hread _ h₂)⟩

end AttestedVault
