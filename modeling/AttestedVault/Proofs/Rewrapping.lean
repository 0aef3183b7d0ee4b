import AttestedVault.Proofs.NewRecords
import AttestedVault.Proofs.Replacement
import AttestedVault.Proofs.Success

/-!
# Migration

A migration wraps the key of the active record under another master key, and
only that one opens it from then on. It succeeds exactly if the record can be
unwrapped under the old key and is not bound to the new one already.
-/

namespace AttestedVault

variable {s t : Host}

open AttestedVault.Action

theorem KeyRecord.unwrap_eq_ok_iff {r : KeyRecord} {key : MasterKey} {id : MasterKeyId} {dek : Dek}
    (h : r.keyId = .ok id) : r.unwrap key = .ok dek ↔
      ∃ w, r.wrapped = .ok w ∧ w.unwrap key (some ⟨id, r.version⟩) = .ok dek := by
  have hc : r.context = .ok ⟨id, r.version⟩ := by rw [context, h]; rfl
  constructor
  · intro hu
    obtain ⟨w, hw, hu⟩ := bind_eq_ok.mp hu
    obtain ⟨c, hx, hu⟩ := bind_eq_ok.mp hu
    obtain rfl := Except.ok.inj (hc.symm.trans (mapError_eq_ok.mp hx))
    exact ⟨w, mapError_eq_ok.mp hw, mapError_eq_ok.mp hu⟩
  · rintro ⟨w, hw, hu⟩
    exact bind_eq_ok.mpr ⟨w, mapError_eq_ok.mpr hw, bind_eq_ok.mpr ⟨_, mapError_eq_ok.mpr hc, mapError_eq_ok.mpr hu⟩⟩

namespace KeyManager

/-- What a migration does once it knows the running code's key and the record. -/
def rewrap (oldKey key : MasterKey) (current : KeyRecord) : Action KeyError MigrationOutcome := do
  let stored ← Action.ofExcept .invalidRecord current.keyId
  if stored = key.id then throw .migrationNotRequired
  let dek ← Action.ofExcept id (current.unwrap oldKey)
  let record ← Action.mapError .ofCrypto (sealRecord dek key current.version)
  Action.replace current.id record
  Action.ask .forget
  pure ⟨stored, key.id, current.version⟩

theorem migrate_eq (oldKey : MasterKey) : migrate oldKey =
    holding .lifecycle .exclusive (currentMasterKey >>= fun key => activeRecord >>= rewrap oldKey key) := rfl

/-- The host once the running code's key and the active record were asked for. -/
def looked (s : Host) : Host := (Host.perform .readActive (Host.perform .attest s).2).2

theorem looked_looked (s : Host) : s.Looked (looked s) :=
  (Host.Looked.perform rfl s).trans (Host.Looked.perform rfl _)

theorem activeRecord_on {o : Option KeyRecord} (hf : s.node.faults.read s.node.reads = none)
    (ho : s.shared.store.active? = .ok o) : activeRecord.on (Host.perform .attest s).2 =
      (match o with | some r => .ok r | none => .error .noActiveRecord, looked s) := by
  rw [activeRecord, on_bind, readActive_on (s := (Host.perform .attest s).2) hf ho]
  cases o <;> rfl

theorem found_on {α : Type} {key : MasterKey} {o : Option KeyRecord} (hk : s.masterKey = .ok key)
    (hf : s.node.faults.read s.node.reads = none) (hr : s.shared.store.active? = .ok o)
    (f : MasterKey → KeyRecord → Action KeyError α) :
    (currentMasterKey >>= fun key => activeRecord >>= f key).on s =
      o.elim (.error .noActiveRecord, looked s) fun r => (f key r).on (looked s) := by
  rw [currentMasterKey_bind hk, on_bind, activeRecord_on hf hr]
  cases o <;> rfl

theorem migrate_on {oldKey key : MasterKey} {r : KeyRecord} (hk : s.masterKey = .ok key)
    (hf : s.node.faults.read s.node.reads = none) (hr : s.shared.store.active? = .ok (some r)) :
    (migrate oldKey).on s = (rewrap oldKey key r).on (looked s) := by
  rw [migrate_eq, on_holding, found_on hk hf hr, Option.elim_some]

theorem migrate_of_none {oldKey key : MasterKey} (hk : s.masterKey = .ok key)
    (hf : s.node.faults.read s.node.reads = none) (hr : s.shared.store.active? = .ok none) :
    (migrate oldKey).on s = (.error .noActiveRecord, looked s) := by
  rw [migrate_eq, on_holding, found_on hk hf hr, Option.elim_none]

theorem rewrap_of_bound {oldKey key : MasterKey} {r : KeyRecord} (h : r.keyId = .ok key.id) :
    (rewrap oldKey key r).on s = (.error .migrationNotRequired, s) := by
  rw [rewrap, h, on_bind]
  change (ite _ _ _ : Action KeyError MigrationOutcome).on s = _
  rw [if_pos rfl]
  rfl

/-- What it takes for the record's key to be wrapped under `key` instead of `oldKey`. -/
structure Rewrappable (oldKey key : MasterKey) (r : KeyRecord) (dek : Dek) : Prop where
  named : ∃ stored, r.keyId = .ok stored ∧ stored ≠ key.id
  unwraps : r.unwrap oldKey = .ok dek

theorem rewrap_ok {oldKey key : MasterKey} {r : KeyRecord} {x : MigrationOutcome}
    (h : (rewrap oldKey key r).on s = (.ok x, t)) : ∃ dek q, Rewrappable oldKey key r dek ∧
      q.Seals key dek r.version ∧ (q.id, q.createdAt) = s.shared.stamps s.shared.stamped ∧
      s.shared.store.replace r.id q = .ok t.shared.store ∧ t.node.cache = none := by
  obtain ⟨stored, u, hstored, h₁⟩ := bind_ok h
  obtain ⟨hid, hu⟩ := ofExcept_ok hstored
  by_cases he : stored = key.id
  · rw [if_pos he] at h₁
    cases h₁
  rw [if_neg he] at h₁
  obtain ⟨dek, v, hdek, h₂⟩ := bind_ok h₁
  obtain ⟨hdek, hv⟩ := ofExcept_ok hdek
  obtain ⟨q, w, hq, h₃⟩ := bind_ok h₂
  obtain ⟨_, y, hy, hend⟩ := bind_ok h₃
  rw [hv, hu] at hq
  obtain ⟨hprep, hseals, hstamp⟩ := sealRecord_made (mapError_ok hq)
  obtain ⟨-, hreplace⟩ := Host.perform_replace_ok (replace_ok hy)
  rw [hprep.store] at hreplace
  cases hend
  exact ⟨dek, q, ⟨⟨stored, hid, he⟩, hdek⟩, hseals, hstamp, hreplace, rfl⟩

theorem rewrap_succeeds {oldKey key : MasterKey} {r : KeyRecord} {dek : Dek} (h : Rewrappable oldKey key r dek)
    (hdraw : s.shared.random.fails s.shared.random.attempts = none)
    (hf : s.node.faults.replace s.node.writes = none)
    (hst : ∀ q, q.active = true → (q.id, q.createdAt) = s.shared.stamps s.shared.stamped →
      ∃ store, s.shared.store.replace r.id q = .ok store) : (rewrap oldKey key r).Succeeds s := by
  obtain ⟨stored, hid, hne⟩ := h.named
  refine .bind (.ofExcept hid) fun x u hx => ?_
  obtain ⟨hx, hu⟩ := ofExcept_ok hx
  cases hid.symm.trans hx
  subst hu
  rw [if_neg hne]
  refine .bind (.ofExcept h.unwraps) fun d v hd => ?_
  obtain ⟨hd, hv⟩ := ofExcept_ok hd
  subst hv
  have hseal : (sealRecord d key r.version).Succeeds v := by
    refine .bind (.of_fst (x := .wrap d key (v.shared.random.octets 12 (v.shared.random.drawn.count 12))
      (some ⟨key.id, r.version⟩)) ?_) fun w t _ => ⟨_, _, rfl⟩
    rw [on_wrapDek]
    simp only [Random.draw, hdraw]
  refine .bind (.mapError _ hseal) fun q w hq => ?_
  obtain ⟨hprep, hseals, hstamp⟩ := sealRecord_made (mapError_ok hq)
  obtain ⟨store, hstore⟩ := hst q hseals.active hstamp
  rw [← hprep.store] at hstore
  rw [← hprep.faults, ← hprep.writes] at hf
  have hreplace : (Action.replace r.id q).Succeeds w := by
    refine (Succeeds.ask (.replace r.id q)).bind fun x t hx => .ofExcept (x := ()) ?_
    rw [on_ask] at hx
    cases hx
    simp only [Host.perform, hf, Host.write, Store.settle, hstore]
  exact hreplace.bind fun _ _ _ => .bind (.ask _) fun _ _ _ => .pure _

/-! ## Afterwards -/

/-- Attestation stands for `key`, and the store calls and the draw of a migration
are granted. The next id is not taken, and the clock shows a time that is read
again. -/
structure Enabled (key : MasterKey) (s : Host) : Prop where
  attested : s.masterKey = .ok key
  reads : s.node.faults.read s.node.reads = none
  readable : ∃ o, s.shared.store.active? = .ok o
  draws : s.shared.random.fails s.shared.random.attempts = none
  writes : s.node.faults.replace s.node.writes = none
  free : s.shared.store.Free (s.shared.stamps s.shared.stamped).1
  clock : s.shared.store.Reads (s.shared.stamps s.shared.stamped).2

theorem migrate_succeeds {oldKey key : MasterKey} {r : KeyRecord} {dek : Dek} (hs : s.shared.store.AtMostOneActive)
    (hg : Enabled key s) (hr : s.shared.store.active? = .ok (some r)) (h : Rewrappable oldKey key r dek) :
    (migrate oldKey).Succeeds s := by
  have hl := looked_looked s
  have hx : (rewrap oldKey key r).Succeeds (looked s) := by
    refine rewrap_succeeds h ?_ ?_ fun q hq hstamp => ?_
    · rw [hl.shared]
      exact hg.draws
    · rw [hl.faults, hl.writes]
      exact hg.writes
    · rw [hl.shared] at hstamp ⊢
      have hfree := hg.free
      rw [← hstamp] at hfree
      obtain ⟨store, -, hreplace, -⟩ := Store.replace_active hs hr hq
      exact ⟨store, hreplace hfree⟩
  obtain ⟨x, t, hx⟩ := hx
  exact ⟨x, t, (migrate_on hg.attested hg.reads hr).trans hx⟩

/-- The record `q` has taken the place of `r`, for the same key `dek`, and it is
bound to `key`. Every manager that runs under `key` gets the key from it, and has
nothing left to migrate. -/
structure Rewrapped (oldKey key : MasterKey) (s t : Host) (r q : KeyRecord) (dek : Dek) : Prop where
  active : s.shared.store.active? = .ok (some r)
  unwrapped : r.unwrap oldKey = .ok dek
  replaced : Store.Replaced r q s.shared.store t.shared.store
  inForce : t.shared.store.active? = .ok (some q)
  alone : t.shared.store.AtMostOneActive
  names : q.keyId = .ok key.id
  version : q.version = r.version
  unwraps : q.unwrap key = .ok dek
  cache : t.node.cache = none
  obtained : ∀ n : Node, n.cache = none → n.faults.read n.reads = none → Host.masterKey ⟨t.shared, n⟩ = .ok key →
    (currentDek.on ⟨t.shared, n⟩).1 = .ok dek
  final : ∀ (n : Node) (k : MasterKey), n.faults.read n.reads = none → Host.masterKey ⟨t.shared, n⟩ = .ok key →
    ∃ n', n'.cache = n.cache ∧ (migrate k).on ⟨t.shared, n⟩ = (.error .migrationNotRequired, ⟨t.shared, n'⟩)

theorem migrate_rewrapped {oldKey key : MasterKey} {x : MigrationOutcome} (hs : s.shared.store.AtMostOneActive)
    (hg : Enabled key s) (h : (migrate oldKey).on s = (.ok x, t)) :
    ∃ r q dek, Rewrappable oldKey key r dek ∧ Rewrapped oldKey key s t r q dek := by
  obtain ⟨o, ho⟩ := hg.readable
  cases o with
  | none => rw [migrate_of_none hg.attested hg.reads ho] at h; cases h
  | some r =>
    rw [migrate_on hg.attested hg.reads ho] at h
    obtain ⟨dek, q, hr, hseals, hstamp, hreplace, hcache⟩ := rewrap_ok h
    rw [(looked_looked s).shared] at hstamp hreplace
    obtain ⟨store, hreplaced, -, huniq⟩ := Store.replace_active hs ho hseals.active
    rw [← huniq _ hreplace] at hreplaced
    have hclock := hg.clock
    rw [← hstamp] at hclock
    have hactive := hreplaced.active? hseals.active hclock
    refine ⟨r, q, dek, hr, ho, hr.unwraps, hreplaced, hactive, hreplaced.atMostOneActive, hseals.keyId,
      hseals.version_eq, hseals.unwrap, hcache, fun n hn hf hk => ?_, fun n k hf hk => ?_⟩
    · exact currentDek_of_openWith hn hf hk hactive (KeyRecord.openWith_eq_ok.mpr ⟨hseals.keyId, hseals.unwrap⟩)
    · -- the new record is bound to `key`, whatever old key is offered
      have hl := looked_looked ⟨t.shared, n⟩
      refine ⟨(looked ⟨t.shared, n⟩).node, hl.cache, ?_⟩
      rw [migrate_on hk hf hactive, rewrap_of_bound hseals.keyId]
      exact congrArg (Prod.mk _) (Host.mk.injEq .. ▸ ⟨hl.shared, rfl⟩)

/-- A migration succeeds exactly if the active record can be unwrapped under the
old key and names another one than the running code's. Then the store has the
same key, bound to the running code. Over a table, the clock is one that shows years
of four digits, so that the record can be read again. -/
theorem migrate_rewraps (oldKey : MasterKey) {key : MasterKey} (hs : s.shared.store.AtMostOneActive)
    (hg : Enabled key s) :
    ((∃ x t, (migrate oldKey).on s = (.ok x, t)) ↔
      ∃ r stored w dek, s.shared.store.active? = .ok (some r) ∧ r.keyId = .ok stored ∧ stored ≠ key.id ∧
        r.wrapped = .ok w ∧ w.unwrap oldKey (some ⟨stored, r.version⟩) = .ok dek) ∧
    ∀ x t, (migrate oldKey).on s = (.ok x, t) → ∃ r q dek, Rewrapped oldKey key s t r q dek := by
  refine ⟨⟨?_, ?_⟩, ?_⟩
  · rintro ⟨x, t, h⟩
    obtain ⟨r, q, dek, ⟨⟨stored, hid, hne⟩, hu⟩, hr⟩ := migrate_rewrapped hs hg h
    obtain ⟨w, hw, hu⟩ := (KeyRecord.unwrap_eq_ok_iff hid).mp hu
    exact ⟨r, stored, w, dek, hr.active, hid, hne, hw, hu⟩
  · rintro ⟨r, stored, w, dek, hr, hid, hne, hw, hu⟩
    have hrew : Rewrappable oldKey key r dek := ⟨⟨stored, hid, hne⟩, (KeyRecord.unwrap_eq_ok_iff hid).mpr ⟨w, hw, hu⟩⟩
    exact migrate_succeeds hs hg hr hrew
  · intro x t h
    obtain ⟨r, q, dek, -, hr⟩ := migrate_rewrapped hs hg h
    exact ⟨r, q, dek, hr⟩

theorem exists_foreign (id : MasterKeyId) : ∃ stored : MasterKeyId, stored ≠ id := by
  by_cases h : (⟨.ofBytes 8 []⟩ : MasterKeyId) = id
  · exact ⟨⟨.ofBytes 8 [1]⟩, fun h' => absurd (h.trans h'.symm) (by decide)⟩
  · exact ⟨_, h⟩

theorem migrate_rewraps_once : ∃ (s : Host) (oldKey key : MasterKey), s.shared.store.AtMostOneActive ∧ Enabled key s ∧
    ∃ x t r q dek, (migrate oldKey).on s = (.ok x, t) ∧ Rewrapped oldKey key s t r q dek := by
  obtain ⟨a, key, hk⟩ := AttestationReport.exists_masterKey
  obtain ⟨stored, hne⟩ := exists_foreign key.id
  let dek : Dek := ⟨.ofBytes 32 []⟩
  let w : WrappedDek := .wrap dek key (.ofBytes 12 []) (some ⟨stored, KeyVersion.first⟩)
  let r : KeyRecord := .make "" ⟨⟨1970, 1, 1⟩, ⟨0, 0, 0⟩, by decide⟩ w stored KeyVersion.first
  let s : Host := ⟨{ (Host.attested a).shared with store := .memory ⟨[r]⟩ }, .fresh (.scripted fun _ => .ok a)⟩
  have hs : s.shared.store.AtMostOneActive := List.length_filter_le ..
  have hg : Enabled key s := ⟨(Host.masterKey_of_report rfl).trans hk, rfl, ⟨some r, rfl⟩, rfl, rfl, trivial, .inl ⟨_, rfl⟩⟩
  have h := migrate_rewraps key hs hg
  obtain ⟨x, t, hx⟩ := h.1.mpr ⟨r, stored, w, dek, rfl, KeyRecord.keyId_make .., hne, KeyRecord.wrapped_make ..,
    WrappedDek.unwrap_wrap ..⟩
  obtain ⟨r', q, d, hr⟩ := h.2 x t hx
  exact ⟨s, key, key, hs, hg, x, t, r', q, d, hx, hr⟩

end KeyManager

end AttestedVault
