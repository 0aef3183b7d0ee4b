import AttestedVault.Proofs.RecordFields
import AttestedVault.Proofs.Rewrapping

/-!
# The state as a diagnosis

The state that a manager reports foretells how every operation on the store ends,
whatever its active record holds. The answer depends on the ids alone: a record of
other code is never unwrapped.
-/

namespace AttestedVault

variable {ε ε' α β : Type} {s t : Host}

open AttestedVault.Action

/-! ## Errors -/

/-- An error that says which operation the store is ready for. -/
def KeyError.isVerdict : KeyError → Bool
  | .migrationRequired .. | .migrationNotRequired | .noActiveRecord => true
  | _ => false

theorem KeyError.isVerdict_ofCrypto (e : CryptoError) : (ofCrypto e).isVerdict = false := by
  cases e <;> rfl

namespace KeyRecord

variable {r : KeyRecord} {key : MasterKey} {u : Unwrapping}

theorem isVerdict_unwrap {e : KeyError} (h : r.unwrap key = .error e) : e.isVerdict = false := by
  obtain h | ⟨w, -, h⟩ := bind_eq_error.mp h
  · obtain ⟨c, rfl⟩ := mapError_eq_error h
    rfl
  obtain h | ⟨c, -, h⟩ := bind_eq_error.mp h
  · obtain ⟨c, rfl⟩ := mapError_eq_error h
    rfl
  · obtain ⟨c, rfl⟩ := mapError_eq_error h
    exact KeyError.isVerdict_ofCrypto c

theorem openBy_unreadable {e : RecordError} (h : r.keyId = .error e) (u : Unwrapping) (key : MasterKey) :
    r.openBy u key = .error (.invalidRecord e) := by
  rw [openBy, h]
  rfl

theorem openBy_foreign {stored : MasterKeyId} (hid : r.keyId = .ok stored) (hne : stored ≠ key.id) :
    r.openBy u key = .error (.migrationRequired stored key.id) := by
  rw [openBy_of_keyId hid, if_neg hne]

theorem isVerdict_openWith {e : KeyError} (hid : r.keyId = .ok key.id) (he : r.openWith key = .error e) :
    e.isVerdict = false := by
  rw [← openBy_unwrap, openBy_of_keyId hid, if_pos rfl] at he
  exact isVerdict_unwrap he

end KeyRecord

namespace Action

def Raises (P : ε → Prop) (a : Action ε α) : Prop := ∀ h e t, a.on h = (.error e, t) → P e

namespace Raises

variable {P : ε → Prop}

theorem pure (x : α) : (Pure.pure x : Action ε α).Raises P := by
  intro h e t ht
  cases ht

theorem ask (e : Effect) : (Action.ask e : Action ε e.Answer).Raises P := by
  intro h e t ht
  rw [on_ask] at ht
  cases ht

theorem ofExcept {f : ε' → ε} {r : Except ε' α} (h : ∀ e, r = .error e → P (f e)) :
    (Action.ofExcept f r).Raises P := by
  intro s e t ht
  cases r with
  | ok x => cases ht
  | error c =>
    cases ht
    exact h c rfl

theorem mapError {f : ε' → ε} (h : ∀ e, P (f e)) (a : Action ε' α) : (Action.mapError f a).Raises P := by
  intro s e t ht
  obtain ⟨c, -, rfl⟩ := mapError_error ht
  exact h c

theorem bind {a : Action ε α} {f : α → Action ε β} (ha : a.Raises P) (hf : ∀ x, (f x).Raises P) :
    (a >>= f).Raises P := by
  intro s e t ht
  obtain h | ⟨x, u, -, h⟩ := bind_error ht
  · exact ha s e t h
  · exact hf x u e t h

theorem replace (previous : String) (r : KeyRecord) :
    (Action.replace previous r).Raises fun e => e.isVerdict = false :=
  .bind (.ask _) fun _ => .ofExcept fun _ _ => rfl

end Raises

end Action

/-! ## Operations by what they find -/

namespace KeyManager

/-- What a rotation does once it knows the running code's key and the record. -/
def exchangeBy (u : Unwrapping) (key : MasterKey) (current : KeyRecord) :
    Action KeyError (RotationOutcome × Unit) := do
  let _ ← Action.ofExcept id (current.openBy u key)
  let version := KeyVersion.next current.version
  let dek ← Action.mapError (id ∘ .ofCrypto) generateDek
  let record ← Action.mapError (id ∘ .ofCrypto) (sealRecord dek key version)
  Action.mapError id (Action.replace current.id record)
  Action.ask (.remember dek)
  pure (⟨current.version, version, key.id⟩, ())

def rotateBy (u : Unwrapping) : Action KeyError RotationOutcome := do
  let (outcome, ()) ← Action.holding .gate .exclusive <| Action.holding .lifecycle .exclusive do
    let key ← Action.mapError id currentMasterKey
    let current ← Action.mapError id activeRecord
    exchangeBy u key current
  pure outcome

theorem rotateBy_unwrap : rotateBy KeyRecord.unwrap = rotate := rfl

theorem rotateBy_eq (u : Unwrapping) : rotateBy u =
    (holding .gate .exclusive (holding .lifecycle .exclusive (currentMasterKey >>= fun key =>
      activeRecord >>= exchangeBy u key)) >>= fun p => pure p.1) := by
  rw [rotateBy, mapError_id, mapError_id]

/-- Attestation stands for `key`, the store's active record is read as `o`, and no
key is cached. -/
structure Cold (key : MasterKey) (o : Option KeyRecord) (s : Host) : Prop where
  attested : s.masterKey = .ok key
  reads : s.node.faults.read s.node.reads = none
  active : s.shared.store.active? = .ok o
  cache : s.node.cache = none

namespace Cold

variable {key : MasterKey} {o : Option KeyRecord} {r : KeyRecord} {u : Unwrapping}

theorem state_none (h : Cold key none s) : (state.on s).1 = .ok .uninitialized := by
  rw [state, on_bind, readActive_on h.reads h.active]
  rfl

theorem state_unreadable {e : RecordError} (h : Cold key (some r) s) (he : r.keyId = .error e) :
    (state.on s).1 = .error (.invalidRecord e) := by
  rw [state, on_bind, readActive_on h.reads h.active]
  simp only [he]
  rfl

theorem state_named {stored : MasterKeyId} (h : Cold key (some r) s) (hid : r.keyId = .ok stored) : (state.on s).1 =
    .ok (if stored = key.id then .active key.id r.version else .migrationRequired stored key.id) := by
  have hk : currentMasterKeyId.on (Host.perform .readActive s).2 =
      (.ok key.id, (Host.perform .attest (Host.perform .readActive s).2).2) := by
    have hk : (Host.perform .readActive s).2.masterKey = .ok key := h.attested
    rw [currentMasterKeyId, currentMasterKey_bind hk]
    rfl
  rw [state, on_bind, readActive_on h.reads h.active]
  simp only [hid]
  change ((currentMasterKeyId >>= fun current => ite _ _ _ : Action KeyError KeyState).on _).1 = _
  rw [on_bind, hk]
  by_cases hs : stored = key.id
  · simp only [if_pos hs]
    rfl
  · simp only [if_neg hs]
    rfl

theorem loadDekBy_on (h : Cold key o s) (u : Unwrapping) : (loadDekBy u).on s =
    o.elim ((bootstrapBy u key).on (looked s)) fun r => (r.openBy u key, looked s) := by
  rw [loadDekBy, currentMasterKey_bind h.attested, on_bind,
    readActive_on (s := (Host.perform .attest s).2) h.reads h.active]
  cases o with
  | none => rfl
  | some r => exact on_ofExcept_id ..

theorem currentDekBy_some (h : Cold key (some r) s) (u : Unwrapping) :
    ((currentDekBy u).on s).1 = r.openBy u key := by
  have hc : Host.perform .cached s = (none, s) := Prod.ext h.cache rfl
  -- the cache is asked before the gate and behind it
  simp only [currentDekBy, on_bind, on_ask, hc, on_holding, h.loadDekBy_on, Option.elim_some]
  cases r.openBy u key <;> rfl

theorem rotateBy_none (h : Cold key none s) (u : Unwrapping) :
    ((rotateBy u).on s).1 = .error .noActiveRecord := by
  rw [rotateBy_eq, on_bind, on_holding, on_holding, found_on h.attested h.reads h.active, Option.elim_none]

theorem rotateBy_some (h : Cold key (some r) s) (u : Unwrapping) :
    ((rotateBy u).on s).1 = ((exchangeBy u key r).on (looked s)).1.map (·.1) := by
  rw [rotateBy_eq, on_bind, on_holding, on_holding, found_on h.attested h.reads h.active, Option.elim_some]
  cases (exchangeBy u key r).on (looked s) with
  | mk x t => cases x <;> rfl

theorem rotateBy_refused {e : KeyError} (h : Cold key (some r) s) (he : r.openBy u key = .error e) :
    ((rotateBy u).on s).1 = .error e := by
  rw [h.rotateBy_some, exchangeBy, he]
  rfl

theorem rotateBy_opened (h : Cold key (some r) s) (ho : ∀ e, r.openBy u key = .error e → e.isVerdict = false) {e : KeyError}
    (he : ((rotateBy u).on s).1 = .error e) : e.isVerdict = false := by
  have hraises : (exchangeBy u key r).Raises fun e => e.isVerdict = false := by
    simp only [exchangeBy, mapError_id]
    exact .bind (.ofExcept ho) fun _ => .bind (.mapError KeyError.isVerdict_ofCrypto _) fun _ =>
      .bind (.mapError KeyError.isVerdict_ofCrypto _) fun _ => .bind (.replace r.id _) fun _ =>
        .bind (.ask _) fun _ => .pure _
  rw [h.rotateBy_some] at he
  cases hx : (exchangeBy u key r).on (looked s) with
  | mk x t =>
    rw [hx] at he
    cases x with
    | ok x => cases he
    | error c =>
      cases he
      exact hraises _ _ _ hx

theorem migrate_none (h : Cold key none s) (old : MasterKey) : ((migrate old).on s).1 = .error .noActiveRecord := by
  rw [migrate_of_none h.attested h.reads h.active]

theorem migrate_unreadable {e : RecordError} (h : Cold key (some r) s) (he : r.keyId = .error e) (old : MasterKey) :
    ((migrate old).on s).1 = .error (.invalidRecord e) := by
  rw [migrate_on h.attested h.reads h.active, rewrap, he]
  rfl

theorem migrate_bound (h : Cold key (some r) s) (hid : r.keyId = .ok key.id) (old : MasterKey) :
    ((migrate old).on s).1 = .error .migrationNotRequired := by
  rw [migrate_on h.attested h.reads h.active, rewrap_of_bound hid]

theorem migrate_foreign {stored : MasterKeyId} (h : Cold key (some r) s) (hid : r.keyId = .ok stored)
    (hne : stored ≠ key.id) {old : MasterKey} {e : KeyError} (he : ((migrate old).on s).1 = .error e) :
    e.isVerdict = false := by
  have hraises : (rewrap old key r).Raises fun e => e.isVerdict = false := by
    rw [rewrap, hid]
    change (ite _ _ _ : Action KeyError MigrationOutcome).Raises _
    rw [if_neg hne]
    exact .bind (.ofExcept fun _ => KeyRecord.isVerdict_unwrap) fun _ =>
      .bind (.mapError KeyError.isVerdict_ofCrypto _) fun _ => .bind (.replace r.id _) fun _ =>
        .bind (.ask _) fun _ => .pure _
  rw [migrate_on h.attested h.reads h.active] at he
  exact hraises _ _ _ (Prod.ext he rfl)

end Cold

end KeyManager

/-! ## The first use -/

theorem Store.create_of_free {s : Store} {q : KeyRecord} (hs : s.AtMostOneActive) (hn : s.active? = .ok none)
    (hq : s.Free q.id) : ∃ s', s.create q = .ok s' := by
  cases s with
  | found s => exact hs.elim
  | memory s =>
    have hnone : s.records.any (·.active) = false := by
      rw [List.any_eq_false]
      exact List.find?_eq_none.mp (Except.ok.inj hn)
    exact ⟨.memory (s.insert q), by simp only [create, MemoryStore.create, hnone]; rfl⟩
  | table s =>
    have hnone : s.rows.find? (·.isActive) = none := by
      unfold active? TableStore.active? at hn
      cases hf : s.rows.find? (·.isActive) with
      | none => rfl
      | some row =>
        simp only [hf] at hn
        cases hr : row.toRecord <;> rw [hr] at hn <;> cases hn
    have hany : s.rows.any (fun p => p.isActive || p.id == q.id) = false := by
      refine List.any_eq_false.mpr fun p hp hpq => ?_
      rcases Bool.or_eq_true .. |>.mp hpq with ha | hid
      · exact List.find?_eq_none.mp hnone p hp ha
      · exact hq (List.mem_map.mpr ⟨p, hp, eq_of_beq hid⟩)
    exact ⟨.table ⟨s.rows ++ [TableRow.ofRecord q]⟩, by simp only [create, TableStore.create, hany]; rfl⟩

/-- One of the next `n` draws fails, and this is the error. -/
def Random.Starves (n : Nat) (r : Random) (e : CryptoError) : Prop :=
  ∃ i < n, ∃ reason, r.fails (r.attempts + i) = some reason ∧ e = .random reason

theorem Random.Starves.after {r r' : Random} {m n : Nat} {e : CryptoError} (h : r'.Starves n e) (hg : r.Granted m r') :
    r.Starves (m + n) e := by
  obtain ⟨i, hi, reason, hf, he⟩ := h
  rw [hg.fails, hg.attempts, Nat.add_assoc] at hf
  exact ⟨m + i, by omega, reason, hf, he⟩

theorem Random.Starves.mono {r : Random} {m n : Nat} {e : CryptoError} (h : r.Starves m e) (hmn : m ≤ n) :
    r.Starves n e := by
  obtain ⟨i, hi, h⟩ := h
  exact ⟨i, by omega, h⟩

theorem Action.draw_error {n : Nat} {e : CryptoError} (h : (draw n).on s = (.error e, t)) :
    s.shared.random.Starves 1 e := by
  rw [on_draw] at h
  cases hf : s.shared.random.fails s.shared.random.attempts with
  | none => simp only [Random.draw, hf] at h; cases h
  | some reason =>
    simp only [Random.draw, hf] at h
    cases h
    exact ⟨0, Nat.zero_lt_one, reason, hf, rfl⟩

theorem generateDek_error {e : CryptoError} (h : generateDek.on s = (.error e, t)) : s.shared.random.Starves 1 e := by
  obtain h | ⟨b, u, -, h⟩ := bind_error h
  · exact draw_error h
  · cases h

theorem sealRecord_error {dek : Dek} {key : MasterKey} {version : String} {e : CryptoError}
    (h : (sealRecord dek key version).on s = (.error e, t)) : s.shared.random.Starves 1 e := by
  obtain h | ⟨w, u, -, h⟩ := bind_error h
  · obtain h | ⟨iv, u, -, h⟩ := bind_error h
    · exact draw_error h
    · obtain h | ⟨x, v, -, h⟩ := bind_error h
      · cases h
      · cases h
  · cases h

namespace KeyManager

structure Vacant (s : Host) : Prop where
  alone : s.shared.store.AtMostOneActive
  empty : s.shared.store.active? = .ok none
  writes : s.node.faults.create s.node.writes = none
  free : s.shared.store.Free (s.shared.stamps s.shared.stamped).1

theorem Vacant.looked (h : Vacant s) : Vacant (looked s) := by
  have hl := looked_looked s
  refine ⟨?_, ?_, ?_, ?_⟩
  · rw [hl.shared]
    exact h.alone
  · rw [hl.shared]
    exact h.empty
  · rw [hl.faults, hl.writes]
    exact h.writes
  · rw [hl.shared]
    exact h.free

theorem bootstrap_error {key : MasterKey} {e : KeyError} (hv : Vacant s) (h : (bootstrap key).on s = (.error e, t)) :
    ∃ c, e = .crypto c ∧ s.shared.random.Starves 2 c := by
  have hof : ∀ {n c}, s.shared.random.Starves n c → KeyError.ofCrypto c = .crypto c := by
    rintro n c ⟨_, _, _, _, rfl⟩
    rfl
  obtain h | ⟨dek, u, hdek, h⟩ := bind_error h
  · obtain ⟨c, hc, rfl⟩ := mapError_error h
    have hs := generateDek_error hc
    exact ⟨c, hof hs, hs.mono (by decide)⟩
  have hu := generateDek_ok (mapError_ok hdek)
  obtain h | ⟨q, v, hq, h⟩ := bind_error h
  · obtain ⟨c, hc, rfl⟩ := mapError_error h
    have hs := (sealRecord_error hc).after hu.random
    exact ⟨c, hof hs, hs⟩
  -- the record is made, and nothing keeps the store from taking it
  obtain ⟨hmade, -, hstamp⟩ := sealRecord_made (mapError_ok hq)
  have hv' := hu.trans hmade
  rw [hu.stamps, hu.stamped, Nat.add_zero] at hstamp
  have hfree := hv.free
  rw [← hstamp] at hfree
  obtain ⟨store, hstore⟩ := Store.create_of_free hv.alone hv.empty hfree
  have hcreate : (Host.perform (.create q) v).1 = Except.ok () := by
    have hf : v.node.faults.create v.node.writes = none := by
      rw [hv'.faults, hv'.writes]
      exact hv.writes
    simp only [Host.perform, hf, Host.write, Store.settle, hv'.store, hstore]
    rfl
  obtain h | ⟨x, w, hx, h⟩ := bind_error h
  · cases h
  · rw [on_ask, hcreate] at hx
    cases hx
    cases h

inductive FirstUse (key : MasterKey) (s : Host) : Except KeyError Dek × Host → Prop
  | created (dek : Dek) (q : KeyRecord) (t : Host) (version : q.version = "v1") (names : q.keyId = .ok key.id)
      (unwraps : q.unwrap key = .ok dek) (installed : t.shared.store.Installed q) (cache : t.node.cache = some dek) :
      FirstUse key s (.ok dek, t)
  | starved (e : CryptoError) (t : Host) (random : s.shared.random.Starves 2 e) (same : s.Same t) :
      FirstUse key s (.error (.crypto e), t)

theorem Cold.firstUse {key : MasterKey} (h : Cold key none s) (hv : Vacant s) : FirstUse key s (currentDek.on s) := by
  have hload : loadDek.on s = (bootstrap key).on (looked s) := h.loadDekBy_on KeyRecord.unwrap
  cases hx : currentDek.on s with
  | mk x t =>
    cases x with
    | ok dek =>
      obtain ⟨hc, -⟩ | ⟨-, u, hu, rfl⟩ := currentDek_ok hx
      · rw [h.cache] at hc
        cases hc
      cases hu with
      | opened key' r attested active opens same =>
        rw [h.active] at active
        cases active
      | created key' q v attested seals same create =>
        rw [h.attested] at attested
        cases attested
        obtain rfl : (Host.perform (.create q) v).2 = u := congrArg Prod.snd create
        obtain ⟨hcreate, -⟩ := Host.write_ok (congrArg Prod.fst create)
        rw [same.1] at hcreate
        exact .created dek q _ seals.version_eq seals.keyId seals.unwrap
          (Store.create_ok hv.alone.sound seals.active hcreate) rfl
    | error e =>
      have hsame := currentDek_clean s e t hx
      rw [currentDek_on, h.cache, hload] at hx
      cases hb : (bootstrap key).on (looked s) with
      | mk x v =>
        rw [hb] at hx
        cases x with
        | ok dek => cases hx
        | error c =>
          cases hx
          obtain ⟨c, rfl, hs⟩ := bootstrap_error hv.looked hb
          rw [(looked_looked s).shared] at hs
          exact .starved c _ hs hsame

/-! ## What the state foretells -/

inductive Found (key : MasterKey) : Option KeyRecord → Prop
  | nothing : Found key none
  | unreadable (r : KeyRecord) (e : RecordError) (he : r.keyId = .error e) : Found key (some r)
  | bound (r : KeyRecord) (hid : r.keyId = .ok key.id) : Found key (some r)
  | foreign (r : KeyRecord) (stored : MasterKeyId) (hid : r.keyId = .ok stored) (hne : stored ≠ key.id) :
      Found key (some r)

theorem found (key : MasterKey) (o : Option KeyRecord) : Found key o := by
  cases o with
  | none => exact .nothing
  | some r =>
    cases hid : r.keyId with
    | error e => exact .unreadable r e hid
    | ok stored =>
      by_cases hs : stored = key.id
      · exact .bound r (hs ▸ hid)
      · exact .foreign r stored hid hs

namespace Cold

variable {key : MasterKey} {o : Option KeyRecord} {r : KeyRecord} {u : Unwrapping}

theorem uninitialized_iff (h : Cold key o s) : (state.on s).1 = .ok .uninitialized ↔ o = none := by
  cases found key o with
  | nothing => simp [h.state_none]
  | unreadable r e he => simp [h.state_unreadable he]
  | bound r hid => simp [h.state_named hid]
  | foreign r stored hid hne => simp [h.state_named hid, hne]

theorem active_iff (h : Cold key o s) : (∃ id version, (state.on s).1 = .ok (.active id version)) ↔
    ∃ r, o = some r ∧ r.keyId = .ok key.id := by
  cases found key o with
  | nothing => simp [h.state_none]
  | unreadable r e he => simp [h.state_unreadable he, he]
  | bound r hid => simp [h.state_named hid, hid]
  | foreign r stored hid hne => simp [h.state_named hid, hid, hne]

theorem noActiveRecord_iff (h : Cold key o s) : o = none ↔
    (rotate.on s).1 = .error .noActiveRecord ∧ ∀ old, ((migrate old).on s).1 = .error .noActiveRecord := by
  cases found key o with
  | nothing => exact iff_of_true rfl ⟨h.rotateBy_none _, h.migrate_none⟩
  | unreadable r e he =>
    refine iff_of_false nofun fun hx => ?_
    have hm := hx.2 key
    rw [h.migrate_unreadable he] at hm
    cases hm
  | bound r hid =>
    refine iff_of_false nofun fun hx => ?_
    have hm := hx.2 key
    rw [h.migrate_bound hid] at hm
    cases hm
  | foreign r stored hid hne =>
    refine iff_of_false nofun fun hx => ?_
    have hm := h.migrate_foreign hid hne (hx.2 key)
    cases hm

theorem migrationNotRequired_iff (h : Cold key o s) : (∃ r, o = some r ∧ r.keyId = .ok key.id) ↔
    ∀ old, ((migrate old).on s).1 = .error .migrationNotRequired := by
  cases found key o with
  | nothing =>
    refine iff_of_false (fun hx => nomatch hx.choose_spec.1) fun hx => ?_
    have hm := hx key
    rw [h.migrate_none] at hm
    cases hm
  | unreadable r e he =>
    refine iff_of_false ?_ fun hx => ?_
    · rintro ⟨_, ⟨⟩, hid⟩
      rw [he] at hid
      cases hid
    · have hm := hx key
      rw [h.migrate_unreadable he] at hm
      cases hm
  | bound r hid => exact iff_of_true ⟨r, rfl, hid⟩ fun old => h.migrate_bound hid old
  | foreign r stored hid hne =>
    refine iff_of_false ?_ fun hx => ?_
    · rintro ⟨_, ⟨⟩, hid'⟩
      rw [hid] at hid'
      exact hne (Except.ok.inj hid')
    · have hm := h.migrate_foreign hid hne (hx key)
      cases hm

theorem settled (h : Cold key (some r) s) (hid : r.keyId = .ok key.id) (a b : MasterKeyId) :
    (currentDek.on s).1 ≠ .error (.migrationRequired a b) ∧ (rotate.on s).1 ≠ .error (.migrationRequired a b) := by
  constructor
  · intro hx
    have ho : r.openWith key = .error (.migrationRequired a b) := (h.currentDekBy_some _).symm.trans hx
    cases KeyRecord.isVerdict_openWith hid ho
  · intro hx
    have ho := h.rotateBy_opened (u := KeyRecord.unwrap) (fun _ => KeyRecord.isVerdict_openWith hid) hx
    cases ho

theorem migrationRequired_iff (h : Cold key o s) (a b : MasterKeyId) : (state.on s).1 = .ok (.migrationRequired a b) ↔
    (currentDek.on s).1 = .error (.migrationRequired a b) ∧ (rotate.on s).1 = .error (.migrationRequired a b) := by
  cases found key o with
  | nothing =>
    have hr : (rotate.on s).1 = .error .noActiveRecord := h.rotateBy_none _
    simp [h.state_none, hr]
  | unreadable r e he =>
    have hr : (rotate.on s).1 = .error (.invalidRecord e) := h.rotateBy_refused (KeyRecord.openBy_unreadable he _ key)
    simp [h.state_unreadable he, hr]
  | bound r hid =>
    refine iff_of_false ?_ fun hx => (h.settled hid a b).1 hx.1
    simp [h.state_named hid]
  | foreign r stored hid hne =>
    have hc : (currentDek.on s).1 = .error (.migrationRequired stored key.id) :=
      (h.currentDekBy_some _).trans (KeyRecord.openBy_foreign hid hne)
    have hr : (rotate.on s).1 = .error (.migrationRequired stored key.id) := h.rotateBy_refused (KeyRecord.openBy_foreign hid hne)
    simp [h.state_named hid, hne, hc, hr]

/-- No way of unwrapping makes a difference to a foreign record. -/
theorem not_unwrapped (h : Cold key o s) {a b : MasterKeyId} (hs : (state.on s).1 = .ok (.migrationRequired a b))
    (u : Unwrapping) : ((currentDekBy u).on s).1 = .error (.migrationRequired a b) ∧
      ((rotateBy u).on s).1 = .error (.migrationRequired a b) := by
  cases found key o with
  | nothing => simp [h.state_none] at hs
  | unreadable r e he => simp [h.state_unreadable he] at hs
  | bound r hid => simp [h.state_named hid] at hs
  | foreign r stored hid hne =>
    simp only [h.state_named hid, hne, if_false, Except.ok.injEq, KeyState.migrationRequired.injEq] at hs
    obtain ⟨rfl, rfl⟩ := hs
    exact ⟨(h.currentDekBy_some u).trans (KeyRecord.openBy_foreign hid hne), h.rotateBy_refused (KeyRecord.openBy_foreign hid hne)⟩

end Cold

/-- With no key cached, the state tells how each operation ends: that it finds nothing
or cannot read the record's id, that the record is bound to the running code, or
that it is bound to other code. -/
theorem state_predicts {key : MasterKey} {o : Option KeyRecord} (alone : s.shared.store.AtMostOneActive)
    (h : Cold key o s) :
    ((state.on s).1 = .ok .uninitialized ↔ o = none) ∧
    (o = none ↔ (rotate.on s).1 = .error .noActiveRecord ∧
      ∀ old, ((migrate old).on s).1 = .error .noActiveRecord) ∧
    (o = none → s.node.faults.create s.node.writes = none →
      s.shared.store.Free (s.shared.stamps s.shared.stamped).1 → FirstUse key s (currentDek.on s)) ∧
    (∀ r e, o = some r → r.keyId = .error e →
      (state.on s).1 = .error (.invalidRecord e) ∧ (currentDek.on s).1 = .error (.invalidRecord e) ∧
      (rotate.on s).1 = .error (.invalidRecord e) ∧ ∀ old, ((migrate old).on s).1 = .error (.invalidRecord e)) ∧
    ((∃ id version, (state.on s).1 = .ok (.active id version)) ↔ ∃ r, o = some r ∧ r.keyId = .ok key.id) ∧
    ((∃ r, o = some r ∧ r.keyId = .ok key.id) ↔ ∀ old, ((migrate old).on s).1 = .error .migrationNotRequired) ∧
    (∀ r, o = some r → r.keyId = .ok key.id → ∀ a b, (currentDek.on s).1 ≠ .error (.migrationRequired a b) ∧
      (rotate.on s).1 ≠ .error (.migrationRequired a b)) ∧
    ∀ a b, ((state.on s).1 = .ok (.migrationRequired a b) ↔
        (currentDek.on s).1 = .error (.migrationRequired a b) ∧ (rotate.on s).1 = .error (.migrationRequired a b)) ∧
      ((state.on s).1 = .ok (.migrationRequired a b) → ∀ u, ((currentDekBy u).on s).1 = .error (.migrationRequired a b) ∧
        ((rotateBy u).on s).1 = .error (.migrationRequired a b)) := by
  refine ⟨h.uninitialized_iff, h.noActiveRecord_iff, ?_, ?_, h.active_iff, h.migrationNotRequired_iff, ?_, ?_⟩
  · rintro rfl hwrites hfree
    exact h.firstUse ⟨alone, h.active, hwrites, hfree⟩
  · rintro r e rfl he
    have hopen := fun u => KeyRecord.openBy_unreadable he u key
    exact ⟨h.state_unreadable he, (h.currentDekBy_some _).trans (hopen _), h.rotateBy_refused (hopen _),
      h.migrate_unreadable he⟩
  · rintro r rfl hid
    exact h.settled hid
  · intro a b
    exact ⟨h.migrationRequired_iff a b, h.not_unwrapped⟩

theorem state_predicts_foreign : ∃ (s : Host) (key : MasterKey) (stored : MasterKeyId),
    (state.on s).1 = .ok (.migrationRequired stored key.id) ∧
    (currentDek.on s).1 = .error (.migrationRequired stored key.id) ∧
    (rotate.on s).1 = .error (.migrationRequired stored key.id) := by
  obtain ⟨a, key, hk⟩ := AttestationReport.exists_masterKey
  obtain ⟨stored, hne⟩ := exists_foreign key.id
  let r : KeyRecord := ⟨"", "?", "?", "?", "v1", stored.toHex, true, ⟨⟨1970, 1, 1⟩, ⟨0, 0, 0⟩, by decide⟩⟩
  let s : Host := ⟨{ (Host.attested a).shared with store := .memory ⟨[r]⟩ }, .fresh (.scripted fun _ => .ok a)⟩
  have hs : s.shared.store.AtMostOneActive := List.length_filter_le ..
  have hc : Cold key (some r) s := ⟨(Host.masterKey_of_report rfl).trans hk, rfl, rfl, rfl⟩
  have hid : r.keyId = .ok stored := KeyRecord.keyId_eq_ok_iff.mpr (MasterKeyId.parse_toHex stored)
  have hstate : (state.on s).1 = .ok (.migrationRequired stored key.id) := by rw [hc.state_named hid, if_neg hne]
  obtain ⟨-, -, -, -, -, -, -, h⟩ := state_predicts hs hc
  exact ⟨s, key, stored, hstate, (h stored key.id).1.mp hstate⟩

end KeyManager

end AttestedVault
