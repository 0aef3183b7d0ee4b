import AttestedVault.Proofs.ActiveRecord

/-!
# Outcomes

What an operation that succeeds has read, what it has written and which key it
has used, when it runs alone.
-/

namespace AttestedVault

variable {ε α β : Type} {s t : Host}

/-- The master key that the next attestation yields. -/
def Host.masterKey (h : Host) : Except KeyError MasterKey :=
  match (h.node.attestor.report h.node.asked).1 with
  | .ok r => r.masterKey
  | .error e => .error (.attestation e)

theorem Host.masterKey_of_report {r : AttestationReport}
    (h : (s.node.attestor.report s.node.asked).1 = .ok r) : s.masterKey = r.masterKey := by
  rw [masterKey, h]

def Host.withCache (h : Host) (c : Option Dek) : Host := { h with node := { h.node with cache := c } }

theorem Host.mem_of_masterKey {K : KeyRing} {k : MasterKey} (hw : s.node.attestor.Within K)
    (h : s.masterKey = .ok k) : K.mem k := by
  unfold masterKey at h
  split at h
  · rename_i r hr
    exact hw.mem hr h
  · cases h

namespace Action

theorem quiet_ok {a : Action ε β} {f : β → Action ε α} {y : α} (ha : a.Only Effect.isQuiet)
    (h : (a >>= f).on s = (.ok y, t)) :
    ∃ x u, a.on s = (.ok x, u) ∧ s.Same u ∧ (f x).on u = (.ok y, t) := by
  obtain ⟨x, u, hx, hy⟩ := bind_ok h
  have hs := same_of_quiet ha s
  rw [hx] at hs
  exact ⟨x, u, hx, hs, hy⟩

theorem readActive_ok {o : Option KeyRecord} (h : readActive.on s = (.ok o, t)) :
    s.shared.store.active? = .ok o := by
  obtain ⟨x, u, hx, ho⟩ := bind_ok h
  obtain ⟨hx', -⟩ := ofExcept_ok ho
  have hr : (Host.perform .readActive s).1 = x := Except.ok.inj (congrArg Prod.fst hx)
  exact Host.read_ok (hr.trans hx')

theorem readActive_on {o : Option KeyRecord} (hf : s.node.faults.read s.node.reads = none)
    (ho : s.shared.store.active? = .ok o) : readActive.on s = (.ok o, (Host.perform .readActive s).2) := by
  have hr : (Host.perform .readActive s).1 = Except.ok o := (Host.read_of_none hf).trans ho
  change ((Host.perform .readActive s).1.mapError KeyError.store, (Host.perform .readActive s).2) = _
  rw [hr]
  rfl

theorem replace_ok {previous : String} {r : KeyRecord} (h : (replace previous r).on s = (.ok (), t)) :
    Host.perform (.replace previous r) s = (Except.ok (), t) := by
  obtain ⟨x, u, hx, ho⟩ := bind_ok h
  obtain ⟨hx', rfl⟩ := ofExcept_ok ho
  have hp : Host.perform (.replace previous r) s = (x, t) := by
    rw [on_ask] at hx
    cases hx
    rfl
  rw [hp, hx']
  rfl

end Action

namespace KeyManager

open AttestedVault.Action

theorem currentMasterKey_on (s : Host) : currentMasterKey.on s = (s.masterKey, (Host.perform .attest s).2) := by
  change (ofExcept .attestation (s.node.attestor.report s.node.asked).1 >>=
    fun r => ofExcept id r.masterKey : Action KeyError MasterKey).on _ = _
  unfold Host.masterKey
  cases (s.node.attestor.report s.node.asked).1 with
  | error e => rfl
  | ok r => exact on_ofExcept_id r.masterKey _

theorem currentMasterKey_bind {k : MasterKey} (hk : s.masterKey = .ok k) (f : MasterKey → Action KeyError α) :
    (currentMasterKey >>= f).on s = (f k).on (Host.perform .attest s).2 := by
  rw [on_bind, currentMasterKey_on, hk]

theorem currentMasterKey_ok {k : MasterKey} (h : currentMasterKey.on s = (.ok k, t)) : s.masterKey = .ok k := by
  rw [currentMasterKey_on] at h
  exact congrArg Prod.fst h

theorem activeRecord_ok {r : KeyRecord} (h : activeRecord.on s = (.ok r, t)) :
    s.shared.store.active? = .ok (some r) := by
  obtain ⟨o, u, ho, hr⟩ := bind_ok h
  cases o with
  | none => cases hr
  | some r' =>
    cases hr
    exact readActive_ok ho

theorem sealRecord_ok {ε : Type} {f : CryptoError → ε} {dek : Dek} {key : MasterKey} {version : String}
    {r : KeyRecord} (h : (mapError f (sealRecord dek key version)).on s = (.ok r, t)) : r.Seals key dek version :=
  (sealRecord_yields dek key version).on (mapError_ok h)

/-- How a key is had from the store: its active record is opened, or there is
none and a first one is stored. -/
inductive Loaded (dek : Dek) (s t : Host) : Prop
  | opened (key : MasterKey) (r : KeyRecord) (attested : s.masterKey = .ok key)
      (active : s.shared.store.active? = .ok (some r)) (opens : r.openWith key = .ok dek) (same : s.Same t)
  | created (key : MasterKey) (r : KeyRecord) (u : Host) (attested : s.masterKey = .ok key)
      (seals : r.Seals key dek KeyVersion.first) (same : s.Same u)
      (create : Host.perform (.create r) u = (Except.ok (), t))

theorem loadDek_ok {dek : Dek} (h : loadDek.on s = (.ok dek, t)) : Loaded dek s t := by
  obtain ⟨key, u₁, hkey, hs₁, h⟩ := quiet_ok currentMasterKey_quiet h
  have hkey := currentMasterKey_ok hkey
  obtain ⟨o, u₂, hread, hs₂, h⟩ := quiet_ok readActive_quiet h
  have ho : s.shared.store.active? = .ok o := hs₁.1 ▸ readActive_ok hread
  cases o with
  | some r =>
    obtain ⟨hd, rfl⟩ := ofExcept_ok h
    exact .opened key r hkey ho hd (hs₁.trans hs₂)
  | none =>
    obtain ⟨d, u₃, -, hs₃, h⟩ := quiet_ok (.mapError _ generateDek_local.quiet) h
    obtain ⟨r, u₄, hr, hs₄, h⟩ := quiet_ok (.mapError _ (sealRecord_local _ _ _).quiet) h
    have hs := ((hs₁.trans hs₂).trans hs₃).trans hs₄
    obtain ⟨x, u₅, hx, h⟩ := bind_ok h
    have hp : Host.perform (.create r) u₄ = (x, u₅) := by
      rw [on_ask] at hx
      cases hx
      rfl
    cases (x : Except StoreError Unit) with
    | ok x =>
      cases h
      exact .created key r u₄ hkey (sealRecord_ok hr) hs hp
    | error e =>
      have hs₅ : s.Same u₅ := hs.trans (Host.same_of_create hp)
      by_cases he : e = .activeRecordExists
      · subst he
        obtain ⟨o, u₆, hread, hs₆, h⟩ := quiet_ok readActive_quiet h
        have ho' : s.shared.store.active? = .ok o := hs₅.1 ▸ readActive_ok hread
        cases ho.symm.trans ho'
        cases h
      · cases e <;> first | exact absurd rfl he | cases h

theorem currentDek_on (s : Host) : currentDek.on s =
    match s.node.cache with
    | some dek => (.ok dek, s)
    | none =>
      match loadDek.on s with
      | (.ok dek, t) => (.ok dek, t.withCache (some dek))
      | (.error e, t) => (.error e, t) := by
  change (match s.node.cache with | some dek => _ | none => _ : Action KeyError Dek).on s = _
  cases hc : s.node.cache with
  | some dek => rfl
  | none =>
    refine (on_holding ..).trans ?_
    change (match s.node.cache with | some dek => _ | none => _ : Action KeyError Dek).on s = _
    rw [hc]
    change (loadDek >>= fun dek => ask (.remember dek) >>= fun _ => pure dek : Action KeyError Dek).on s = _
    rw [on_bind]
    cases loadDek.on s with
    | mk r t => cases r <;> rfl

theorem currentDek_ok {dek : Dek} (h : currentDek.on s = (.ok dek, t)) :
    s.node.cache = some dek ∧ t = s ∨
      s.node.cache = none ∧ ∃ u, Loaded dek s u ∧ t = u.withCache (some dek) := by
  rw [currentDek_on] at h
  cases hc : s.node.cache with
  | some d =>
    rw [hc] at h
    cases h
    exact .inl ⟨rfl, rfl⟩
  | none =>
    rw [hc] at h
    cases hl : loadDek.on s with
    | mk r u =>
      rw [hl] at h
      cases r with
      | ok d =>
        cases h
        exact .inr ⟨rfl, u, loadDek_ok hl, rfl⟩
      | error e => cases h

theorem currentDek_of_openWith {key : MasterKey} {r : KeyRecord} {dek : Dek} (hc : s.node.cache = none)
    (hf : s.node.faults.read s.node.reads = none) (hk : s.masterKey = .ok key)
    (hr : s.shared.store.active? = .ok (some r)) (ho : r.openWith key = .ok dek) :
    (currentDek.on s).1 = .ok dek := by
  have hload : (loadDek.on s).1 = .ok dek := by
    rw [loadDek, currentMasterKey_bind hk, on_bind, readActive_on (s := (Host.perform .attest s).2) hf hr]
    change (r.openWith key).mapError id = _
    rw [ho]
    rfl
  rw [currentDek_on, hc]
  cases hl : loadDek.on s with
  | mk x u =>
    rw [hl] at hload
    cases hload
    rfl

/-- What a rotation to `dek` has read and written. -/
inductive Rotated (dek : Dek) (s t : Host) : Prop
  | intro (key : MasterKey) (current r : KeyRecord) (u v : Host) (attested : s.masterKey = .ok key)
      (active : s.shared.store.active? = .ok (some current))
      (seals : r.Seals key dek (KeyVersion.next current.version)) (same : s.Same u)
      (replace : Host.perform (.replace current.id r) u = (Except.ok (), v)) (after : t = v.withCache (some dek))

theorem rotateWith_ok {lift : KeyError → ε} {c : Closure ε α} {x : RotationOutcome × α}
    (h : (rotateWith lift c.act).on s = (.ok x, t)) : ∃ dek, Rotated dek s t := by
  rw [rotateWith, on_holding, on_holding] at h
  obtain ⟨key, u₁, hkey, hs₁, h⟩ := quiet_ok (.mapError _ currentMasterKey_quiet) h
  obtain ⟨current, u₂, hcur, hs₂, h⟩ := quiet_ok (.mapError _ activeRecord_quiet) h
  obtain ⟨old, u₃, -, hs₃, h⟩ := quiet_ok (.ofExcept _ _) h
  obtain ⟨dek, u₄, -, hs₄, h⟩ := quiet_ok (.mapError _ generateDek_local.quiet) h
  obtain ⟨r, u₅, hr, hs₅, h⟩ := quiet_ok (.mapError _ (sealRecord_local _ _ _).quiet) h
  obtain ⟨result, u₆, -, hs₆, h⟩ := quiet_ok (c.isLocal _ _).quiet h
  obtain ⟨_, v, hv, h⟩ := bind_ok h
  have hcur : s.shared.store.active? = .ok (some current) := hs₁.1 ▸ activeRecord_ok (mapError_ok hcur)
  have hs : s.Same u₆ := ((((hs₁.trans hs₂).trans hs₃).trans hs₄).trans hs₅).trans hs₆
  cases h
  exact ⟨dek, .intro key current r u₆ v (currentMasterKey_ok (mapError_ok hkey)) hcur (sealRecord_ok hr) hs
    (replace_ok (mapError_ok hv)) rfl⟩

theorem rotate_ok {o : RotationOutcome} (h : rotate.on s = (.ok o, t)) : ∃ dek, Rotated dek s t := by
  obtain ⟨y, u, hy, ho⟩ := bind_ok h
  cases ho
  exact rotateWith_ok (c := .ofExcept (.ok ())) hy

/-- What a migration from `oldKey` has read and written. -/
inductive Migrated (oldKey : MasterKey) (s t : Host) : Prop
  | intro (key : MasterKey) (current r : KeyRecord) (dek : Dek) (u v : Host) (attested : s.masterKey = .ok key)
      (active : s.shared.store.active? = .ok (some current)) (unwraps : current.unwrap oldKey = .ok dek)
      (seals : r.Seals key dek current.version) (same : s.Same u)
      (replace : Host.perform (.replace current.id r) u = (Except.ok (), v)) (after : t = v.withCache none)

theorem migrate_ok {oldKey : MasterKey} {x : MigrationOutcome} (h : (migrate oldKey).on s = (.ok x, t)) :
    Migrated oldKey s t := by
  rw [migrate, on_holding] at h
  obtain ⟨key, u₁, hkey, hs₁, h⟩ := quiet_ok currentMasterKey_quiet h
  obtain ⟨current, u₂, hcur, hs₂, h⟩ := quiet_ok activeRecord_quiet h
  obtain ⟨stored, u₃, -, hs₃, h⟩ := quiet_ok (.ofExcept _ _) h
  by_cases he : stored = key.id
  · rw [if_pos he] at h
    cases h
  rw [if_neg he] at h
  obtain ⟨dek, u₄, hdek, hs₄, h⟩ := quiet_ok (.ofExcept _ _) h
  obtain ⟨r, u₅, hr, hs₅, h⟩ := quiet_ok (.mapError _ (sealRecord_local _ _ _).quiet) h
  obtain ⟨_, v, hv, h⟩ := bind_ok h
  have hcur : s.shared.store.active? = .ok (some current) := hs₁.1 ▸ activeRecord_ok hcur
  have hs : s.Same u₅ := (((hs₁.trans hs₂).trans hs₃).trans hs₄).trans hs₅
  cases h
  exact .intro key current r dek u₅ v (currentMasterKey_ok hkey) hcur (ofExcept_ok hdek).1 (sealRecord_ok hr) hs
    (replace_ok hv) rfl

end KeyManager

end AttestedVault
