import AttestedVault.Host.Fleet
import AttestedVault.Proofs.NewRecords
import AttestedVault.Proofs.Success

/-!
# Rotation and the caches of others

A rotation is seen at once by the manager that makes it and by those that have
no key cached. A manager with a cached key goes on under that key, which has
been retired, until its cache is cleared.
-/

namespace AttestedVault

variable {ε α : Type} {K : KeyRing} {s t : Host}

/-! ## Cached keys -/

namespace KeySource

open AttestedVault.Action

theorem encrypt_of_cache {d : Dek} (hc : s.node.cache = some d) (text : String) :
    (attested.encrypt text).on s = (Credential.encrypt d text).on s := by
  rw [encrypt_on, on_bind, on_mapError, KeyManager.currentDek_on, hc]
  rfl

theorem encrypt_same {d : Dek} (hc : s.node.cache = some d) (text : String) :
    s.Same ((attested.encrypt text).on s).2 := by
  rw [encrypt_of_cache hc]
  exact same_of_quiet (Credential.encrypt_local d text).quiet s

theorem decrypt_same {d : Dek} (hc : s.node.cache = some d) (c : String) :
    s.Same ((attested.decrypt c).on s).2 := by
  rw [decrypt_on, KeyManager.currentDek_on, hc]
  exact .refl s

theorem rotate_ok {o : RotationOutcome} (h : attested.rotate.on s = (.ok o, t)) :
    ∃ dek, KeyManager.Rotated dek s t := KeyManager.rotate_ok (mapError_ok h)

theorem rotateAndReencrypt_ok {cs ds : List String} (h : (attested.rotateAndReencrypt cs).on s = (.ok ds, t)) :
    ∃ dek, KeyManager.Rotated dek s t := by
  obtain ⟨y, u, hy, ho⟩ := bind_ok h
  cases ho
  exact KeyManager.rotateWith_ok (c := .reencrypt cs) hy

theorem rotate_clean : attested.rotate.Clean := .mapError _ KeyManager.rotate_clean

theorem rotateAndReencrypt_clean (cs : List String) : (attested.rotateAndReencrypt cs).Clean :=
  .bind_sure (KeyManager.rotateWith_clean _ (.reencrypt cs)) fun _ => .pure _

end KeySource

/-! ## Calls -/

/-- Managers in service, those of them whose cached key was retired by another
one, and what the others have encrypted since the last rotation, with the texts. -/
structure Deployment where
  fleet : Fleet
  stale : Nat → Bool
  issued : List (String × String)

inductive Call
  | encrypt (text : String)
  | decrypt (credential : String)
  | rotate
  | reencrypt (credentials : List String)
  | clearCache
  /-- A new manager takes over. -/
  | restart (a : Attestor)

namespace Deployment

def rotated (v : Deployment) (n : Nat) : Except ε α × Host → Deployment
  | (.ok _, h) => ⟨v.fleet.put n h, fun m => m != n && (v.fleet.nodes m).cache.isSome, []⟩
  | (.error _, h) => ⟨v.fleet.put n h, v.stale, v.issued⟩

def step (v : Deployment) (n : Nat) : Call → Deployment
  | .encrypt text =>
    match (KeySource.attested.encrypt text).on (v.fleet.host n) with
    | (.ok c, h) => ⟨v.fleet.put n h, v.stale, if v.stale n then v.issued else (c, text) :: v.issued⟩
    | (.error _, h) => ⟨v.fleet.put n h, v.stale, v.issued⟩
  | .decrypt c => ⟨v.fleet.put n ((KeySource.attested.decrypt c).on (v.fleet.host n)).2, v.stale, v.issued⟩
  | .rotate => v.rotated n (KeySource.attested.rotate.on (v.fleet.host n))
  | .reencrypt cs => v.rotated n ((KeySource.attested.rotateAndReencrypt cs).on (v.fleet.host n))
  | .clearCache =>
    ⟨v.fleet.put n (KeyManager.clearCache.run Host.perform (v.fleet.host n)).2, fun m => m != n && v.stale m, v.issued⟩
  | .restart a => ⟨v.fleet.put n ⟨v.fleet.shared, .fresh a⟩, fun m => m != n && v.stale m, v.issued⟩

/-- What every run keeps: who is not stale has the key in force, if any, and what
was issued opens with that key. -/
structure Sound (K : KeyRing) (v : Deployment) : Prop where
  sound : v.fleet.shared.store.Sound
  within : ∀ n, (v.fleet.nodes n).attestor.Within K
  faults : ∀ n, (v.fleet.nodes n).faults = .none
  coherent : ∀ n, v.stale n = false → (v.fleet.host n).Coherent K
  opens : ∀ c p, (c, p) ∈ v.issued → ∃ d, v.fleet.shared.store.Holds K d ∧ Credential.decrypt d c = .ok p

namespace Sound

variable {v : Deployment} {n : Nat}

theorem fit (hv : v.Sound K) (hc : (v.fleet.host n).Coherent K) : (v.fleet.host n).Fit K :=
  ⟨hv.sound, hv.within n, hv.faults n, hc⟩

theorem put (hv : v.Sound K) {stale : Nat → Bool} {issued : List (String × String)}
    (sound : t.shared.store.Sound) (within : t.node.attestor.Within K) (faults : t.node.faults = .none)
    (self : stale n = false → t.Coherent K)
    (others : ∀ m ≠ n, stale m = false → Host.Coherent K ⟨t.shared, v.fleet.nodes m⟩)
    (opens : ∀ c p, (c, p) ∈ issued → ∃ d, t.shared.store.Holds K d ∧ Credential.decrypt d c = .ok p) :
    Sound K ⟨v.fleet.put n t, stale, issued⟩ where
  sound := sound
  within := Fleet.forall_put (P := fun _ a => a.attestor.Within K) within fun m _ => hv.within m
  faults := Fleet.forall_put (P := fun _ a => a.faults = .none) faults fun m _ => hv.faults m
  coherent := Fleet.forall_put (P := fun m a => stale m = false → Host.Coherent K ⟨t.shared, a⟩) self others
  opens := opens

theorem continues (hv : v.Sound K) (ht : (v.fleet.host n).Continues K t) :
    Sound K ⟨v.fleet.put n t, v.stale, v.issued⟩ := by
  refine hv.put ht.fit.sound ht.fit.within ht.fit.faults (fun _ => ht.fit.coherent) (fun m _ hm d hd => ?_) ?_
  · exact ht.holds d (hv.coherent m hm d hd)
  · intro c p hc
    obtain ⟨d, hd, hp⟩ := hv.opens c p hc
    exact ⟨d, ht.holds d hd, hp⟩

theorem of_store (hv : v.Sound K) {stale : Nat → Bool} (hst : t.shared.store = v.fleet.shared.store)
    (hw : t.node.attestor.Within K) (hf : t.node.faults = .none)
    (self : stale n = false → ∀ d, t.node.cache = some d → v.fleet.shared.store.Holds K d)
    (others : ∀ m ≠ n, stale m = false → v.stale m = false) : Sound K ⟨v.fleet.put n t, stale, v.issued⟩ := by
  refine hv.put ?_ hw hf (fun hn d hd => ?_) (fun m hm hs d hd => ?_) ?_
  · rw [hst]
    exact hv.sound
  · rw [hst]
    exact self hn d hd
  · rw [hst]
    exact hv.coherent m (others m hm hs) d hd
  · rw [hst]
    exact hv.opens

theorem of_same (hv : v.Sound K) (hs : (v.fleet.host n).Same t) (hw : t.node.attestor.Within K)
    (hf : t.node.faults = .none) : Sound K ⟨v.fleet.put n t, v.stale, v.issued⟩ :=
  hv.of_store hs.1 hw hf (fun hn d hd => hv.coherent n hn d (hs.2 ▸ hd)) fun _ _ h => h

theorem act {a : Action ε α} {r : Except ε α} (hv : v.Sound K) (h : a.on (v.fleet.host n) = (r, t))
    (hsame : (v.fleet.nodes n).cache ≠ none → (v.fleet.host n).Same t)
    (hcont : (v.fleet.host n).Fit K → (v.fleet.host n).Continues K t) :
    Sound K ⟨v.fleet.put n t, v.stale, v.issued⟩ := by
  cases hc : (v.fleet.nodes n).cache with
  | none =>
    refine hv.continues (hcont (hv.fit fun d hd => ?_))
    rw [show (v.fleet.host n).node.cache = none from hc] at hd
    cases hd
  | some d =>
    -- the store is not asked, so it does not matter whether the key is stale
    refine hv.of_same (hsame ?_) (Action.within_on (hv.within n) h) ((Action.faults_on h).trans (hv.faults n))
    rw [hc]
    exact Option.some_ne_none d

theorem rotated (hv : v.Sound K) {a : Action ε α} (ha : a.Clean)
    (hok : ∀ {s x t}, a.on s = (.ok x, t) → ∃ dek, KeyManager.Rotated dek s t) :
    (v.rotated n (a.on (v.fleet.host n))).Sound K := by
  cases h : a.on (v.fleet.host n) with
  | mk r t =>
    have hw := Action.within_on (hv.within n) h
    have hf := (Action.faults_on h).trans (hv.faults n)
    cases r with
    | error e => exact hv.of_same (ha _ e t h) hw hf
    | ok x =>
      obtain ⟨dek, hr⟩ := hok h
      obtain ⟨hst, hd, hc⟩ := hr.holds hv.sound (hv.within n)
      refine hv.put hst hw hf (fun _ d hd' => ?_) (fun m hm hs d hd' => ?_) nofun
      · cases hc.symm.trans hd'
        exact hd
      -- the others that are not stale have no key in the cache
      · change (v.fleet.nodes m).cache = some d at hd'
        simp [hm, hd'] at hs

theorem of_empty (hv : v.Sound K) (hs : t.shared = v.fleet.shared) (hw : t.node.attestor.Within K)
    (hf : t.node.faults = .none) (hc : t.node.cache = none) :
    Sound K ⟨v.fleet.put n t, fun m => m != n && v.stale m, v.issued⟩ := by
  refine hv.of_store (congrArg (·.store) hs) hw hf (fun _ d hd => ?_) fun m hm h => by simpa [hm] using h
  rw [hc] at hd
  cases hd

theorem issue {c p : String} {d : Dek} (hv : v.Sound K) (hd : v.fleet.shared.store.Holds K d)
    (hp : Credential.decrypt d c = .ok p) : Sound K ⟨v.fleet, v.stale, (c, p) :: v.issued⟩ := by
  refine { hv with opens := fun c' p' hc => ?_ }
  rcases List.mem_cons.mp hc with he | hc
  · cases he
    exact ⟨d, hd, hp⟩
  · exact hv.opens c' p' hc

theorem step (hv : v.Sound K) (n : Nat) {c : Call} (hc : ∀ a, c = .restart a → a.Within K) :
    (v.step n c).Sound K := by
  cases c with
  | encrypt text =>
    have hact : ∀ {r t}, (KeySource.attested.encrypt text).on (v.fleet.host n) = (r, t) →
        Sound K ⟨v.fleet.put n t, v.stale, v.issued⟩ := by
      intro r t hx
      refine hv.act hx (fun hc => ?_) fun hf => KeySource.encrypt_continues hf hx
      obtain ⟨d, hd⟩ := Option.ne_none_iff_exists'.mp hc
      have hs := KeySource.encrypt_same (s := v.fleet.host n) hd text
      rwa [hx] at hs
    cases hx : (KeySource.attested.encrypt text).on (v.fleet.host n) with
    | mk r t =>
      simp only [Deployment.step, hx]
      cases r with
      | error e => exact hact hx
      | ok c =>
        cases hs : v.stale n with
        | true => exact hact hx
        | false =>
          obtain ⟨d, hd, hp⟩ := KeySource.encrypt_ok (hv.fit (hv.coherent n hs)) hx
          exact (hact hx).issue hd hp
  | decrypt c =>
    refine hv.act (r := _) rfl (fun hc => ?_) fun hf => KeySource.decrypt_continues hf rfl
    obtain ⟨d, hd⟩ := Option.ne_none_iff_exists'.mp hc
    exact KeySource.decrypt_same (s := v.fleet.host n) hd c
  | rotate => exact hv.rotated KeySource.rotate_clean KeySource.rotate_ok
  | reencrypt cs => exact hv.rotated (KeySource.rotateAndReencrypt_clean cs) KeySource.rotateAndReencrypt_ok
  | clearCache => exact hv.of_empty rfl (hv.within n) (hv.faults n) rfl
  | restart a => exact hv.of_empty rfl (hc a rfl) rfl rfl

end Sound

/-- What managers in service come to that start on one store. -/
inductive Run (K : KeyRing) : Deployment → Prop
  | start {shared : Shared} {a : Nat → Attestor} (sound : shared.store.Sound) (within : ∀ n, (a n).Within K) :
      Run K ⟨⟨shared, fun n => .fresh (a n)⟩, fun _ => false, []⟩
  | step {v : Deployment} (n : Nat) (c : Call) (before : Run K v) (admits : ∀ a, c = .restart a → a.Within K) :
      Run K (v.step n c)

namespace Run

variable {v : Deployment}

theorem sound (h : Run K v) : v.Sound K := by
  induction h with
  | start sound within => exact ⟨sound, within, fun _ => rfl, fun _ _ => nofun, nofun⟩
  | step n c _ admits ih => exact ih.step n admits

/-- A manager that starts now reads what was issued since the last rotation, if
the active record can be read and its code is the same. -/
theorem issued_visible {r : AttestationReport} (h : Run (.ofReport r) v) : ∀ c p, (c, p) ∈ v.issued →
    (∃ o, v.fleet.shared.store.active? = .ok o) →
      ((KeySource.attested.decrypt c).on ⟨v.fleet.shared, .fresh (.scripted fun _ => .ok r)⟩).1 = .ok p := by
  intro c p hc ⟨o, ho⟩
  obtain ⟨d, hd, hp⟩ := h.sound.opens c p hc
  have hs := h.sound.sound
  obtain ⟨q, rfl⟩ : ∃ q, o = some q := by
    refine Option.ne_none_iff_exists'.mp fun hn => hd.active?_ne_none ?_
    rw [ho, hn]
  obtain ⟨k, hk, hid⟩ := hd.key hs ho
  have hfit : Host.Fit (.ofReport r) ⟨v.fleet.shared, .fresh (.scripted fun _ => .ok r)⟩ :=
    ⟨hs, Attestor.within_ofReport r, rfl, nofun⟩
  rw [KeySource.decrypt_on, KeyManager.currentDek_in_force hfit hd (.inr ⟨k, q, hk, ho, hid⟩)]
  exact hp

/-- A rotation puts its own key in force, and what the others have cached is stale. -/
theorem rotation_retires (h : Run K v) {n : Nat} {o : RotationOutcome}
    (hx : KeySource.attested.rotate.on (v.fleet.host n) = (.ok o, t)) :
    v.step n .rotate = ⟨v.fleet.put n t, fun m => m != n && (v.fleet.nodes m).cache.isSome, []⟩ ∧
      ∃ dek, t.shared.store.Holds K dek ∧ t.node.cache = some dek := by
  obtain ⟨dek, hr⟩ := KeySource.rotate_ok hx
  obtain ⟨-, hd, hc⟩ := hr.holds h.sound.sound (h.sound.within n)
  refine ⟨?_, dek, hd, hc⟩
  rw [Deployment.step, hx, Deployment.rotated]

/-- A manager with a cached key goes on under it when another one has rotated,
and the store has a new key by then. -/
theorem encrypts_under_retired (h : Run K v) {n m : Nat} {d : Dek} {o : RotationOutcome} (hm : m ≠ n)
    (hfresh : v.stale m = false) (hd : (v.fleet.nodes m).cache = some d)
    (hx : KeySource.attested.rotate.on (v.fleet.host n) = (.ok o, t)) :
    v.fleet.shared.store.Holds K d ∧ (∃ dek, (v.step n .rotate).fleet.shared.store.Holds K dek ∧
      ((v.step n .rotate).fleet.nodes n).cache = some dek) ∧
    ∀ text c u, (KeySource.attested.encrypt text).on ((v.step n .rotate).fleet.host m) = (.ok c, u) →
      Credential.decrypt d c = .ok text := by
  obtain ⟨hv, dek, hdek, hc⟩ := h.rotation_retires hx
  refine ⟨h.sound.coherent m hfresh d hd, ⟨dek, ?_, ?_⟩, fun text c u he => ?_⟩
  · rw [hv]
    exact hdek
  · rw [hv]
    simpa [Fleet.put] using hc
  · have hcm : ((v.step n .rotate).fleet.host m).node.cache = some d := by
      rw [hv, Fleet.host_put_of_ne _ _ hm]
      exact hd
    rw [KeySource.encrypt_of_cache hcm] at he
    exact (Credential.encrypt_yields d text).on he

theorem issues_after_rotation (h : Run K v) {n : Nat} {k : MasterKey} {r : KeyRecord} {old : Dek}
    (hs : (v.fleet.host n).Unhindered) (hk : (v.fleet.host n).masterKey = .ok k)
    (hr : v.fleet.shared.store.active? = .ok (some r)) (ho : r.openWith k = .ok old)
    (hst : ∀ q, ∃ store o, v.fleet.shared.store.replace r.id q = .ok store ∧ store.active? = .ok o) (text : String) :
    ∃ o c, (KeySource.attested.rotate.on (v.fleet.host n)).1 = .ok o ∧
      (c, text) ∈ ((v.step n .rotate).step n (.encrypt text)).issued ∧
      ∃ q, ((v.step n .rotate).step n (.encrypt text)).fleet.shared.store.active? = .ok q := by
  have hmade : ∀ q, ∃ store, v.fleet.shared.store.replace r.id q = .ok store := by
    intro q
    obtain ⟨store, o, hq, -⟩ := hst q
    exact ⟨store, hq⟩
  obtain ⟨o, t, hx⟩ : KeySource.attested.rotate.Succeeds (v.fleet.host n) :=
    .mapError _ (KeyManager.rotate_succeeds hs hk hr ho fun q _ => hmade q)
  obtain ⟨hv, d, -, hc⟩ := h.rotation_retires hx
  have hcache : ((v.fleet.put n t).host n).node.cache = some d := by rwa [Fleet.host_put]
  obtain ⟨iv, hiv⟩ := (hs.on hx).draw 16
  obtain ⟨c, hec⟩ : ∃ c, ((KeySource.attested.encrypt text).on ((v.fleet.put n t).host n)).1 = .ok c := by
    rw [KeySource.encrypt_of_cache hcache, Credential.on_encrypt, Fleet.host_put, hiv]
    exact ⟨_, rfl⟩
  have hsame := KeySource.encrypt_same hcache text
  cases he : (KeySource.attested.encrypt text).on ((v.fleet.put n t).host n) with
  | mk x u =>
    rw [he] at hec hsame
    cases hec
    rw [hv, Deployment.step]
    simp only [he]
    refine ⟨o, c, by rw [hx], by simp, ?_⟩
    obtain ⟨dek, hrot⟩ := KeySource.rotate_ok hx
    obtain ⟨q, hq⟩ := hrot.replaced hr
    obtain ⟨store, o', hstore, ho'⟩ := hst q
    cases hstore.symm.trans hq
    exact ⟨o', (congrArg Store.active? hsame.1).trans ho'⟩

/-- The first manager rotates a key that was there, and encrypts. -/
theorem issued_visible_first : ∃ r v o c, Run (.ofReport r) v ∧
    (KeySource.attested.rotate.on (v.fleet.host 0)).1 = .ok o ∧
    (c, "") ∈ ((v.step 0 .rotate).step 0 (.encrypt "")).issued ∧
    ((KeySource.attested.decrypt c).on ⟨((v.step 0 .rotate).step 0 (.encrypt "")).fleet.shared,
      .fresh (.scripted fun _ => .ok r)⟩).1 = .ok "" := by
  obtain ⟨a, k, hk⟩ := AttestationReport.exists_masterKey
  obtain ⟨record, dek, hactive, hopen⟩ : ∃ (r : KeyRecord) (d : Dek), r.active = true ∧ r.openWith k = .ok d := by
    let dek : Dek := ⟨.ofBytes 32 []⟩
    exact ⟨.make "" ⟨⟨1970, 1, 1⟩, ⟨0, 0, 0⟩, by decide⟩
      (.wrap dek k (.ofBytes 12 []) (some ⟨k.id, KeyVersion.first⟩)) k.id KeyVersion.first, dek, rfl,
      KeyRecord.openWith_eq_ok.mpr ⟨KeyRecord.keyId_make .., KeyRecord.unwrap_make ..⟩⟩
  let shared : Shared := { (Host.attested a).shared with store := .memory ⟨[record]⟩ }
  have h₀ : Run (.ofReport a) ⟨⟨shared, fun _ => .fresh (.scripted fun _ => .ok a)⟩, fun _ => false, []⟩ :=
    .start (List.length_filter_le ..) fun _ => Attestor.within_ofReport a
  have hr : shared.store.active? = .ok (some record) := by
    simp [shared, Store.active?, MemoryStore.active?, hactive]
  have hst : ∀ q, ∃ store o, shared.store.replace record.id q = .ok store ∧ store.active? = .ok o := by
    intro q
    refine ⟨.memory ⟨[{ record with active := false }, { q with active := true }]⟩, _, ?_, rfl⟩
    simp [shared, Store.replace, MemoryStore.replace, MemoryStore.retire?, MemoryStore.insert, hactive, Except.map]
  obtain ⟨o, c, ho, hc, hread⟩ := h₀.issues_after_rotation (n := 0) ⟨rfl, fun _ => rfl⟩
    ((Host.masterKey_of_report rfl).trans hk) hr hopen hst ""
  have h₂ := (h₀.step 0 .rotate fun _ h => by cases h).step 0 (.encrypt "") fun _ h => by cases h
  exact ⟨a, _, o, c, h₀, ho, hc, h₂.issued_visible c "" hc hread⟩

end Run

end Deployment

end AttestedVault
