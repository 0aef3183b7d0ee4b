import AttestedVault.Proofs.Failure
import AttestedVault.Proofs.Outcomes

/-!
# The key stays in force

What a call of one manager makes of the key that the store holds. Every call
leaves it in force but a rotation that succeeds, which puts its own there.
-/

namespace AttestedVault

variable {ε α : Type} {K : KeyRing} {s t : Host}

/-! ## Hosts of a run -/

theorem Prog.within_run {p : Prog α} : ∀ {s : Host}, s.node.attestor.Within K →
    (p.run Host.perform s).2.node.attestor.Within K := by
  induction p with
  | done a => exact id
  | call e k ih => exact fun hs => ih _ (Host.within_perform hs rfl)

theorem Host.faults_perform (e : Effect) (s : Host) : (perform e s).2.node.faults = s.node.faults := by
  cases e with
  | create r => exact (congrArg Node.faults (node_write _ _ s)).trans rfl
  | replace previous r => exact (congrArg Node.faults (node_write _ _ s)).trans rfl
  | _ => rfl

theorem Prog.faults_run {p : Prog α} : ∀ {s : Host}, (p.run Host.perform s).2.node.faults = s.node.faults := by
  induction p with
  | done a => exact fun {_} => rfl
  | call e k ih => exact fun {s} => (ih _).trans (Host.faults_perform e s)

/-- The store is sound, and a cached key is the one that it holds. Calls on the
store do not fail, and the code that runs has its master key in the ring. -/
structure Host.Fit (K : KeyRing) (h : Host) : Prop where
  sound : h.shared.store.Sound
  within : h.node.attestor.Within K
  faults : h.node.faults = .none
  coherent : h.Coherent K

/-- One host has become another in which the same key is in force. -/
structure Host.Continues (K : KeyRing) (s t : Host) : Prop where
  fit : t.Fit K
  holds : ∀ d, s.shared.store.Holds K d → t.shared.store.Holds K d

theorem Host.Continues.trans {u : Host} (h : s.Continues K t) (h' : t.Continues K u) : s.Continues K u :=
  ⟨h'.fit, fun d hd => h'.holds d (h.holds d hd)⟩

namespace Action

theorem within_on {a : Action ε α} {r : Except ε α} (hs : s.node.attestor.Within K) (h : a.on s = (r, t)) :
    t.node.attestor.Within K := by
  obtain rfl : (a.on s).2 = t := congrArg Prod.snd h
  exact Prog.within_run hs

theorem faults_on {a : Action ε α} {r : Except ε α} (h : a.on s = (r, t)) : t.node.faults = s.node.faults := by
  obtain rfl : (a.on s).2 = t := congrArg Prod.snd h
  exact Prog.faults_run

theorem continues_of_same {a : Action ε α} {r : Except ε α} (hs : s.Fit K) (h : a.on s = (r, t))
    (hsame : s.Same t) : s.Continues K t := by
  refine ⟨⟨?_, within_on hs.within h, (faults_on h).trans hs.faults, fun d hd => ?_⟩, fun d hd => ?_⟩
  · rw [hsame.1]
    exact hs.sound
  · rw [hsame.1]
    exact hs.coherent d (hsame.2 ▸ hd)
  · rw [hsame.1]
    exact hd

theorem continues_of_quiet {a : Action ε α} {r : Except ε α} (hs : s.Fit K) (ha : a.Only Effect.isQuiet)
    (h : a.on s = (r, t)) : s.Continues K t := by
  refine continues_of_same hs h ?_
  have := same_of_quiet ha s
  rwa [h] at this

theorem continues_of_error {a : Action ε α} {e : ε} (hs : s.Fit K) (ha : a.Clean)
    (h : a.on s = (.error e, t)) : s.Continues K t :=
  continues_of_same hs h (ha s e t h)

end Action

namespace KeyManager

open AttestedVault.Action

theorem Loaded.stored {dek : Dek} (hs : s.Fit K) (h : Loaded dek s t) :
    t.shared.store.Sound ∧ t.shared.store.Holds K dek ∧
      ∀ d, s.shared.store.Holds K d → t.shared.store.Holds K d := by
  cases h with
  | opened key r attested active opens same =>
    rw [same.1]
    exact ⟨hs.sound, .of_openWith hs.sound active (Host.mem_of_masterKey hs.within attested) opens, fun _ h => h⟩
  | created key r u attested seals same create =>
    obtain ⟨hst, hn⟩ := Host.stored_of_create (same.1 ▸ hs.sound) seals.active create
    refine ⟨hst.installed.1, hst.holds seals (Host.mem_of_masterKey hs.within attested), fun d hd => ?_⟩
    rw [same.1] at hn
    exact absurd hn hd.active?_ne_none

theorem currentDek_continues {dek : Dek} (hs : s.Fit K) (h : currentDek.on s = (.ok dek, t)) :
    s.Continues K t ∧ t.shared.store.Holds K dek := by
  have hw := within_on hs.within h
  have hf := (faults_on h).trans hs.faults
  rcases currentDek_ok h with ⟨hc, rfl⟩ | ⟨-, u, hl, rfl⟩
  · exact ⟨⟨hs, fun _ h => h⟩, hs.coherent dek hc⟩
  · obtain ⟨hso, hd, hold⟩ := hl.stored hs
    refine ⟨⟨⟨hso, hw, hf, fun d hc => ?_⟩, hold⟩, hd⟩
    cases hc
    exact hd

/-- The key in force is obtained if it is cached, or if the code that runs is the
one that the active record names. -/
theorem currentDek_in_force {d : Dek} (hs : s.Fit K) (hd : s.shared.store.Holds K d)
    (h : s.node.cache ≠ none ∨ ∃ k r, s.masterKey = .ok k ∧ s.shared.store.active? = .ok (some r) ∧
      r.keyId = .ok k.id) : (currentDek.on s).1 = .ok d := by
  cases hc : s.node.cache with
  | some d' =>
    rw [currentDek_on, hc, (hs.coherent d' hc).unique hd]
  | none =>
    obtain ⟨k, r, hk, hr, hid⟩ := h.resolve_left fun hx => hx hc
    have hu := hd.unwrap hs.sound hr (Host.mem_of_masterKey hs.within hk) hid
    have hf : s.node.faults.read s.node.reads = none := by rw [hs.faults]; rfl
    exact currentDek_of_openWith hc hf hk hr (KeyRecord.openWith_eq_ok.mpr ⟨hid, hu⟩)

theorem Rotated.holds {dek : Dek} (hs : s.shared.store.Sound) (hw : s.node.attestor.Within K)
    (h : Rotated dek s t) :
    t.shared.store.Sound ∧ t.shared.store.Holds K dek ∧ t.node.cache = some dek := by
  obtain ⟨key, current, r, u, v, attested, active, seals, same, replace, rfl⟩ := h
  have hst := Host.stored_of_replace (same.1 ▸ hs) seals.active replace
  exact ⟨hst.installed.1, hst.holds seals (Host.mem_of_masterKey hw attested), rfl⟩

theorem Rotated.replaced {dek : Dek} {current : KeyRecord} (h : Rotated dek s t)
    (hr : s.shared.store.active? = .ok (some current)) :
    ∃ r, s.shared.store.replace current.id r = .ok t.shared.store := by
  obtain ⟨key, current', r, u, v, attested, active, seals, same, replace, rfl⟩ := h
  cases hr.symm.trans active
  obtain rfl : (Host.perform (.replace current.id r) u).2 = v := congrArg Prod.snd replace
  refine ⟨r, ?_⟩
  rw [← same.1]
  exact (Host.write_ok (congrArg Prod.fst replace)).1

theorem Rotated.fit {dek : Dek} (hs : s.Fit K) (hw : t.node.attestor.Within K) (hf : t.node.faults = .none)
    (h : Rotated dek s t) : t.Fit K := by
  obtain ⟨hst, hd, hc⟩ := h.holds hs.sound hs.within
  refine ⟨hst, hw, hf, fun d hd' => ?_⟩
  rw [hc] at hd'
  cases hd'
  exact hd

/-- A migration from the key that the record names wraps the same key. -/
theorem Migrated.continues {oldKey : MasterKey} {r : KeyRecord} (hs : s.Fit K) (hw : t.node.attestor.Within K)
    (hf : t.node.faults = .none) (h : Migrated oldKey s t) (hk : K.mem oldKey)
    (hr : s.shared.store.active? = .ok (some r)) (hid : r.keyId = .ok oldKey.id) : s.Continues K t := by
  obtain ⟨key, current, r', dek, u, v, attested, active, unwraps, seals, same, replace, rfl⟩ := h
  cases hr.symm.trans active
  have hold : s.shared.store.Holds K dek := .of_read hs.sound active hk hid unwraps
  have hst := Host.stored_of_replace (same.1 ▸ hs.sound) seals.active replace
  refine ⟨⟨hst.installed.1, hw, hf, nofun⟩, fun d hd => ?_⟩
  rw [hd.unique hold]
  exact hst.holds seals (Host.mem_of_masterKey hs.within attested)

end KeyManager

namespace KeySource

open AttestedVault.Action

theorem use_continues {f : Dek → Action CredentialError α} {r : Except CredentialError α} (hs : s.Fit K)
    (hf : ∀ d, (f d).Only Effect.isQuiet)
    (h : (mapError CredentialError.key KeyManager.currentDek >>= f).on s = (r, t)) : s.Continues K t := by
  rw [on_bind, on_mapError] at h
  cases hd : KeyManager.currentDek.on s with
  | mk x u =>
    rw [hd] at h
    cases x with
    | ok d =>
      have hu := (KeyManager.currentDek_continues hs hd).1
      exact hu.trans (continues_of_quiet hu.fit (hf d) h)
    | error e =>
      cases h
      exact continues_of_error hs KeyManager.currentDek_clean hd

theorem encrypt_on (text : String) (s : Host) : (attested.encrypt text).on s =
    (mapError .key KeyManager.currentDek >>= fun dek => Credential.encrypt dek text).on s :=
  on_holding ..

theorem decrypt_on (c : String) (s : Host) : (attested.decrypt c).on s =
    (match (KeyManager.currentDek.on s).1 with
      | .ok d => Credential.decrypt d c
      | .error e => .error (.key e), (KeyManager.currentDek.on s).2) := by
  rw [decrypt, dek, on_bind, on_mapError]
  cases KeyManager.currentDek.on s with
  | mk x u =>
    cases x with
    | ok d =>
      change (ofExcept id (Credential.decrypt d c)).on u = (Credential.decrypt d c, u)
      rw [on_ofExcept_id]
    | error e => rfl

theorem decrypt_continues {c : String} {r : Except CredentialError String} (hs : s.Fit K)
    (h : (attested.decrypt c).on s = (r, t)) : s.Continues K t :=
  use_continues hs (fun _ => .ofExcept _ _) h

theorem encrypt_continues {text : String} {r : Except CredentialError String} (hs : s.Fit K)
    (h : (attested.encrypt text).on s = (r, t)) : s.Continues K t := by
  rw [encrypt_on] at h
  exact use_continues hs (fun d => (Credential.encrypt_local d text).quiet) h

end KeySource

/-! ## Credentials -/

namespace Credential

theorem encrypt_yields (key : Dek) (text : String) :
    (encrypt key text).Yields fun c => decrypt key c = .ok text := by
  have hs : (sealCredential key.bytes.val (Bytes.ofText text)).Yields
      fun x => ∃ iv : Octets 16, x = Sealed.make key.bytes iv.val (Bytes.ofText text) [] := by
    refine .andThen fun iv => ?_
    simp only [Octets.ofBytes?_val]
    exact .ask fun x hx => ⟨iv, hx⟩
  refine .bind (.mapError _ hs) fun x hx => .pure ?_
  obtain ⟨iv, rfl⟩ := hx
  exact decrypt_encode key iv text

end Credential

theorem KeySource.encrypt_ok {text c : String} (hs : s.Fit K) (h : (attested.encrypt text).on s = (.ok c, t)) :
    ∃ d, t.shared.store.Holds K d ∧ Credential.decrypt d c = .ok text := by
  rw [encrypt_on] at h
  obtain ⟨d, u, hd, hc⟩ := Action.bind_ok h
  obtain ⟨hu, hd⟩ := KeyManager.currentDek_continues hs (Action.mapError_ok hd)
  have ht := Action.continues_of_quiet hu.fit (Credential.encrypt_local d text).quiet hc
  exact ⟨d, ht.holds d hd, (Credential.encrypt_yields d text).on hc⟩

theorem KeySource.rotateWith_fit {lift : KeyError → ε} {c : Closure ε α} {x : RotationOutcome × α} (hs : s.Fit K)
    (h : (KeyManager.rotateWith lift c.act).on s = (.ok x, t)) : t.Fit K := by
  obtain ⟨dek, hr⟩ := KeyManager.rotateWith_ok h
  exact hr.fit hs (Action.within_on hs.within h) ((Action.faults_on h).trans hs.faults)

end AttestedVault
