import AttestedVault.Proofs.Continuity
import AttestedVault.Proofs.Stages

/-!
# Credentials survive

One manager at a time over one store: operations, restarts, other code, outages
and failing randomness in any order. What was encrypted stays readable until
the key is rotated.
-/

namespace AttestedVault

variable {α : Type} {K : KeyRing} {s t : Host}

/-- A manager in service, and the credentials that were issued since the last
rotation, each with its text. -/
structure Vault where
  host : Host
  issued : List (String × String)

inductive Event
  | encrypt (text : String)
  | decrypt (credential : String)
  | rotate
  | reencrypt (credentials : List String)
  | migrate (oldKey : MasterKey)
  | clearCache
  /-- A new manager takes over. -/
  | restart (a : Attestor)
  /-- Other code runs, or the attestation service comes or goes. -/
  | attest (a : Attestor)
  /-- The random source changes, which may fail at any draw. -/
  | randomize (r : Random)

/-! ## Two keys -/

def KeyRing.pair {k l : MasterKey} (h : k.id ≠ l.id) : KeyRing where
  mem k' := k' = k ∨ k' = l
  distinct := by
    rintro _ _ (rfl | rfl) (rfl | rfl) he
    · rfl
    · exact absurd he h
    · exact absurd he.symm h
    · rfl

theorem Attestor.within_of_masterKey {r : AttestationReport} {k : MasterKey} (hr : r.masterKey = .ok k)
    (hk : K.mem k) : (scripted fun _ => .ok r).Within K := by
  intro ns n r' k' hr' hk'
  cases hr.symm.trans (within_ofReport r ns n r' k' hr' hk')
  exact hk

namespace Vault

def step (v : Vault) : Event → Vault
  | .encrypt text =>
    match (KeySource.attested.encrypt text).on v.host with
    | (.ok c, h) => ⟨h, (c, text) :: v.issued⟩
    | (.error _, h) => ⟨h, v.issued⟩
  | .decrypt c => ⟨((KeySource.attested.decrypt c).on v.host).2, v.issued⟩
  | .rotate =>
    match KeySource.attested.rotate.on v.host with
    | (.ok _, h) => ⟨h, []⟩
    | (.error _, h) => ⟨h, v.issued⟩
  | .reencrypt cs =>
    match (KeySource.attested.rotateAndReencrypt cs).on v.host with
    | (.ok _, h) => ⟨h, []⟩
    | (.error _, h) => ⟨h, v.issued⟩
  | .migrate k => ⟨((KeySource.attested.migrate k).on v.host).2, v.issued⟩
  | .clearCache => ⟨(KeyManager.clearCache.run Host.perform v.host).2, v.issued⟩
  | .restart a => ⟨{ v.host with node := .fresh a }, v.issued⟩
  | .attest a => ⟨{ v.host with node := { v.host.node with attestor := a } }, v.issued⟩
  | .randomize r => ⟨{ v.host with shared := { v.host.shared with random := r } }, v.issued⟩

/-- The code that runs has its master key in the ring, and a migration that
succeeds was given the one that the active record names. -/
def Admits (K : KeyRing) (v : Vault) : Event → Prop
  | .restart a | .attest a => a.Within K
  | .migrate k => ∀ o h, (KeySource.attested.migrate k).on v.host = (.ok o, h) →
    K.mem k ∧ ∃ r, v.host.shared.store.active? = .ok (some r) ∧ r.keyId = .ok k.id
  | _ => True

/-- What a vault comes to over a store that is empty at first. -/
inductive Run (K : KeyRing) : Vault → Prop
  | start {shared : Shared} {a : Attestor} (within : a.Within K)
      (empty : shared.store = .memory .empty ∨ shared.store = .table .empty) : Run K ⟨⟨shared, .fresh a⟩, []⟩
  | step {v : Vault} (e : Event) (before : Run K v) (admits : v.Admits K e) : Run K (v.step e)

theorem step_encrypt {v : Vault} {text c : String} (h : (KeySource.attested.encrypt text).on v.host = (.ok c, t)) :
    v.step (.encrypt text) = ⟨t, (c, text) :: v.issued⟩ := by
  rw [step, h]

/-- What every run keeps: each issued credential opens with the key in force. -/
structure Sound (K : KeyRing) (v : Vault) : Prop where
  fit : v.host.Fit K
  opens : ∀ c p, (c, p) ∈ v.issued → ∃ d, v.host.shared.store.Holds K d ∧ Credential.decrypt d c = .ok p

theorem Sound.continues {v : Vault} (hv : v.Sound K) (ht : v.host.Continues K t) : Sound K ⟨t, v.issued⟩ := by
  refine ⟨ht.fit, fun c p hc => ?_⟩
  obtain ⟨d, hd, hp⟩ := hv.opens c p hc
  exact ⟨d, ht.holds d hd, hp⟩

theorem Sound.issue {v : Vault} {c p : String} {d : Dek} (hv : v.Sound K) (hd : v.host.shared.store.Holds K d)
    (hp : Credential.decrypt d c = .ok p) : Sound K ⟨v.host, (c, p) :: v.issued⟩ := by
  refine ⟨hv.fit, fun c' p' hc => ?_⟩
  rcases List.mem_cons.mp hc with he | hc
  · cases he
    exact ⟨d, hd, hp⟩
  · exact hv.opens c' p' hc

theorem Sound.start {shared : Shared} {a : Attestor} (within : a.Within K)
    (empty : shared.store = .memory .empty ∨ shared.store = .table .empty) :
    Sound K ⟨⟨shared, .fresh a⟩, []⟩ := by
  refine ⟨⟨?_, within, rfl, nofun⟩, nofun⟩
  rcases empty with he | he
  · rw [he]
    exact Nat.zero_le 1
  · rw [he]
    trivial

theorem Sound.step {v : Vault} {e : Event} (hv : v.Sound K) (he : v.Admits K e) : (v.step e).Sound K := by
  cases e with
  | encrypt text =>
    simp only [Vault.step]
    split
    · rename_i c h hx
      obtain ⟨d, hd, hp⟩ := KeySource.encrypt_ok hv.fit hx
      exact (hv.continues (KeySource.encrypt_continues hv.fit hx)).issue hd hp
    · rename_i e h hx
      exact hv.continues (KeySource.encrypt_continues hv.fit hx)
  | decrypt c => exact hv.continues (KeySource.decrypt_continues hv.fit rfl)
  | rotate =>
    simp only [Vault.step]
    split
    · rename_i o h hx
      obtain ⟨y, u, hy, ho⟩ := Action.bind_ok (Action.mapError_ok hx)
      cases ho
      exact ⟨KeySource.rotateWith_fit (c := .ofExcept (.ok ())) hv.fit hy, nofun⟩
    · rename_i e h hx
      exact hv.continues (Action.continues_of_error hv.fit (.mapError _ KeyManager.rotate_clean) hx)
  | reencrypt cs =>
    simp only [Vault.step]
    split
    · rename_i o h hx
      obtain ⟨y, u, hy, ho⟩ := Action.bind_ok hx
      cases ho
      exact ⟨KeySource.rotateWith_fit (c := .reencrypt cs) hv.fit hy, nofun⟩
    · rename_i e h hx
      refine hv.continues (Action.continues_of_error hv.fit ?_ hx)
      exact .bind_sure (KeyManager.rotateWith_clean _ (.reencrypt cs)) fun _ => .pure _
  | migrate k =>
    refine hv.continues ?_
    cases hx : (KeySource.attested.migrate k).on v.host with
    | mk o h =>
      cases o with
      | ok o =>
        obtain ⟨hk, r, hr, hid⟩ := he o h hx
        have hm := KeyManager.migrate_ok (Action.mapError_ok hx)
        exact hm.continues hv.fit (Action.within_on hv.fit.within hx)
          ((Action.faults_on hx).trans hv.fit.faults) hk hr hid
      | error e => exact Action.continues_of_error hv.fit (.mapError _ (KeyManager.migrate_clean k)) hx
  | clearCache => exact hv.continues ⟨⟨hv.fit.sound, hv.fit.within, hv.fit.faults, nofun⟩, fun _ h => h⟩
  | restart a => exact hv.continues ⟨⟨hv.fit.sound, he, rfl, nofun⟩, fun _ h => h⟩
  | attest a => exact hv.continues ⟨⟨hv.fit.sound, he, hv.fit.faults, hv.fit.coherent⟩, fun _ h => h⟩
  | randomize r =>
    exact hv.continues ⟨⟨hv.fit.sound, hv.fit.within, hv.fit.faults, hv.fit.coherent⟩, fun _ h => h⟩

theorem Run.sound {v : Vault} (h : Run K v) : v.Sound K := by
  induction h with
  | start within empty => exact .start within empty
  | step e _ admits ih => exact ih.step admits

/-- A credential that was issued is read as its text, or the key cannot be had.
It is read if the key is cached, and also if the master key that is attested is
the one that the active record names. -/
theorem Run.issued_readable {v : Vault} (h : Run K v) : ∀ c p, (c, p) ∈ v.issued →
    (((KeySource.attested.decrypt c).on v.host).1 = .ok p ∨
      ∃ e, ((KeySource.attested.decrypt c).on v.host).1 = .error (.key e)) ∧
    (v.host.node.cache ≠ none ∨ (∃ k r, v.host.masterKey = .ok k ∧
        v.host.shared.store.active? = .ok (some r) ∧ r.keyId = .ok k.id) →
      ((KeySource.attested.decrypt c).on v.host).1 = .ok p) := by
  intro c p hc
  obtain ⟨hf, ho⟩ := h.sound
  obtain ⟨d, hd, hp⟩ := ho c p hc
  rw [KeySource.decrypt_on]
  refine ⟨?_, fun hx => ?_⟩
  · cases hr : KeyManager.currentDek.on v.host with
    | mk x u =>
      cases x with
      | ok d' =>
        obtain ⟨hu, hd'⟩ := KeyManager.currentDek_continues hf hr
        rw [hd'.unique (hu.holds d hd)]
        exact .inl hp
      | error e => exact .inr ⟨e, rfl⟩
  · rw [KeyManager.currentDek_in_force hf hd hx]
    exact hp

/-- A credential is issued, other code takes over, the key is wrapped for it, and a
manager that has just started reads the credential. -/
theorem Run.issued_readable_migrated : ∃ K v k b c, Run K v ∧ (c, "secret") ∈ v.issued ∧
    let later := ((v.step (.attest b)).step (.migrate k)).step (.restart b)
    Run K later ∧ ((KeySource.attested.decrypt c).on later.host).1 = .ok "secret" := by
  obtain ⟨a, b, k, l, hk, hl, hne⟩ := AttestationReport.exists_masterKeys
  have ha := Attestor.within_of_masterKey (K := .pair hne) hk (.inl rfl)
  have hb := Attestor.within_of_masterKey (K := .pair hne) hl (.inr rfl)
  have h₀ : Run (.pair hne) ⟨.attested a, []⟩ := .start ha (.inl rfl)
  have hfree : (Host.attested a).Unhindered := ⟨rfl, fun _ => rfl⟩
  have hcold : KeyManager.Cold k none (.attested a) := ⟨(Host.masterKey_of_report rfl).trans hk, rfl, rfl, rfl⟩
  have hvacant : KeyManager.Vacant (.attested a) := ⟨Nat.zero_le 1, rfl, rfl, trivial⟩
  obtain ⟨c, q, t, hc, hserves⟩ := KeySource.encrypt_serves hcold hvacant ⟨.empty, rfl⟩ hfree "secret"
  have h₁ := h₀.step (.encrypt "secret") trivial
  rw [step_encrypt hc] at h₁
  have h₂ := h₁.step (.attest (.scripted fun _ => .ok b)) hb
  -- the code that runs now finds the record of the first one
  let u : Host := { t with node := { t.node with attestor := .scripted fun _ => .ok b } }
  obtain ⟨x, q', w, hx, hserves', -⟩ := KeyManager.migrate_serves (s := u) hserves
    ((Host.masterKey_of_report rfl).trans hl) hne ⟨(hfree.on hc).faults, (hfree.on hc).draws⟩
  have h₃ := h₂.step (.migrate k) fun _ _ _ => ⟨.inl rfl, q, hserves.active, hserves.names⟩
  have h₄ := h₃.step (.restart (.scripted fun _ => .ok b)) hb
  have hw : ((KeySource.attested.migrate k).on u).2 = w := by
    rw [KeySource.migrate, KeySource.managed, Action.on_mapError, hx]
  have hactive : ((KeySource.attested.migrate k).on u).2.shared.store.active? = .ok (some q') := hw ▸ hserves'.active
  exact ⟨_, _, k, _, c, h₁, .head _, h₄, (issued_readable h₄ c "secret" (.head _)).2
    (.inr ⟨l, q', (Host.masterKey_of_report rfl).trans hl, hactive, hserves'.names⟩)⟩

end Vault

end AttestedVault
