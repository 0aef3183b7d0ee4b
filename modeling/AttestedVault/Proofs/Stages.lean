import AttestedVault.Proofs.Continuity
import AttestedVault.Proofs.Diagnosis

/-!
# The stages of a key

A key is made, rotated and wrapped for other code. Over a store in memory each of
these succeeds where attestation and randomness are to be had, and leaves the store
ready for the next one, whichever manager is asked.
-/

namespace AttestedVault

variable {ε α : Type} {s t : Host}

open AttestedVault.Action

/-! ## Stores in memory -/

namespace Host

theorem memory_write {m : MemoryStore} (h : s.shared.store = .memory m) (fault : Option StoreError)
    {call : Store → Except StoreError Store} {f : MemoryStore → Except StoreError MemoryStore}
    (hf : call (.memory m) = (f m).map .memory) : ∃ m', (write fault call s).2.shared.store = .memory m' := by
  cases fault with
  | some e => exact ⟨m, h⟩
  | none =>
    simp only [write, Store.settle, h, hf]
    cases f m with
    | ok m' => exact ⟨m', rfl⟩
    | error e => exact ⟨m, rfl⟩

theorem memory_perform {m : MemoryStore} (h : s.shared.store = .memory m) (e : Effect) :
    ∃ m', (perform e s).2.shared.store = .memory m' := by
  cases e with
  | create r => exact memory_write (f := (·.create r)) h _ rfl
  | replace previous r => exact memory_write (f := (·.replace previous r)) h _ rfl
  | _ => exact ⟨m, h⟩

end Host

theorem Prog.memory_run {p : Prog α} : ∀ {s : Host}, (∃ m, s.shared.store = .memory m) →
    ∃ m, (p.run Host.perform s).2.shared.store = .memory m := by
  induction p with
  | done a => exact id
  | call e k ih =>
    rintro s ⟨m, hm⟩
    exact ih _ (Host.memory_perform hm e)

theorem Action.memory_on {a : Action ε α} {r : Except ε α} (hs : ∃ m, s.shared.store = .memory m)
    (h : a.on s = (r, t)) : ∃ m, t.shared.store = .memory m := by
  obtain rfl : (a.on s).2 = t := congrArg Prod.snd h
  exact Prog.memory_run hs

/-- The store is in memory and has `q` as its one active record, which `key` opens. -/
structure Store.Serves (key : MasterKey) (q : KeyRecord) (s : Store) : Prop where
  memory : ∃ m, s = .memory m
  alone : s.AtMostOneActive
  active : s.active? = .ok (some q)
  names : q.keyId = .ok key.id
  unwraps : ∃ dek, q.unwrap key = .ok dek

namespace Store.Serves

variable {key : MasterKey} {q : KeyRecord}

theorem of_installed {st : Store} (hm : ∃ m, st = .memory m) (hi : st.Installed q) (hid : q.keyId = .ok key.id)
    {dek : Dek} (hu : q.unwrap key = .ok dek) : st.Serves key q := by
  obtain ⟨m, rfl⟩ := hm
  exact ⟨⟨m, rfl⟩, hi.1, congrArg Except.ok hi.2, hid, dek, hu⟩

theorem free {st : Store} (h : st.Serves key q) (id : String) : st.Free id := by
  obtain ⟨m, rfl⟩ := h.memory
  trivial

end Store.Serves

/-! ## One stage after the other -/

namespace KeyManager

variable {key : MasterKey} {q : KeyRecord}

theorem currentDek_serves (h : Cold key none s) (hv : Vacant s) (hm : ∃ m, s.shared.store = .memory m)
    (hs : s.Unhindered) : ∃ dek q t, currentDek.on s = (.ok dek, t) ∧ t.shared.store.Serves key q ∧
      q.openWith key = .ok dek ∧ q.version = "v1" := by
  have hfirst := h.firstUse hv
  cases hd : currentDek.on s with
  | mk x t =>
    rw [hd] at hfirst
    cases hfirst with
    | starved e t random same =>
      obtain ⟨i, -, reason, hf, -⟩ := random
      rw [hs.draws] at hf
      cases hf
    | created dek q t version names unwraps installed cache =>
      exact ⟨dek, q, t, rfl, .of_installed (memory_on hm hd) installed names unwraps,
        KeyRecord.openWith_eq_ok.mpr ⟨names, unwraps⟩, version⟩

theorem rotate_serves (h : s.shared.store.Serves key q) (hk : s.masterKey = .ok key) (hs : s.Unhindered) :
    ∃ x q' t, rotate.on s = (.ok x, t) ∧ t.shared.store.Serves key q' ∧ q'.version = KeyVersion.next q.version := by
  obtain ⟨dek, hu⟩ := h.unwraps
  have ho : q.openWith key = .ok dek := KeyRecord.openWith_eq_ok.mpr ⟨h.names, hu⟩
  obtain ⟨x, t, hx⟩ := rotate_succeeds hs hk h.active ho fun r hr => by
    obtain ⟨store, -, hreplace, -⟩ := Store.replace_active h.alone h.active hr
    exact ⟨store, hreplace (h.free r.id)⟩
  obtain ⟨new, hr⟩ := rotate_ok hx
  obtain ⟨key', current, r, u, v, attested, active, seals, same, replace, rfl⟩ := hr
  cases hk.symm.trans attested
  cases h.active.symm.trans active
  have hst := Host.stored_of_replace (same.1 ▸ h.alone.sound) seals.active replace
  exact ⟨x, r, _, hx, .of_installed (memory_on h.memory hx) hst.installed seals.keyId seals.unwrap, seals.version_eq⟩

theorem migrate_serves {other : MasterKey} (h : s.shared.store.Serves other q) (hk : s.masterKey = .ok key)
    (hne : other.id ≠ key.id) (hs : s.Unhindered) :
    ∃ x q' t, (migrate other).on s = (.ok x, t) ∧ t.shared.store.Serves key q' ∧ q'.version = q.version := by
  obtain ⟨dek, hu⟩ := h.unwraps
  have hready : Enabled key s := by
    refine ⟨hk, ?_, ⟨_, h.active⟩, hs.draws _, ?_, h.free _, .inl h.memory⟩
    · rw [hs.faults]
      rfl
    · rw [hs.faults]
      rfl
  obtain ⟨x, t, hx⟩ := migrate_succeeds h.alone hready h.active ⟨⟨_, h.names, hne⟩, hu⟩
  obtain ⟨r, q', dek', -, hr⟩ := migrate_rewrapped h.alone hready hx
  cases h.active.symm.trans hr.active
  exact ⟨x, q', t, hx, ⟨memory_on h.memory hx, hr.alone, hr.inForce, hr.names, dek', hr.unwraps⟩, hr.version⟩

end KeyManager

namespace KeySource

theorem encrypt_serves {key : MasterKey} (h : KeyManager.Cold key none s) (hv : KeyManager.Vacant s)
    (hm : ∃ m, s.shared.store = .memory m) (hs : s.Unhindered) (text : String) :
    ∃ c q t, (attested.encrypt text).on s = (.ok c, t) ∧ t.shared.store.Serves key q := by
  obtain ⟨dek, q, u, hd, hq, -⟩ := KeyManager.currentDek_serves h hv hm hs
  obtain ⟨iv, hiv⟩ := (hs.on hd).draw 16
  obtain ⟨c, hc⟩ : ∃ c, ((Credential.encrypt dek text).on u).1 = .ok c := by
    rw [Credential.on_encrypt, hiv]
    exact ⟨_, rfl⟩
  refine ⟨c, q, ((Credential.encrypt dek text).on u).2, ?_, ?_⟩
  · rw [encrypt_on, on_bind, on_mapError, hd]
    exact Prod.ext hc rfl
  · rw [(same_of_quiet (Credential.encrypt_local dek text).quiet u).1]
    exact hq

end KeySource

end AttestedVault
