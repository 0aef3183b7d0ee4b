import AttestedVault.Host.Disturbance
import AttestedVault.Proofs.Simulation
import AttestedVault.Proofs.Stages

/-!
# What disturbances lead to

A host that nothing disturbs answers as the one within. A manager that reads an
altered record takes it for the stored one, and a manager that a rival anticipates
takes the rival's key for its own.
-/

namespace AttestedVault

variable {ε α β : Type} {d c : DisturbedHost} {s t : Host}

open AttestedVault.Action

/-- Nothing disturbs the answer to such an effect. -/
def Effect.isPlain : Effect → Bool
  | .readActive | .create _ => false
  | _ => true

namespace DisturbedHost

/-! ## The host within -/

theorem calm : Handler.Simulates Effect.any (fun d h => d = ⟨h, id, none⟩) perform Host.perform := by
  rintro e _ h - rfl
  cases e with
  | readActive =>
    refine ⟨?_, rfl⟩
    change Except.map (Option.map id) (Host.perform .readActive h).1 = _
    rw [Option.map_id]
    cases (Host.perform .readActive h).1 <;> rfl
  | _ => exact ⟨rfl, rfl⟩

/-- Without an alteration and a rival, a program does what it does on the host within. -/
theorem run_calm (p : Prog α) (h : Host) :
    p.run perform ⟨h, id, none⟩ = ((p.run Host.perform h).1, ⟨(p.run Host.perform h).2, id, none⟩) := by
  obtain ⟨ha, hs⟩ := Prog.run_alike calm p.only_any rfl
  exact Prod.ext ha hs

theorem plain (d : DisturbedHost) :
    Handler.Simulates Effect.isPlain (fun c h => c = { d with host := h }) perform Host.perform := by
  rintro e _ h he rfl
  cases e <;> first | exact ⟨rfl, rfl⟩ | cases he

theorem run_plain {p : Prog α} (hp : p.Only Effect.isPlain) (d : DisturbedHost) :
    p.run perform d = ((p.run Host.perform d.host).1, { d with host := (p.run Host.perform d.host).2 }) := by
  obtain ⟨ha, hs⟩ := Prog.run_alike (plain d) hp rfl
  exact Prod.ext ha hs

def on (d : DisturbedHost) (a : Action ε α) : Except ε α × DisturbedHost := a.run.run perform d

theorem on_bind_ok {a : Action ε α} {f : α → Action ε β} {x : α} (hx : d.on a = (.ok x, c)) :
    d.on (a >>= f) = c.on (f x) := by
  refine (Prog.run_bind perform a.run _ d).trans ?_
  rw [show a.run.run perform d = (.ok x, c) from hx]
  rfl

theorem on_plain_bind {a : Action ε α} (ha : a.Only Effect.isPlain) {f : α → Action ε β} {x : α}
    (hx : a.on d.host = (.ok x, t)) : d.on (a >>= f) = on { d with host := t } (f x) := by
  refine on_bind_ok ((run_plain ha d).trans ?_)
  rw [show a.run.run Host.perform d.host = (.ok x, t) from hx]

theorem on_holding (lock : Lock) (mode : LockMode) (a : Action ε α) (d : DisturbedHost) :
    d.on (holding lock mode a) = d.on a :=
  Prog.run_bind perform a.run _ d

theorem on_ofExcept_id (r : Except ε α) (d : DisturbedHost) : d.on (ofExcept id r) = (r, d) := by
  cases r <;> rfl

theorem on_readActive (hf : d.host.node.faults.read d.host.node.reads = none) {o : Option KeyRecord}
    (ho : d.host.shared.store.active? = .ok o) :
    d.on readActive = (.ok (o.map d.alter), { d with host := (Host.perform .readActive d.host).2 }) := by
  have hr : (Host.perform .readActive d.host).1 = Except.ok o := (Host.read_of_none hf).trans ho
  change (Except.mapError KeyError.store (Except.map (Option.map d.alter) (Host.perform .readActive d.host).1), _) = _
  rw [hr]
  rfl

/-! ## Altered records -/

/-- The store of the host holds what the disturbed one shows of its record. -/
def Shows (d : DisturbedHost) (h : Host) : Prop :=
  ∃ st, st.active? = d.host.shared.store.active?.map (Option.map d.alter) ∧
    h = ⟨{ d.host.shared with store := st }, d.host.node⟩

theorem shows_perform : Handler.Simulates Effect.isQuiet Shows perform Host.perform := by
  rintro e d _ he ⟨st, hst, rfl⟩
  cases e with
  | readActive =>
    refine ⟨?_, st, hst, rfl⟩
    simp only [perform, undisturbed, Host.perform, hst]
    cases d.host.node.faults.read d.host.node.reads <;> rfl
  | _ => first | exact ⟨rfl, st, hst, rfl⟩ | cases he

/-- Whatever changes nothing takes the altered record for the stored one. -/
theorem Shows.on {a : Action ε α} (hd : d.Shows s) (ha : a.Only Effect.isQuiet) : Alike Shows (d.on a) (a.on s) :=
  Prog.run_alike shows_perform ha hd

end DisturbedHost

open DisturbedHost

namespace KeyManager

variable {key : MasterKey} {o : Option KeyRecord} {r : KeyRecord}

theorem currentMasterKey_plain : currentMasterKey.Only Effect.isPlain :=
  .bind (.ask rfl) fun _ => .bind (.ofExcept _ _) fun _ => .ofExcept _ _

theorem loadDek_disturbed (h : Cold key o d.host) : d.on loadDek = on { d with host := looked d.host }
    (match o.map d.alter with | some r => ofExcept id (r.openWith key) | none => bootstrap key) := by
  have hkey : currentMasterKey.on d.host = (.ok key, (Host.perform .attest d.host).2) := by
    rw [currentMasterKey_on, h.attested]
  rw [loadDek, on_plain_bind currentMasterKey_plain hkey]
  exact on_bind_ok (on_readActive (d := { d with host := (Host.perform .attest d.host).2 }) h.reads h.active)

theorem currentDek_disturbed (hc : d.host.node.cache = none) : (d.on currentDek).1 = (d.on loadDek).1 := by
  have hcached : (ask .cached : Action KeyError _).on d.host = (.ok none, d.host) := by
    rw [on_ask]
    exact congrArg (fun o => (Except.ok o, d.host)) hc
  refine (congrArg Prod.fst (on_plain_bind (.ask rfl) hcached)).trans ?_
  refine (congrArg Prod.fst ((DisturbedHost.on_holding ..).trans (on_plain_bind (.ask rfl) hcached))).trans ?_
  refine (congrArg Prod.fst (Prog.run_bind perform loadDek.run _ d)).trans ?_
  unfold DisturbedHost.on
  generalize loadDek.run.run perform d = x
  obtain ⟨x, c⟩ := x
  cases x <;> rfl

/-- A manager without a key in the cache opens the altered record. -/
theorem currentDek_altered (h : Cold key (some r) d.host) : (d.on currentDek).1 = (d.alter r).openWith key := by
  rw [currentDek_disturbed h.cache, loadDek_disturbed h]
  exact congrArg Prod.fst (DisturbedHost.on_ofExcept_id ..)

end KeyManager

/-! ## Rivals -/

theorem Store.create_of_active {st : Store} {q : KeyRecord} (hs : st.Sound) (h : st.active? = .ok (some q))
    (r : KeyRecord) : st.create r = .error .activeRecordExists := by
  cases st with
  | found st => exact hs.elim
  | memory st =>
    have ha : st.records.any (·.active) = true := by
      rw [List.any_eq_true]
      exact ⟨q, List.mem_of_find?_eq_some (Except.ok.inj h), List.find?_some (Except.ok.inj h)⟩
    simp only [create, MemoryStore.create, ha]
    rfl
  | table st =>
    unfold active? TableStore.active? at h
    cases hf : st.rows.find? (·.isActive) with
    | none =>
      simp only [hf] at h
      cases h
    | some row =>
      have ha : st.rows.any (fun p => p.isActive || p.id == r.id) = true := by
        rw [List.any_eq_true]
        exact ⟨row, List.mem_of_find?_eq_some hf, by simp [List.find?_some hf]⟩
      simp only [create, TableStore.create, ha]
      rfl

namespace DisturbedHost

theorem create_rival {n : Node} {q : KeyRecord} (hs : s.Unhindered) (hsound : (compete n s.shared).store.Sound)
    (hq : (compete n s.shared).store.active? = .ok (some q)) (r : KeyRecord) :
    perform (.create r) ⟨s, id, some n⟩ = (Except.error .activeRecordExists,
      ⟨⟨compete n s.shared, { s.node with writes := s.node.writes + 1 }⟩, id, none⟩) := by
  have hf : s.node.faults.create s.node.writes = none := by rw [hs.faults]; rfl
  simp only [perform, hf, undisturbed, Host.perform, Host.write, Store.settle, Store.create_of_active hsound hq]
  rfl

end DisturbedHost

namespace KeyManager

variable {key : MasterKey}

theorem bootstrap_rival (hs : s.Unhindered) (key : MasterKey) (n : Node) : ∃ u : Host,
    u.Unhindered ∧ u.shared.store = s.shared.store ∧ ∀ q, (compete n u.shared).store.Sound →
      (compete n u.shared).store.active? = .ok (some q) →
      (on ⟨s, id, some n⟩ (bootstrap key)).1 = q.openWith key := by
  have hplain : ∀ {β : Type} {a : Action CryptoError β}, a.Only Effect.isLocal →
      (mapError KeyError.ofCrypto a).Only Effect.isPlain := fun ha =>
    .mapError _ (Prog.Only.mono ha fun e he => by cases e <;> first | rfl | cases he)
  obtain ⟨dek, v, hdek⟩ := (generateDek_succeeds hs).mapError KeyError.ofCrypto
  have hv := hs.on hdek
  obtain ⟨r, u, hr⟩ := (sealRecord_succeeds hv dek key KeyVersion.first).mapError KeyError.ofCrypto
  have hu := hv.on hr
  have hsame : v.shared.store = s.shared.store ∧ u.shared.store = v.shared.store := by
    have hd := same_of_quiet (.mapError KeyError.ofCrypto generateDek_local.quiet) s
    have hs := same_of_quiet (.mapError KeyError.ofCrypto (sealRecord_local dek key KeyVersion.first).quiet) v
    rw [hdek] at hd
    rw [hr] at hs
    exact ⟨hd.1, hs.1⟩
  refine ⟨u, hu, hsame.2.trans hsame.1, fun q hsound hq => ?_⟩
  have hcreate : on ⟨u, id, some n⟩ (ask (.create r) : Action KeyError _) =
      (.ok (.error .activeRecordExists), _) :=
    congrArg (fun x => (Except.ok x.1, x.2)) (create_rival hu hsound hq r)
  rw [bootstrap, on_plain_bind (hplain generateDek_local) hdek, on_plain_bind (hplain (sealRecord_local ..)) hr,
    on_bind_ok hcreate]
  have hread := on_readActive (d := ⟨⟨compete n u.shared, { u.node with writes := u.node.writes + 1 }⟩, id, none⟩)
    (by rw [hu.faults]; rfl) hq
  refine (congrArg Prod.fst (on_bind_ok hread)).trans ?_
  exact congrArg Prod.fst (DisturbedHost.on_ofExcept_id ..)

/-- A manager that looks for the first key while a rival creates it opens the rival's record. -/
theorem currentDek_rival (h : Cold key none s) (hs : s.Unhindered) (n : Node) : ∃ u : Host,
    u.Unhindered ∧ u.shared.store = s.shared.store ∧ ∀ q, (compete n u.shared).store.Sound →
      (compete n u.shared).store.active? = .ok (some q) →
      (on ⟨s, id, some n⟩ currentDek).1 = q.openWith key := by
  have hl : (looked s).Unhindered := (hs.perform .attest).perform .readActive
  obtain ⟨u, hu, hsame, hq⟩ := bootstrap_rival hl key n
  refine ⟨u, hu, hsame.trans (congrArg Shared.store (looked_looked s).shared), fun q hsound ha => ?_⟩
  rw [currentDek_disturbed (d := ⟨s, id, some n⟩) h.cache, loadDek_disturbed (d := ⟨s, id, some n⟩) h]
  exact hq q hsound ha

/-- Where both run the same code, they have one key then. -/
theorem currentDek_joins {n : Node} (h : Cold key none s) (hn : Cold key none ⟨s.shared, n⟩) (hs : s.Unhindered)
    (hf : n.faults = .none) (hm : ∃ m, s.shared.store = .memory m) (ha : s.shared.store.AtMostOneActive) :
    ∃ (u : Host) (dek : Dek), u.shared.store = s.shared.store ∧ (currentDek.on ⟨u.shared, n⟩).1 = .ok dek ∧
      (on ⟨s, id, some n⟩ currentDek).1 = .ok dek := by
  obtain ⟨u, hu, hsame, hq⟩ := currentDek_rival h hs n
  rw [← hsame] at hm ha
  have hcold : Cold key none ⟨u.shared, n⟩ := ⟨hn.attested, hn.reads, hsame ▸ hn.active, hn.cache⟩
  have hvacant : Vacant ⟨u.shared, n⟩ := by
    obtain ⟨m, hm⟩ := hm
    refine ⟨ha, hcold.active, by rw [hf]; rfl, ?_⟩
    rw [show (Host.mk u.shared n).shared.store = .memory m from hm]
    trivial
  obtain ⟨dek, q, t, hx, hserves, hopen, -⟩ := currentDek_serves hcold hvacant hm ⟨hf, hu.draws⟩
  have ht : compete n u.shared = t.shared := congrArg (fun p => p.2.shared) hx
  refine ⟨u, dek, hsame, congrArg Prod.fst hx, ?_⟩
  rw [hq q (ht ▸ hserves.alone.sound) (ht ▸ hserves.active)]
  exact hopen

end KeyManager

end AttestedVault
