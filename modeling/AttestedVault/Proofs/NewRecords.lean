import AttestedVault.Proofs.Outcomes
import AttestedVault.Proofs.Wrapping

/-!
# New records

What goes into a record that is made: a key under a fresh initial value, the
next id and time. Which draws were granted on the way is kept count of.
-/

namespace AttestedVault

variable {ε α : Type} {s t : Host}

/-- Two reports that stand for keys with different ids, which are not to be computed. -/
theorem AttestationReport.exists_masterKeys : ∃ (a b : AttestationReport) (k l : MasterKey),
    a.masterKey = .ok k ∧ b.masterKey = .ok l ∧ k.id ≠ l.id := by
  obtain ⟨a, b, ha, hb, hne⟩ : ∃ a b : AttestationReport, a.masterKey.toOption.isSome = true ∧
      b.masterKey.toOption.isSome = true ∧
      a.masterKey.toOption.map MasterKey.id ≠ b.masterKey.toOption.map MasterKey.id :=
    ⟨blank, { blank with measurement := .ofBytes 48 [1] }, by decide +kernel, by decide +kernel, by decide +kernel⟩
  cases hk : a.masterKey with
  | error e => rw [hk] at ha; cases ha
  | ok k =>
    cases hl : b.masterKey with
    | error e => rw [hl] at hb; cases hb
    | ok l =>
      rw [hk, hl] at hne
      exact ⟨a, b, k, l, hk, hl, fun he => hne (congrArg some he)⟩

theorem AttestationReport.exists_masterKey : ∃ (a : AttestationReport) (k : MasterKey), a.masterKey = .ok k := by
  obtain ⟨a, -, k, -, hk, -⟩ := exists_masterKeys
  exact ⟨a, k, hk⟩

/-! ## Looking -/

def Effect.isLook : Effect → Bool
  | .attest | .readActive => true
  | _ => false

/-- The manager is where it was, but for the number of its requests and reads. -/
structure Host.Looked (s t : Host) : Prop where
  shared : t.shared = s.shared
  cache : t.node.cache = s.node.cache
  faults : t.node.faults = s.node.faults
  writes : t.node.writes = s.node.writes

namespace Host.Looked

theorem refl (s : Host) : s.Looked s := ⟨rfl, rfl, rfl, rfl⟩

theorem trans {u : Host} (h : s.Looked t) (h' : t.Looked u) : s.Looked u :=
  ⟨h'.shared.trans h.shared, h'.cache.trans h.cache, h'.faults.trans h.faults, h'.writes.trans h.writes⟩

theorem perform {e : Effect} (he : e.isLook = true) (s : Host) : s.Looked (Host.perform e s).2 := by
  cases e <;> first | exact ⟨rfl, rfl, rfl, rfl⟩ | cases he

theorem run {p : Prog α} (hp : p.Only Effect.isLook) : ∀ s : Host, s.Looked (p.run Host.perform s).2 := by
  induction p with
  | done a => exact refl
  | call e k ih => exact fun s => (perform hp.1 s).trans (ih _ (hp.2 _) _)

theorem on {a : Action ε α} {r : Except ε α} (ha : a.Only Effect.isLook) (h : a.on s = (r, t)) : s.Looked t := by
  obtain rfl : (a.on s).2 = t := congrArg Prod.snd h
  exact run ha s

end Host.Looked

namespace KeyManager

theorem currentMasterKey_looks : currentMasterKey.Only Effect.isLook :=
  .bind (.ask rfl) fun _ => .bind (.ofExcept _ _) fun _ => .ofExcept _ _

theorem activeRecord_looks : activeRecord.Only Effect.isLook := by
  refine .bind (.bind (.ask rfl) fun _ => .ofExcept _ _) fun r => ?_
  cases r with
  | none => exact .throw _
  | some r => exact .pure r

end KeyManager

/-! ## Draws -/

/-- The next `n` draws, of any lengths, were granted. -/
structure Random.Granted (n : Nat) (r r' : Random) : Prop where
  fails : r'.fails = r.fails
  attempts : r'.attempts = r.attempts + n
  granted : ∀ i < n, r.fails (r.attempts + i) = none

namespace Random.Granted

variable {r r' r'' : Random} {m n : Nat}

theorem refl (r : Random) : Granted 0 r r := ⟨rfl, rfl, nofun⟩

theorem trans (h : Granted m r r') (h' : Granted n r' r'') : Granted (m + n) r r'' := by
  refine ⟨h'.fails.trans h.fails, by rw [h'.attempts, h.attempts, Nat.add_assoc], fun i hi => ?_⟩
  by_cases him : i < m
  · exact h.granted i him
  · have hg := h'.granted (i - m) (by omega)
    rw [h.fails, h.attempts] at hg
    rwa [Nat.add_assoc, Nat.add_sub_of_le (Nat.le_of_not_lt him)] at hg

end Random.Granted

/-! ## Preparing -/

/-- So many draws were granted and so many records made, and nothing was written. -/
structure Host.Prepared (draws made : Nat) (s t : Host) : Prop where
  store : t.shared.store = s.shared.store
  stamps : t.shared.stamps = s.shared.stamps
  stamped : t.shared.stamped = s.shared.stamped + made
  random : s.shared.random.Granted draws t.shared.random
  cache : t.node.cache = s.node.cache
  faults : t.node.faults = s.node.faults
  writes : t.node.writes = s.node.writes

namespace Host.Prepared

variable {u : Host} {d d' m m' : Nat}

theorem trans (h : s.Prepared d m t) (h' : t.Prepared d' m' u) : s.Prepared (d + d') (m + m') u where
  store := h'.store.trans h.store
  stamps := h'.stamps.trans h.stamps
  stamped := by rw [h'.stamped, h.stamped, Nat.add_assoc]
  random := h.random.trans h'.random
  cache := h'.cache.trans h.cache
  faults := h'.faults.trans h.faults
  writes := h'.writes.trans h.writes

theorem refl (s : Host) : s.Prepared 0 0 s := ⟨rfl, rfl, rfl, .refl _, rfl, rfl, rfl⟩

theorem of_looked (h : s.Looked t) : s.Prepared 0 0 t := by
  refine ⟨?_, ?_, ?_, ?_, h.cache, h.faults, h.writes⟩ <;> rw [h.shared]
  · rfl
  · exact .refl _

theorem same (h : s.Prepared d m t) : s.Same t := ⟨h.store, h.cache⟩

end Host.Prepared

open AttestedVault.Action

theorem Action.draw_ok {n : Nat} {b : Octets n} (h : (draw n).on s = (.ok b, t)) : s.Prepared 1 0 t := by
  rw [on_draw] at h
  obtain rfl : (Host.perform (.draw n) s).2 = t := congrArg Prod.snd h
  cases hf : s.shared.random.fails s.shared.random.attempts with
  | some reason => simp only [Random.draw, hf] at h; cases h
  | none =>
    refine ⟨rfl, rfl, rfl, ?_, rfl, rfl, rfl⟩
    simp only [Host.perform, Random.draw, hf]
    exact ⟨rfl, rfl, fun i hi => by rw [Nat.lt_one_iff.mp hi]; exact hf⟩

theorem generateDek_ok {dek : Dek} (h : generateDek.on s = (.ok dek, t)) : s.Prepared 1 0 t := by
  obtain ⟨b, u, hb, hd⟩ := bind_ok h
  cases hd
  exact draw_ok hb

theorem sealRecord_made {dek : Dek} {key : MasterKey} {version : String} {r : KeyRecord}
    (h : (sealRecord dek key version).on s = (.ok r, t)) : s.Prepared 1 1 t ∧ r.Seals key dek version ∧
      (r.id, r.createdAt) = s.shared.stamps s.shared.stamped := by
  have hseals := (sealRecord_yields dek key version).on h
  obtain ⟨w, v, hw, hr⟩ := bind_ok h
  obtain ⟨iv, u, hiv, hw⟩ := bind_ok hw
  have hu := draw_ok hiv
  -- sealing itself counts for nothing here
  have hv : u.Prepared 0 0 v := by
    obtain ⟨x, v', hx, hw⟩ := bind_ok hw
    cases hx
    cases hw
    exact ⟨rfl, rfl, rfl, .refl _, rfl, rfl, rfl⟩
  have huv := hu.trans hv
  have hstamp : (r.id, r.createdAt) = v.shared.stamps v.shared.stamped ∧ v.Prepared 0 1 t := by
    cases hr
    exact ⟨rfl, rfl, rfl, rfl, .refl _, rfl, rfl, rfl⟩
  rw [huv.stamps, huv.stamped] at hstamp
  exact ⟨huv.trans hstamp.2, hseals, hstamp.1⟩

theorem Credential.encrypt_ok {key : Dek} {text c : String} (h : (Credential.encrypt key text).on s = (.ok c, t)) :
    s.Prepared 1 0 t := by
  obtain ⟨x, u, hx, hc⟩ := bind_ok h
  cases hc
  obtain ⟨iv, v, hiv, hx⟩ := bind_ok (mapError_ok hx)
  have ht : v.Prepared 0 0 t := by
    simp only [Octets.ofBytes?_val] at hx
    cases hx
    exact ⟨rfl, rfl, rfl, .refl _, rfl, rfl, rfl⟩
  exact (draw_ok hiv).trans ht

/-! ## Committing -/

theorem Host.perform_replace_ok {previous : String} {r : KeyRecord}
    (h : Host.perform (.replace previous r) s = (Except.ok (), t)) :
    s.node.faults.replace s.node.writes = none ∧ s.shared.store.replace previous r = .ok t.shared.store := by
  obtain rfl : (Host.perform (.replace previous r) s).2 = t := congrArg Prod.snd h
  refine ⟨?_, (Host.write_ok (congrArg Prod.fst h)).1⟩
  cases hf : s.node.faults.replace s.node.writes with
  | none => rfl
  | some e =>
    simp only [Host.perform, hf, Host.write] at h
    cases h

end AttestedVault
