import AttestedVault.Proofs.Continuity
import AttestedVault.Proofs.CredentialFormat

/-!
# Operations that nothing hinders

Where store calls and draws succeed, a rotation succeeds as soon as the running
code opens the active record, and an encryption as soon as a key is cached.
-/

namespace AttestedVault

variable {ε ε' α β : Type} {s t : Host}

/-- Calls on the store are made, and no draw fails. -/
structure Host.Unhindered (h : Host) : Prop where
  faults : h.node.faults = .none
  draws : ∀ n, h.shared.random.fails n = none

namespace Host.Unhindered

theorem perform (h : s.Unhindered) (e : Effect) : (Host.perform e s).2.Unhindered := by
  refine ⟨(Host.faults_perform e s).trans h.faults, ?_⟩
  cases e with
  | draw n =>
    simpa only [Host.perform, Random.draw, h.draws] using h.draws
  | create r =>
    simp only [Host.perform, Host.write]
    split <;> exact h.draws
  | replace previous r =>
    simp only [Host.perform, Host.write]
    split <;> exact h.draws
  | _ => exact h.draws

theorem run {p : Prog α} : ∀ {s : Host}, s.Unhindered → (p.run Host.perform s).2.Unhindered := by
  induction p with
  | done a => exact id
  | call e k ih => exact fun h => ih _ (h.perform e)

theorem on {a : Action ε α} {r : Except ε α} (hs : s.Unhindered) (h : a.on s = (r, t)) : t.Unhindered := by
  obtain rfl : (a.on s).2 = t := congrArg Prod.snd h
  exact hs.run

theorem draw (h : s.Unhindered) (n : Nat) : ∃ b, (s.shared.random.draw n).1 = .ok b := by
  simp only [Random.draw, h.draws]
  exact ⟨_, rfl⟩

end Host.Unhindered

namespace Action

def Succeeds (a : Action ε α) (s : Host) : Prop := ∃ x t, a.on s = (.ok x, t)

namespace Succeeds

theorem of_fst {a : Action ε α} {x : α} (h : (a.on s).1 = .ok x) : a.Succeeds s :=
  ⟨x, (a.on s).2, Prod.ext h rfl⟩

theorem bind {a : Action ε α} {f : α → Action ε β} (ha : a.Succeeds s)
    (hf : ∀ x t, a.on s = (.ok x, t) → (f x).Succeeds t) : (a >>= f).Succeeds s := by
  obtain ⟨x, t, hx⟩ := ha
  obtain ⟨y, u, hy⟩ := hf x t hx
  exact ⟨y, u, by rw [on_bind, hx]; exact hy⟩

theorem quiet_bind {a : Action ε α} {f : α → Action ε β} (hs : s.Unhindered) (hq : a.Only Effect.isQuiet)
    (ha : a.Succeeds s)
    (hf : ∀ x t, a.on s = (.ok x, t) → t.Unhindered → t.shared.store = s.shared.store → (f x).Succeeds t) :
    (a >>= f).Succeeds s := by
  refine ha.bind fun x t hx => hf x t hx (hs.on hx) ?_
  have hsame := same_of_quiet hq s
  rw [hx] at hsame
  exact hsame.1

theorem pure (a : α) : (Pure.pure a : Action ε α).Succeeds s := ⟨a, s, rfl⟩

theorem ask (e : Effect) : (Action.ask e : Action ε e.Answer).Succeeds s := ⟨_, _, on_ask e s⟩

theorem ofExcept {f : ε → ε'} {r : Except ε α} {x : α} (h : r = .ok x) : (Action.ofExcept f r).Succeeds s := by
  rw [h]
  exact ⟨x, s, rfl⟩

theorem mapError {a : Action ε α} (f : ε → ε') (h : a.Succeeds s) : (Action.mapError f a).Succeeds s := by
  obtain ⟨x, t, hx⟩ := h
  exact ⟨x, t, by rw [on_mapError, hx]; rfl⟩

theorem holding {a : Action ε α} (lock : Lock) (mode : LockMode) (h : a.Succeeds s) :
    (Action.holding lock mode a).Succeeds s := by
  obtain ⟨x, t, hx⟩ := h
  exact ⟨x, t, (on_holding ..).trans hx⟩

theorem draw (hs : s.Unhindered) (n : Nat) : (Action.draw n).Succeeds s := by
  obtain ⟨b, hb⟩ := hs.draw n
  refine .of_fst (x := b) ?_
  rw [on_draw, hb]
  rfl

theorem replace {previous : String} {r : KeyRecord} (hs : s.Unhindered)
    (h : ∃ store, s.shared.store.replace previous r = .ok store) : (Action.replace previous r).Succeeds s := by
  obtain ⟨store, h⟩ := h
  refine (ask (.replace previous r)).bind fun x t hx => .ofExcept (x := ()) ?_
  rw [on_ask] at hx
  cases hx
  simp only [Host.perform, hs.faults, Faults.none, Host.write, Store.settle, h]

end Succeeds

end Action

open AttestedVault.Action

theorem generateDek_succeeds (hs : s.Unhindered) : generateDek.Succeeds s :=
  (Succeeds.draw hs 32).bind fun _ _ _ => .pure _

theorem sealRecord_succeeds (hs : s.Unhindered) (dek : Dek) (key : MasterKey) (version : String) :
    (sealRecord dek key version).Succeeds s := by
  obtain ⟨iv, hiv⟩ := hs.draw 12
  refine Succeeds.bind (.of_fst (x := .wrap dek key iv (some ⟨key.id, version⟩)) ?_) fun w t _ => ⟨_, _, rfl⟩
  rw [on_wrapDek, hiv]

namespace KeyManager

theorem currentMasterKey_succeeds {k : MasterKey} (h : s.masterKey = .ok k) : currentMasterKey.Succeeds s := by
  refine .of_fst (x := k) ?_
  rw [currentMasterKey_on, h]

theorem activeRecord_succeeds {r : KeyRecord} (hs : s.Unhindered) (h : s.shared.store.active? = .ok (some r)) :
    activeRecord.Succeeds s := by
  refine ⟨r, (Host.perform .readActive s).2, ?_⟩
  rw [activeRecord, on_bind, readActive_on (by rw [hs.faults]; rfl) h]
  rfl

theorem rotateWith_succeeds {lift : KeyError → ε} {c : Closure ε α} {k : MasterKey} {r : KeyRecord} {old : Dek}
    (hs : s.Unhindered) (hk : s.masterKey = .ok k) (hr : s.shared.store.active? = .ok (some r))
    (ho : r.openWith k = .ok old) (hc : ∀ dek t, t.Unhindered → (c.act old dek).Succeeds t)
    (hst : ∀ q, q.active = true → ∃ store, s.shared.store.replace r.id q = .ok store) :
    (rotateWith lift c.act).Succeeds s := by
  refine .holding _ _ (.holding _ _ ?_)
  refine .quiet_bind hs (.mapError _ currentMasterKey_quiet) (.mapError _ (currentMasterKey_succeeds hk))
    fun key s₁ hx h₁ e₁ => ?_
  obtain rfl : k = key := Except.ok.inj (hk.symm.trans (currentMasterKey_ok (mapError_ok hx)))
  have hr₁ : s₁.shared.store.active? = .ok (some r) := e₁ ▸ hr
  refine .quiet_bind h₁ (.mapError _ activeRecord_quiet) (.mapError _ (activeRecord_succeeds h₁ hr₁))
    fun current s₂ hx h₂ e₂ => ?_
  obtain rfl : r = current := Option.some.inj (Except.ok.inj (hr₁.symm.trans (activeRecord_ok (mapError_ok hx))))
  refine .quiet_bind h₂ (.ofExcept _ _) (.ofExcept ho) fun o s₃ hx h₃ e₃ => ?_
  obtain rfl : old = o := Except.ok.inj (ho.symm.trans (ofExcept_ok hx).1)
  refine .quiet_bind h₃ (.mapError _ generateDek_local.quiet) (.mapError _ (generateDek_succeeds h₃))
    fun dek s₄ _ h₄ e₄ => ?_
  refine .quiet_bind h₄ (.mapError _ (sealRecord_local _ _ _).quiet) (.mapError _ (sealRecord_succeeds h₄ _ _ _))
    fun q s₅ hx h₅ e₅ => ?_
  refine .quiet_bind h₅ (c.isLocal _ _).quiet (hc dek s₅ h₅) fun result s₆ _ h₆ e₆ => ?_
  -- the store is still the one that was there at first
  have hst₆ : ∃ store, s₆.shared.store.replace r.id q = .ok store := by
    rw [e₆, e₅, e₄, e₃, e₂, e₁]
    exact hst q (sealRecord_ok hx).active
  refine .bind (.mapError _ (.replace h₆ hst₆)) fun _ _ _ => ?_
  exact .bind (.ask _) fun _ _ _ => .pure _

theorem rotate_succeeds {k : MasterKey} {r : KeyRecord} {old : Dek} (hs : s.Unhindered) (hk : s.masterKey = .ok k)
    (hr : s.shared.store.active? = .ok (some r)) (ho : r.openWith k = .ok old)
    (hst : ∀ q, q.active = true → ∃ store, s.shared.store.replace r.id q = .ok store) : rotate.Succeeds s := by
  refine .bind ?_ fun _ _ _ => .pure _
  exact rotateWith_succeeds (c := .ofExcept (.ok ())) hs hk hr ho (fun _ _ _ => .ofExcept rfl) hst

end KeyManager

end AttestedVault
