import AttestedVault.Proofs.Solo

/-!
# Failed operations

An operation of a key manager writes at its end only: what comes before is
quiet and may fail, and nothing fails after a write that succeeded.
-/

namespace AttestedVault

variable {ε ε' α β : Type}

namespace Action

/-- If the action fails, store and cache are what they were. -/
def Clean (a : Action ε α) : Prop := ∀ h e t, a.on h = (.error e, t) → h.Same t

def Sure (a : Action ε α) : Prop := ∀ h e t, a.on h ≠ (.error e, t)

namespace Sure

theorem pure (a : α) : (Pure.pure a : Action ε α).Sure := by
  intro h e t ht
  cases ht

theorem ask (e : Effect) : (Action.ask e : Action ε e.Answer).Sure := by
  intro h e t ht
  rw [on_ask] at ht
  cases ht

theorem bind {a : Action ε α} {f : α → Action ε β} (ha : a.Sure) (hf : ∀ x, (f x).Sure) : (a >>= f).Sure := by
  intro h e t ht
  obtain he | ⟨x, u, -, he⟩ := bind_error ht
  · exact ha h e t he
  · exact hf x u e t he

end Sure

namespace Clean

theorem of_quiet {a : Action ε α} (ha : a.Only Effect.isQuiet) : a.Clean := by
  intro h e t ht
  have hs := same_of_quiet ha h
  rwa [ht] at hs

theorem of_sure {a : Action ε α} (ha : a.Sure) : a.Clean := fun h e t ht => absurd ht (ha h e t)

theorem quiet_bind {a : Action ε α} {f : α → Action ε β} (ha : a.Only Effect.isQuiet)
    (hf : ∀ x, (f x).Clean) : (a >>= f).Clean := by
  intro h e t ht
  have hs := same_of_quiet ha h
  obtain he | ⟨x, u, hu, he⟩ := bind_error ht
  · rwa [he] at hs
  · rw [hu] at hs
    exact hs.trans (hf x u e t he)

theorem bind_sure {a : Action ε α} {f : α → Action ε β} (ha : a.Clean) (hf : ∀ x, (f x).Sure) :
    (a >>= f).Clean := by
  intro h e t ht
  obtain he | ⟨x, u, -, he⟩ := bind_error ht
  · exact ha h e t he
  · exact absurd he (hf x u e t)

theorem mapError {a : Action ε α} (f : ε → ε') (ha : a.Clean) : (Action.mapError f a).Clean := by
  intro h e t ht
  obtain ⟨c, hc, -⟩ := mapError_error ht
  exact ha h c t hc

theorem holding {a : Action ε α} (lock : Lock) (mode : LockMode) (ha : a.Clean) :
    (Action.holding lock mode a).Clean := by
  intro h e t ht
  rw [on_holding] at ht
  exact ha h e t ht

theorem create {r : KeyRecord} {f : (Effect.create r).Answer → Action ε α}
    (hok : (f (Except.ok () : Except StoreError Unit)).Sure)
    (herr : ∀ e, (f (Except.error e : Except StoreError Unit)).Clean) :
    (Action.ask (.create r) >>= f).Clean := by
  intro h e t ht
  rw [on_bind, on_ask] at ht
  change (f (Host.perform (.create r) h).1).on (Host.perform (.create r) h).2 = _ at ht
  cases hr : (Host.perform (.create r) h).1 with
  | ok x =>
    rw [hr] at ht
    exact absurd ht (hok _ _ _)
  | error c =>
    rw [hr] at ht
    exact (Host.write_error hr).trans (herr c _ _ _ ht)

theorem replace (previous : String) (r : KeyRecord) : (Action.replace previous r).Clean := by
  intro h e t ht
  change ((Host.perform (.replace previous r) h).1.mapError KeyError.store,
    (Host.perform (.replace previous r) h).2) = _ at ht
  cases hr : (Host.perform (.replace previous r) h).1 with
  | ok x => rw [hr] at ht; cases ht
  | error c =>
    have hs := Host.write_error hr
    rw [hr] at ht
    cases ht
    exact hs

end Clean

end Action

/-! ## Operations -/

namespace KeyManager

open AttestedVault.Action

theorem bootstrap_clean (key : MasterKey) : (bootstrap key).Clean := by
  refine .quiet_bind (.mapError _ generateDek_local.quiet) fun dek => ?_
  refine .quiet_bind (.mapError _ (sealRecord_local _ _ _).quiet) fun record => ?_
  refine .create (.pure _) fun e => ?_
  by_cases he : e = .activeRecordExists
  · subst he
    refine .quiet_bind readActive_quiet fun r => ?_
    cases r with
    | none => exact .of_quiet (.throw _)
    | some r => exact .of_quiet (.ofExcept _ _)
  · cases e <;> first | exact absurd rfl he | exact .of_quiet (.throw _)

theorem loadDek_clean : loadDek.Clean := by
  refine .quiet_bind currentMasterKey_quiet fun key => .quiet_bind readActive_quiet fun r => ?_
  cases r with
  | none => exact bootstrap_clean key
  | some r => exact .of_quiet (.ofExcept _ _)

theorem currentDek_clean : currentDek.Clean := by
  refine .quiet_bind (.ask rfl) fun c => ?_
  cases (c : Option Dek) with
  | some dek => exact .of_sure (.pure _)
  | none =>
    refine .holding _ _ (.quiet_bind (.ask rfl) fun c => ?_)
    cases (c : Option Dek) with
    | some dek => exact .of_sure (.pure _)
    | none => exact .bind_sure loadDek_clean fun dek => .bind (.ask _) fun _ => .pure _

theorem on_lease (h : Host) : lease.on h = currentDek.on h := by
  -- the gate is free, so a lease is taken like the key itself
  refine (Prog.run_bind Host.perform currentDek.run _ h).trans ?_
  change _ = currentDek.run.run Host.perform h
  generalize currentDek.run.run Host.perform h = r
  obtain ⟨r, t⟩ := r
  cases r <;> rfl

theorem lease_clean : lease.Clean := by
  intro h e t ht
  rw [on_lease] at ht
  exact currentDek_clean h e t ht

theorem rotateWith_clean (lift : KeyError → ε) (c : Closure ε α) : (rotateWith lift c.act).Clean := by
  refine .holding _ _ (.holding _ _ ?_)
  refine .quiet_bind (.mapError _ currentMasterKey_quiet) fun key => ?_
  refine .quiet_bind (.mapError _ activeRecord_quiet) fun current => ?_
  refine .quiet_bind (.ofExcept _ _) fun old => ?_
  refine .quiet_bind (.mapError _ generateDek_local.quiet) fun dek => ?_
  refine .quiet_bind (.mapError _ (sealRecord_local _ _ _).quiet) fun record => ?_
  refine .quiet_bind (c.isLocal _ _).quiet fun result => ?_
  exact .bind_sure (.mapError _ (.replace _ _)) fun _ => .bind (.ask _) fun _ => .pure _

theorem rotate_clean : rotate.Clean :=
  .bind_sure (rotateWith_clean id (.ofExcept (.ok ()))) fun _ => .pure _

theorem migrate_clean (oldKey : MasterKey) : (migrate oldKey).Clean := by
  refine .holding _ _ (.quiet_bind currentMasterKey_quiet fun key => ?_)
  refine .quiet_bind activeRecord_quiet fun current => .quiet_bind (.ofExcept _ _) fun stored => ?_
  split
  · exact .of_quiet (.throw _)
  · refine .quiet_bind (.ofExcept _ _) fun dek => ?_
    refine .quiet_bind (.mapError _ (sealRecord_local _ _ _).quiet) fun record => ?_
    exact .bind_sure (.replace _ _) fun _ => .bind (.ask _) fun _ => .pure _

end KeyManager

/-- Whatever a store holds and whichever step fails. -/
theorem Operation.unchanged_of_failure (op : Operation ε α) (h : Host) :
    match op.action.on h with
    | (.ok _, _) => True
    | (.error _, t) => t.shared.store = h.shared.store ∧ t.node.cache = h.node.cache := by
  have hc : op.action.Clean := by
    cases op with
    | currentDek => exact KeyManager.currentDek_clean
    | lease => exact KeyManager.lease_clean
    | rotate => exact KeyManager.rotate_clean
    | rotateWith lift c => exact KeyManager.rotateWith_clean lift c
    | migrate oldKey => exact KeyManager.migrate_clean oldKey
    | currentMasterKeyId => exact .of_quiet KeyManager.currentMasterKeyId_quiet
    | state => exact .of_quiet KeyManager.state_quiet
  split
  · trivial
  · exact hc _ _ _ (by assumption)

end AttestedVault
