import AttestedVault.Proofs.ActiveRecord
import AttestedVault.Proofs.Interference

/-!
# The rules of a key manager

Who has the lifecycle lock finds the store unchanged, and the cache at most
emptied. Who has the gate, shared or alone, finds the same key in force. Every
operation keeps to these rules.
-/

namespace AttestedVault

variable {ε α : Type} {K : KeyRing} {H : Held} {s t : Host}

def Host.rules (K : KeyRing) : Rules Host where
  perform _ := Host.perform
  invariant h := h.shared.store.Sound ∧ h.node.attestor.Within K
  respects n l s t :=
    match n, l with
    | 0, .lifecycle =>
      t.shared.store = s.shared.store ∧ (t.node.cache = s.node.cache ∨ t.node.cache = none)
    | 0, .gate =>
      (∀ d, s.shared.store.Holds K d → t.shared.store.Holds K d) ∧ (s.Coherent K → t.Coherent K)
    | _ + 1, _ => True
  kept n l s :=
    match n, l with
    | 0, .gate => s.Coherent K
    | _, _ => True
  refl n l s := by
    cases n with
    | zero => cases l with
      | gate => exact ⟨fun _ h => h, id⟩
      | lifecycle => exact ⟨rfl, .inl rfl⟩
    | succ n => trivial
  trans := by
    intro n l s t u h h'
    cases n with
    | zero => cases l with
      | gate => exact ⟨fun d hd => h'.1 d (h.1 d hd), fun hc => h'.2 (h.2 hc)⟩
      | lifecycle =>
        refine ⟨h'.1.trans h.1, ?_⟩
        rcases h'.2 with hc | hc
        · rw [hc]
          exact h.2
        · exact .inr hc
    | succ n => trivial
  keeps := by
    intro n l s t h hk
    cases n with
    | zero => cases l with
      | gate => exact h.2 hk
      | lifecycle => trivial
    | succ n => trivial

inductive Work : Type 1
  | operation {ε α : Type} (op : Operation ε α)
  | clearCache

namespace Work

def prog : Work → Prog (Option Dek)
  | operation .lease => KeyManager.lease.run.bind fun r => .done r.toOption
  | operation op => op.action.run.bind fun _ => .done none
  | clearCache => KeyManager.clearCache.bind fun _ => .done none

def Rotates : Work → Prop
  | operation .rotate | operation (.rotateWith ..) => True
  | _ => False

def oldKey? : Work → Option MasterKey
  | operation (.migrate k) => some k
  | _ => none

theorem oldKey?_of_rotates {w : Work} (h : w.Rotates) : w.oldKey? = none := by
  cases w with
  | clearCache => rfl
  | operation op => cases op <;> first | rfl | cases h

/-- A migration that comes to replace the active record was given the master key
that this record names. -/
def Admits (K : KeyRing) (w : Work) (e : Effect) (h : Host) : Prop :=
  match e with
  | .replace .. => ∀ k, w.oldKey? = some k →
    K.mem k ∧ ∃ r, h.shared.store.active? = .ok (some r) ∧ r.keyId = .ok k.id
  | _ => True

theorem admits_of_oldKey? {w : Work} (h : w.oldKey? = none) (e : Effect) (s : Host) : w.Admits K e s := by
  cases e with
  | replace previous r =>
    intro k hk
    rw [h] at hk
    cases hk
  | _ => trivial

/-- A rotation has the gate alone when it replaces the active record. -/
def role (K : KeyRing) (w : Work) : Role Host where
  promise := w.Admits K
  duty e H :=
    match e with
    | .replace .. => w.Rotates → H .gate = some .exclusive
    | _ => True

end Work

namespace Host

theorem respects_of_same (h : s.Same t) (n : Nat) (l : Lock) : (rules K).respects n l s t := by
  cases n with
  | zero =>
    cases l with
    | gate =>
      refine ⟨fun d hd => ?_, fun hc d hd => ?_⟩
      · rw [h.1]
        exact hd
      · rw [h.1]
        exact hc d (h.2 ▸ hd)
    | lifecycle => exact ⟨h.1, .inl h.2⟩
  | succ n => trivial

theorem invariant_of_same (h : s.Same t) (hs : (rules K).invariant s) (ht : t.node.attestor.Within K) :
    (rules K).invariant t := ⟨h.1 ▸ hs.1, ht⟩

theorem free_of_quiet (w : Work) {e : Effect} (he : e.isQuiet = true) : (rules K).Free (w.role K) e where
  locking := by cases e <;> first | rfl | cases he
  duty H := by cases e <;> trivial
  honest n s := honest_perform e s
  invariant n s hs := invariant_of_same (same_perform he s) hs (within_perform hs.2 rfl)
  respects n n' l s hs := respects_of_same (same_perform he s) n' l

theorem grants_of_lifecycle (hl : H .lifecycle = some .exclusive) (hs : (rules K).invariant t)
    (hg : H .gate ≠ some .exclusive → (rules K).respects 0 .gate s t) : (rules K).Grants 0 H s t := by
  refine ⟨hs, fun n l hx => ?_⟩
  cases n with
  | zero =>
    cases l with
    | gate => exact hg (hx rfl)
    | lifecycle => exact absurd hl (hx rfl)
  | succ n => trivial

theorem grants_of_same (h : s.Same t) (hs : (rules K).invariant s) (ht : t.node.attestor.Within K) :
    (rules K).Grants 0 H s t :=
  ⟨invariant_of_same h hs ht, fun n l _ => respects_of_same h n l⟩

theorem relies_of_same (h : s.Same t) (hs : (rules K).invariant s) (ht : t.node.attestor.Within K) :
    (rules K).Relies 0 H s t :=
  ⟨invariant_of_same h hs ht, fun l _ => respects_of_same h 0 l⟩

theorem grants_forget (hs : (rules K).invariant s) :
    (rules K).Grants 0 H s { s with node := { s.node with cache := none } } := by
  refine ⟨hs, fun n l _ => ?_⟩
  cases n with
  | zero =>
    cases l with
    | gate => exact ⟨fun _ h => h, fun _ => nofun⟩
    | lifecycle => exact ⟨rfl, .inr rfl⟩
  | succ n => trivial

theorem Stored.invariant {r : KeyRecord} (h : Stored r s t) (ht : t.node.attestor.Within K) :
    (rules K).invariant t := ⟨h.installed.1, ht⟩

theorem Stored.respects {r : KeyRecord} {k : MasterKey} {d : Dek} {v : String} (h : Stored r s t)
    (hr : r.Seals k d v) (hk : K.mem k) (hd : ∀ d', s.shared.store.Holds K d' → d' = d) :
    (rules K).respects 0 .gate s t := by
  have hold : ∀ d', s.shared.store.Holds K d' → t.shared.store.Holds K d' := by
    intro d' hd'
    rw [hd d' hd']
    exact h.holds hr hk
  exact ⟨hold, fun hc d' hd' => hold d' (hc d' (h.cache ▸ hd'))⟩

end Host

/-! ## Operations -/

namespace KeyManager

open AttestedVault.Action

variable {w : Work}

theorem store_of_relies (hl : H .lifecycle ≠ none) (h : (Host.rules K).Relies 0 H s t) :
    t.shared.store = s.shared.store := (h.2 .lifecycle hl).1

theorem currentMasterKey_still : currentMasterKey.Still (Host.rules K) (w.role K) 0 H s K.mem := by
  refine .ask (Host.free_of_quiet w rfl) fun t x ht hx => ?_
  refine Still.bind (P := fun r => x = Except.ok r) (.ofExcept fun r hr => hr) fun r hr => ?_
  exact .ofExcept fun k hk => ht.1.2.mem (hx.trans hr) hk

theorem readActive_still : readActive.Still (Host.rules K) (w.role K) 0 H s
    fun o => ∃ t, (Host.rules K).Relies 0 H s t ∧ t.shared.store.active? = .ok o := by
  refine .ask (Host.free_of_quiet w rfl) fun t x ht hx => .ofExcept fun o ho => ⟨t, ht, ?_⟩
  exact Host.read_ok (hx.trans ho)

theorem activeRecord_still : activeRecord.Still (Host.rules K) (w.role K) 0 H s
    fun r => ∃ t, (Host.rules K).Relies 0 H s t ∧ t.shared.store.active? = .ok (some r) := by
  refine readActive_still.bind fun o ho => ?_
  cases o with
  | none => exact .throw _
  | some r => exact .pure ho

theorem still_of_quiet {a : Action ε α} (ha : a.Only Effect.isQuiet) :
    a.Still (Host.rules K) (w.role K) 0 H s fun _ => True :=
  .of_only (fun _ => Host.free_of_quiet w) ha (Prog.yields_of_forall (fun _ _ _ => trivial) _)

theorem sealRecord_still (dek : Dek) (key : MasterKey) (version : String) :
    (sealRecord dek key version).Still (Host.rules K) (w.role K) 0 H s (·.Seals key dek version) :=
  .of_only (fun _ => Host.free_of_quiet w) (sealRecord_local _ _ _).quiet (sealRecord_yields _ _ _)

/-- Ends with the locks that it had, and the key that it returns is in force. -/
structure Obtains (K : KeyRing) (H : Held) (x : Except KeyError Dek) (H' : Held) (t : Host) : Prop where
  locks : H' = H
  holds : ∀ d, x = .ok d → t.shared.store.Holds K d

theorem openWith_safe (hl : H .lifecycle ≠ none) {r : KeyRecord} {key : MasterKey} (hk : K.mem key)
    (hr : ∃ t, (Host.rules K).Relies 0 H s t ∧ t.shared.store.active? = .ok (some r)) :
    (ofExcept id (r.openWith key) : Action KeyError Dek).run.Safe (Host.rules K) (w.role K) 0 (Obtains K H) H s := by
  obtain ⟨t, ht, hr⟩ := hr
  refine fun u hu => ⟨rfl, fun d hd => ?_⟩
  have ho : r.openWith key = .ok d := by
    cases hx : r.openWith key <;> rw [hx] at hd <;> cases hd
    rfl
  rw [store_of_relies hl hu, ← store_of_relies hl ht]
  exact .of_openWith ht.1.1 hr hk ho

theorem bootstrap_safe (hl : H .lifecycle = some .exclusive) {key : MasterKey} (hk : K.mem key) :
    (bootstrap key).run.Safe (Host.rules K) (w.role K) 0 (Obtains K H) H s := by
  have hl' : H .lifecycle ≠ none := by
    rw [hl]
    exact nofun
  refine ((still_of_quiet generateDek_local.quiet).mapError _).safe_bind (fun dek _ => ?_) fun _ _ _ => ⟨rfl, nofun⟩
  refine ((sealRecord_still dek key KeyVersion.first).mapError _).safe_bind (fun r hr => ?_) fun _ _ _ => ⟨rfl, nofun⟩
  refine safe_call rfl fun t x u ht _ hx => ⟨trivial, ?_⟩
  have hw := Host.within_perform (e := .create r) ht.1.2 hx
  cases (x : Except StoreError Unit) with
  | ok x =>
    obtain ⟨hst, hn⟩ := Host.stored_of_create ht.1.1 hr.active hx
    refine ⟨Host.grants_of_lifecycle hl (hst.invariant hw) fun _ => hst.respects hr hk fun d hd => ?_, ?_⟩
    · exact absurd hn hd.active?_ne_none
    · refine safe_pure fun v hv => ⟨rfl, fun d hd => ?_⟩
      cases hd
      rw [store_of_relies hl' hv]
      exact hst.holds hr hk
  | error e =>
    -- nothing was written, so the other manager's record is what was there all the time
    have hsame : t.Same u := Host.same_of_create hx
    refine ⟨Host.grants_of_same hsame ht.1 hw, Prog.Safe.relies ?_ (ht.trans (Host.relies_of_same hsame ht.1 hw))⟩
    by_cases he : e = .activeRecordExists
    · subst he
      refine readActive_still.safe_bind (fun o ho => ?_) fun _ _ _ => ⟨rfl, nofun⟩
      cases o with
      | none => exact safe_throw fun _ _ => ⟨rfl, nofun⟩
      | some r => exact openWith_safe hl' hk ho
    · cases e <;> first | exact absurd rfl he | exact safe_throw fun _ _ => ⟨rfl, nofun⟩

theorem loadDek_safe (hl : H .lifecycle = some .exclusive) :
    loadDek.run.Safe (Host.rules K) (w.role K) 0 (Obtains K H) H s := by
  refine currentMasterKey_still.safe_bind (fun key hk => ?_) fun _ _ _ => ⟨rfl, nofun⟩
  refine readActive_still.safe_bind (fun o ho => ?_) fun _ _ _ => ⟨rfl, nofun⟩
  cases o with
  | none => exact bootstrap_safe hl hk
  | some r => exact openWith_safe (hl ▸ nofun) hk ho

theorem remember_safe {dek : Dek} {f : Unit → Action ε α} {post : Except ε α → Held → Host → Prop}
    (hl : H .lifecycle = some .exclusive) (hd : s.shared.store.Holds K dek)
    (h : ∀ t, t.shared.store.Holds K dek → t.Coherent K →
      (f ()).run.Safe (Host.rules K) (w.role K) 0 post H t) :
    (ask (.remember dek) >>= f).run.Safe (Host.rules K) (w.role K) 0 post H s := by
  refine safe_call rfl fun t x u ht _ hx => ⟨trivial, ?_⟩
  have hdt : t.shared.store.Holds K dek := by
    rw [store_of_relies (hl ▸ nofun) ht]
    exact hd
  cases hx
  have hc : ∀ d, some dek = some d → t.shared.store.Holds K d := by
    intro d he
    cases he
    exact hdt
  exact ⟨Host.grants_of_lifecycle hl ht.1 fun _ => ⟨fun _ h => h, fun _ => hc⟩, h _ hdt hc⟩

def InForce (K : KeyRing) (H : Held) (x : Except KeyError Dek) (t : Host) : Prop :=
  ∀ d, x = .ok d → H .gate ≠ none → t.shared.store.Holds K d

theorem InForce.relies {x : Except KeyError Dek} (h : InForce K H x s) (ht : (Host.rules K).Relies 0 H s t) :
    InForce K H x t := fun d hd hg => (ht.2 .gate hg).1 d (h d hd hg)

theorem inForce_of_cache {d : Dek} (hc : H .gate ≠ none → s.Coherent K) (h : s.node.cache = some d) :
    InForce K H (.ok d) s := by
  intro d' hd hg
  cases hd
  exact hc hg d h

theorem inForce_of_holds {d : Dek} (h : s.shared.store.Holds K d) : InForce K H (.ok d) s := by
  intro d' hd _
  cases hd
  exact h

theorem currentDek_safe (hl : H .lifecycle = none) (hc : H .gate ≠ none → s.Coherent K) :
    currentDek.run.Safe (Host.rules K) (w.role K) 0 (fun x H' t => H' = H ∧ InForce K H x t) H s := by
  have hcoh : ∀ {t}, (Host.rules K).Relies 0 H s t → H .gate ≠ none → t.Coherent K :=
    fun ht hg => (ht.2 .gate hg).2 (hc hg)
  refine safe_ask (Host.free_of_quiet w rfl) fun t x ht hx => ?_
  cases (x : Option Dek) with
  | some dek => exact safe_pure fun u hu => ⟨rfl, (inForce_of_cache (hcoh ht) hx).relies hu⟩
  | none =>
    refine safe_holding hl fun u hu _ => ?_
    -- what is obtained under the lock can be relied on after it
    have hl' : H.set .lifecycle (some .exclusive) .lifecycle = some .exclusive := rfl
    refine safe_ask (Host.free_of_quiet w rfl) fun v y hv hy => ?_
    have hsv := (ht.trans hu).trans hv.of_set
    cases (y : Option Dek) with
    | some dek =>
      refine safe_pure fun v' hv' => ⟨rfl, fun _ => trivial, fun v'' hv'' => ⟨rfl, ?_⟩⟩
      exact (inForce_of_cache (hcoh hsv) hy).relies (hv'.of_set.trans hv'')
    | none =>
      refine safe_bind (loadDek_safe hl') (fun dek H' v' hv' => .of_relies fun v₁ hv₁ => ?_) ?_
      · obtain ⟨rfl, hd⟩ := hv' v₁ hv₁
        refine remember_safe hl' (hd dek rfl) fun v₂ hd₂ _ => safe_pure fun v₃ hv₃ => ?_
        exact ⟨rfl, fun _ => trivial, fun v₄ hv₄ => ⟨rfl, (inForce_of_holds hd₂).relies (hv₃.of_set.trans hv₄)⟩⟩
      · rintro e H' v' ⟨rfl, -⟩
        exact ⟨rfl, fun _ => trivial, fun _ _ => ⟨rfl, nofun⟩⟩

theorem lease_safe (hg : H .gate = none) (hl : H .lifecycle = none) :
    lease.run.Safe (Host.rules K) (w.role K) 0
      (fun x H' t => ∀ d, x = .ok d → H' .gate = some .shared ∧ t.shared.store.Holds K d) H s := by
  refine fun t ht => ⟨hg, fun hc => ?_⟩
  refine Prog.Safe.bind (p := currentDek.run) (currentDek_safe hl fun _ => hc) fun x H' u hu => ?_
  cases x with
  | ok dek =>
    intro v hv d hd
    obtain ⟨rfl, hf⟩ := hu v hv
    exact ⟨rfl, hf d hd (Option.some_ne_none _)⟩
  | error e =>
    refine fun v hv => ⟨fun hx => ?_, fun _ _ => nofun⟩
    rw [(hu v hv).1] at hx
    cases hx

theorem replace_safe {previous : String} {r : KeyRecord} {post : Except KeyError Unit → Held → Host → Prop}
    (hl : H .lifecycle = some .exclusive) (hw : w.Rotates → H .gate = some .exclusive) (ha : r.active = true)
    (hok : ∀ t u, (Host.rules K).Relies 0 H s t → w.Admits K (.replace previous r) t → Host.Stored r t u →
      (H .gate ≠ some .exclusive → (Host.rules K).respects 0 .gate t u) ∧
        ∀ v, (Host.rules K).Relies 0 H u v → post (.ok ()) H v)
    (herr : ∀ e t, (Host.rules K).Relies 0 H s t → post (.error e) H t) :
    (Action.replace previous r).run.Safe (Host.rules K) (w.role K) 0 post H s := by
  refine safe_call rfl fun t x u ht hp hx => ⟨hw, ?_⟩
  have hat := Host.within_perform (e := .replace previous r) ht.1.2 hx
  cases (x : Except StoreError Unit) with
  | ok x =>
    have hst := Host.stored_of_replace ht.1.1 ha hx
    obtain ⟨hg, hpost⟩ := hok t u ht hp hst
    exact ⟨Host.grants_of_lifecycle hl (hst.invariant hat) hg, hpost⟩
  | error e =>
    have hsame := Host.same_of_replace hx
    refine ⟨Host.grants_of_same hsame ht.1 hat, fun v hv => herr _ v ?_⟩
    exact (ht.trans (Host.relies_of_same hsame ht.1 hat)).trans hv

theorem rotateWith_safe {lift : KeyError → ε} (c : Closure ε α) (hg : H .gate = none) (hl : H .lifecycle = none) :
    (rotateWith lift c.act).run.Safe (Host.rules K) (w.role K) 0 (fun _ _ _ => True) H s := by
  -- between the new record and the new key in the cache nobody else has the gate
  refine safe_holding hg fun t _ hc => safe_holding hl fun u hu _ => ?_
  have hcu : u.Coherent K := (hu.2 .gate (Option.some_ne_none _)).2 hc
  let H' := (H.set .gate (some .exclusive)).set .lifecycle (some .exclusive)
  have hl' : H' .lifecycle = some .exclusive := rfl
  have hg' : H' .gate = some .exclusive := rfl
  refine Prog.Safe.weaken (P := fun _ H'' v => H'' = H' ∧ v.Coherent K) ?_ fun x H'' v hv => ?_
  · -- up to the write the old key is in force, and so the cache may stay
    have herr : ∀ {v : Host}, (Host.rules K).Relies 0 H' u v → H' = H' ∧ v.Coherent K :=
      fun hv => ⟨rfl, (hv.2 .gate (Option.some_ne_none _)).2 hcu⟩
    refine (currentMasterKey_still.mapError _).safe_bind (fun key hk => ?_) fun _ _ => herr
    refine (activeRecord_still.mapError _).safe_bind (fun current _ => ?_) fun _ _ => herr
    refine (Still.ofExcept (Q := fun _ => True) fun _ _ => trivial).safe_bind (fun old _ => ?_) fun _ _ => herr
    refine ((still_of_quiet generateDek_local.quiet).mapError _).safe_bind (fun dek _ => ?_) fun _ _ => herr
    refine ((sealRecord_still dek key _).mapError _).safe_bind (fun r hr => ?_) fun _ _ => herr
    refine (still_of_quiet (c.isLocal old dek).quiet).safe_bind (fun result _ => ?_) fun _ _ => herr
    -- from the write to the new cached key the two disagree, which the gate hides
    let P : Except ε Unit → Held → Host → Prop := fun x H'' v =>
      H'' = H' ∧ (x = .ok () → v.shared.store.Holds K dek) ∧ ∀ e, x = .error e → v.Coherent K
    refine safe_bind (P := P) (safe_mapError (replace_safe hl' (fun _ => hg') hr.active ?_ ?_)) ?_ ?_
    · refine fun v v' _ _ hst => ⟨fun hx => absurd hg' hx, fun v'' hv'' => ⟨rfl, fun _ => ?_, nofun⟩⟩
      rw [store_of_relies (hl' ▸ nofun) hv'']
      exact hst.holds hr hk
    · exact fun e v hv => ⟨rfl, nofun, fun _ _ => (herr hv).2⟩
    · refine fun _ H'' v hv => .of_relies fun v' hv' => ?_
      obtain ⟨rfl, hd, -⟩ := hv v' hv'
      refine remember_safe hl' (hd rfl) fun v₁ _ hc₁ => safe_pure fun v₂ hv₂ => ⟨rfl, ?_⟩
      exact (hv₂.2 .gate (Option.some_ne_none _)).2 hc₁
    · exact fun e H'' v hv => ⟨hv.1, hv.2.2 e rfl⟩
  · exact ⟨hv.1, fun _ => trivial, fun v' hv' =>
      ⟨rfl, fun _ => (hv'.2 .gate (Option.some_ne_none _)).2 hv.2, fun _ _ => trivial⟩⟩

theorem forget_safe {f : Unit → Action ε α} {post : Except ε α → Held → Host → Prop}
    (h : ∀ t, (f ()).run.Safe (Host.rules K) (w.role K) 0 post H t) :
    (ask .forget >>= f).run.Safe (Host.rules K) (w.role K) 0 post H s := by
  refine safe_call rfl fun t x u ht _ hx => ⟨trivial, ?_⟩
  cases hx
  exact ⟨Host.grants_forget ht.1, h _⟩

theorem migrate_safe {oldKey : MasterKey} (hl : H .lifecycle = none) :
    (migrate oldKey).run.Safe (Host.rules K) ((Work.operation (.migrate oldKey)).role K) 0
      (fun _ _ _ => True) H s := by
  refine safe_holding hl fun u _ _ => ?_
  let H' := H.set .lifecycle (some .exclusive)
  have hl' : H' .lifecycle = some .exclusive := rfl
  have hpost : ∀ v : Host, H' = H' ∧ (LockMode.exclusive = .exclusive → (Host.rules K).kept 0 .lifecycle v) ∧
      ∀ v', (Host.rules K).Relies 0 H v v' → True := fun v => ⟨rfl, fun _ => trivial, fun _ _ => trivial⟩
  refine currentMasterKey_still.safe_bind (fun key hk => ?_) fun _ v _ => hpost v
  refine activeRecord_still.safe_bind (fun current hcur => ?_) fun _ v _ => hpost v
  obtain ⟨t, ht, hcur⟩ := hcur
  refine (Still.ofExcept (Q := fun _ => True) fun _ _ => trivial).safe_bind (fun stored _ => ?_) fun _ v _ => hpost v
  by_cases hs : stored = key.id
  · rw [if_pos hs]
    exact safe_throw fun v _ => hpost v
  rw [if_neg hs]
  refine (Still.ofExcept (Q := fun d => current.unwrap oldKey = .ok d) fun _ h => h).safe_bind (fun dek hd => ?_)
    fun _ v _ => hpost v
  refine ((sealRecord_still dek key current.version).mapError _).safe_bind (fun r hr => ?_) fun _ v _ => hpost v
  refine safe_bind (P := fun _ H'' _ => H'' = H') (replace_safe hl' nofun hr.active ?_ fun _ _ _ => rfl) ?_ ?_
  · intro v v' hv hadm hst
    have hstore : v.shared.store = t.shared.store :=
      (store_of_relies (hl' ▸ nofun) hv).trans (store_of_relies (hl' ▸ nofun) ht).symm
    obtain ⟨ho, r', hr', hid⟩ := hadm oldKey rfl
    rw [hstore, hcur] at hr'
    cases hr'
    have hold : v.shared.store.Holds K dek := .of_read hv.1.1 (hstore ▸ hcur) ho hid hd
    exact ⟨fun _ => hst.respects hr hk fun d' hd' => hd'.unique hold, fun _ _ => rfl⟩
  · refine fun _ H'' v hv => .of_relies fun v' hv' => ?_
    cases hv v' hv'
    exact forget_safe fun v₁ => safe_pure fun v₂ _ => hpost v₂
  · rintro e H'' v rfl
    exact hpost v

end KeyManager

/-! ## Work -/

namespace Work

def Leased (K : KeyRing) (x : Option Dek) (H : Held) (h : Host) : Prop :=
  ∀ d, x = some d → H .gate = some .shared ∧ h.shared.store.Holds K d

theorem leased_none (H : Held) (h : Host) : Leased K none H h := nofun

/-- Every operation keeps to the rules, whatever the others do. -/
theorem prog_safe (w : Work) (s : Host) :
    w.prog.Safe (Host.rules K) (w.role K) 0 (Leased K) .free s := by
  have hnone : ∀ {β : Type} (p : Prog β) {P : β → Held → Host → Prop},
      p.Safe (Host.rules K) (w.role K) 0 P .free s →
      (p.bind fun _ => .done none).Safe (Host.rules K) (w.role K) 0 (Leased K) .free s :=
    fun p _ hp => hp.bind fun _ H' t _ u _ => leased_none H' u
  cases w with
  | clearCache =>
    refine (Prog.safe_call rfl).mpr fun t ht _ => ⟨trivial, Host.grants_forget ht.1, fun u _ => leased_none _ u⟩
  | operation op =>
    cases op with
    | lease =>
      refine .bind (KeyManager.lease_safe rfl rfl) fun x H' t hx u hu d hd => hx u hu d ?_
      cases x <;> cases hd
      rfl
    | currentDek => exact hnone _ (KeyManager.currentDek_safe rfl fun h => absurd rfl h)
    | rotate =>
      refine hnone _ (Action.safe_bind (KeyManager.rotateWith_safe (.ofExcept (.ok ())) rfl rfl) ?_ ?_)
        (P := fun _ _ _ => True)
      · exact fun x H' t _ => Action.safe_pure fun _ _ => trivial
      · exact fun _ _ _ _ => trivial
    | rotateWith lift c => exact hnone _ (KeyManager.rotateWith_safe c rfl rfl)
    | migrate oldKey => exact hnone _ (KeyManager.migrate_safe rfl)
    | currentMasterKeyId => exact hnone _ (KeyManager.still_of_quiet KeyManager.currentMasterKeyId_quiet)
    | state => exact hnone _ (KeyManager.still_of_quiet KeyManager.state_quiet)

end Work

end AttestedVault
