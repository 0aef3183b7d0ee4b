import AttestedVault.Host.Fleet
import AttestedVault.Proofs.Continuity
import AttestedVault.Proofs.Evolution
import AttestedVault.Proofs.History
import AttestedVault.Proofs.SignedIdentity

/-!
# The first key

A manager that looks for the key on a store with no record or with one. It
seals a key of its own, or takes the key out of the record that is there,
whether it finds that right away or only when its own record is refused.
-/

namespace AttestedVault

/-! ## Unwrapping as a parameter -/

/-- What takes a record's key out of it, in place of the cipher. -/
abbrev Unwrapping := KeyRecord → MasterKey → Except KeyError Dek

namespace KeyRecord

def openBy (u : Unwrapping) (r : KeyRecord) (key : MasterKey) : Except KeyError Dek := do
  let stored ← r.keyId.mapError .invalidRecord
  if stored ≠ key.id then throw (.migrationRequired stored key.id)
  u r key

theorem openBy_unwrap : openBy unwrap = openWith := rfl

theorem openBy_of_keyId {u : Unwrapping} {r : KeyRecord} {key : MasterKey} {id : MasterKeyId} (h : r.keyId = .ok id) :
    r.openBy u key = if id = key.id then u r key else .error (.migrationRequired id key.id) := by
  by_cases hid : id = key.id
  · simp [openBy, h, hid, mapError_ok, bind, Except.bind]
  · simp [openBy, h, hid, mapError_ok, bind, Except.bind]
    rfl

end KeyRecord

namespace KeyManager

def bootstrapBy (u : Unwrapping) (key : MasterKey) : Action KeyError Dek := do
  let dek ← Action.mapError .ofCrypto generateDek
  let record ← Action.mapError .ofCrypto (sealRecord dek key KeyVersion.first)
  match ← Action.ask (.create record) with
  | .ok () => pure dek
  | .error .activeRecordExists =>
    match ← Action.readActive with
    | none => throw .noActiveRecord
    | some r => Action.ofExcept id (r.openBy u key)
  | .error e => throw (.store e)

def loadDekBy (u : Unwrapping) : Action KeyError Dek := do
  let key ← currentMasterKey
  match ← Action.readActive with
  | some r => Action.ofExcept id (r.openBy u key)
  | none => bootstrapBy u key

def currentDekBy (u : Unwrapping) : Action KeyError Dek := do
  match ← Action.ask .cached with
  | some dek => pure dek
  | none =>
    Action.holding .lifecycle .exclusive do
      match ← Action.ask .cached with
      | some dek => pure dek
      | none =>
        let dek ← loadDekBy u
        Action.ask (.remember dek)
        pure dek

theorem currentDekBy_unwrap : currentDekBy KeyRecord.unwrap = currentDek := rfl

end KeyManager

inductive KeyError.Outside : KeyError → Prop
  | attestation (cause : AttestationError) : Outside (.attestation cause)
  | unverifiedReport : Outside .unverifiedReport
  | random (reason : String) : Outside (.crypto (.random reason))

theorem AttestationReport.outside_of_masterKey {r : AttestationReport} {e : KeyError} (h : r.masterKey = .error e) :
    e.Outside := by
  cases hv : r.verified with
  | true =>
    obtain ⟨k, hk, -⟩ := masterKey_of_verified hv
    rw [hk] at h
    cases h
  | false =>
    rw [masterKey_of_unverified hv] at h
    cases h
    exact .unverifiedReport

def KeyRing.only (k : MasterKey) : KeyRing where
  mem k' := k' = k
  distinct h h' _ := h.trans h'.symm

namespace KeyRecord.Seals

variable {k : MasterKey} {d : Dek} {version : String} {r : KeyRecord}

theorem keyId (h : r.Seals k d version) : r.keyId = .ok k.id := by
  obtain ⟨_, _, _, rfl⟩ := h
  exact KeyRecord.keyId_make ..

theorem unwrap (h : r.Seals k d version) : r.unwrap k = .ok d := by
  obtain ⟨_, _, _, rfl⟩ := h
  exact KeyRecord.unwrap_make ..

theorem version_eq (h : r.Seals k d version) : r.version = version := by
  obtain ⟨_, _, _, rfl⟩ := h
  rfl

end KeyRecord.Seals

/-! ## The one record -/

namespace Store

variable {s s' : Store} {r q : KeyRecord}

/-- The store gives back a record of this time. -/
def Reads (s : Store) (t : Timestamp) : Prop := (∃ m, s = memory m) ∨ t.FourDigitYear

theorem Contains.active?_none (h : s.Contains []) : s.active? = .ok none := by
  have hc : s.Contains (succession []) := h
  rw [hc.active?_eq]
  cases s <;> rfl

theorem Contains.single (h : s.Contains [r]) (ha : r.active = true) : s.Contains (succession [r]) := by
  change s.Contains [r.activate]
  rwa [KeyRecord.activate_of_active ha]

theorem Contains.active?_single (h : s.Contains [r]) (ha : r.active = true) (ht : s.Reads r.createdAt) :
    s.active? = .ok (some r) := by
  rw [(h.single ha).active?_eq, getLast?_succession]
  simp only [List.getLast?_singleton, Option.map_some, KeyRecord.activate_of_active ha]
  cases s with
  | memory m => rfl
  | found m => rfl
  | table t =>
    rcases ht with ⟨m, hm⟩ | hy
    · cases hm
    · exact if_pos hy

theorem Contains.not_both (h : s.Contains [r]) (h' : s.Contains []) : False := by
  cases s with
  | memory m => cases h.symm.trans h'
  | table t => cases h.symm.trans h'
  | found t => exact h

theorem Contains.create_single (h : s.Contains [q]) (ha : q.active = true) :
    s.create r = .error .activeRecordExists := by
  have hs := h.single ha
  cases s with
  | memory m =>
    cases hs
    exact congrArg (Except.map memory) (MemoryStore.create_eq [q] r)
  | table t =>
    cases hs
    exact congrArg (Except.map table) (TableStore.create_eq [q] r)
  | found t => exact h.elim

theorem Contains.create_empty (h : s.Contains []) (ha : r.active = true) :
    ∃ s', s.create r = .ok s' ∧ s'.Contains [r] ∧ ∀ t, s.Reads t → s'.Reads t := by
  have hr : succession [r] = [r] := congrArg (fun q => [q]) (KeyRecord.activate_of_active ha)
  cases s with
  | memory m =>
    cases h
    exact ⟨_, congrArg (Except.map memory) (MemoryStore.create_eq [] r), by rw [hr]; rfl, fun _ _ => .inl ⟨_, rfl⟩⟩
  | table t =>
    cases h
    refine ⟨_, congrArg (Except.map table) (TableStore.create_eq [] r), by rw [hr]; rfl, fun t ht => ?_⟩
    rcases ht with ⟨m, hm⟩ | hy
    · cases hm
    · exact .inr hy
  | found t => exact h.elim

end Store

namespace Fleet

variable (key : Nat → MasterKey) (u : Nat → Unwrapping)

/-- A call on this manager returns what the one record says: what the manager
itself has sealed in it or what it takes out of it. -/
def Gets (s : Store) (n : Nat) (x : Except KeyError Dek) : Prop :=
  ∃ r, s.Contains [r] ∧ (x = r.openBy (u n) (key n) ∨ ∃ d, x = .ok d ∧ r.Seals (key n) d KeyVersion.first)

def Ends (n : Nat) (x : Except KeyError Dek) (f : Fleet) : Prop :=
  (∃ e, x = .error e ∧ e.Outside) ∨ Gets key u f.shared.store n x

/-- The store is empty or has one record that some manager has sealed, and a
cached key is that record's. -/
structure Agrees (f : Fleet) : Prop where
  records : f.shared.store.Contains [] ∨ ∃ r m d, f.shared.store.Contains [r] ∧
    r.Seals (key m) d KeyVersion.first ∧ f.shared.store.Reads r.createdAt
  clock : ∀ n, f.shared.store.Reads (f.shared.stamps n).2
  answering : ∀ n, (f.nodes n).faults = .none
  attested : ∀ n, (f.nodes n).attestor.Within (.only (key n))
  cached : ∀ n d, (f.nodes n).cache = some d → Gets key u f.shared.store n (.ok d)

structure Onward (f g : Fleet) : Prop where
  records : ∀ r, f.shared.store.Contains [r] → g.shared.store.Contains [r]
  reads : ∀ t, f.shared.store.Reads t → g.shared.store.Reads t

theorem perform_of_locking (n : Nat) {e : Effect} (he : e.isLocking = true) (f : Fleet) : (perform n e f).2 = f := by
  cases e with
  | acquire => exact f.put_host n
  | release => exact f.put_host n
  | _ => cases he

def evolution : Evolution Fleet where
  perform := perform
  invariant := Agrees key u
  onward := Onward
  refl _ := ⟨fun _ h => h, fun _ h => h⟩
  trans h h' := ⟨fun r hr => h'.records r (h.records r hr), fun t ht => h'.reads t (h.reads t ht)⟩
  locking n _ f he := perform_of_locking n he f

/-! ## Effects -/

variable {key u} {f g : Fleet} {n : Nat} {t : Host}

theorem Gets.onward {s s' : Store} {x : Except KeyError Dek} (h : Gets key u s n x)
    (hs : ∀ r, s.Contains [r] → s'.Contains [r]) : Gets key u s' n x := by
  obtain ⟨r, hr, hx⟩ := h
  exact ⟨r, hs r hr, hx⟩

theorem Ends.onward {x : Except KeyError Dek} (h : Ends key u n x f) (hf : Onward f g) : Ends key u n x g :=
  h.imp_right fun hx => hx.onward hf.records

namespace Agrees

theorem becomes_put (h : Agrees key u f) (hf : Onward f (f.put n t))
    (hrecords : t.shared.store.Contains [] ∨ ∃ r m d, t.shared.store.Contains [r] ∧
      r.Seals (key m) d KeyVersion.first ∧ t.shared.store.Reads r.createdAt)
    (hstamps : t.shared.stamps = f.shared.stamps) (hfaults : t.node.faults = .none)
    (hattested : t.node.attestor.Within (.only (key n)))
    (hcached : ∀ d, t.node.cache = some d → Gets key u t.shared.store n (.ok d)) :
    (evolution key u).Becomes f (f.put n t) := by
  refine ⟨⟨hrecords, fun m => ?_, ?_, ?_, ?_⟩, hf⟩
  · change t.shared.store.Reads (t.shared.stamps m).2
    rw [hstamps]
    exact hf.reads _ (h.clock m)
  · exact forall_put (P := fun _ node => node.faults = .none) hfaults fun m _ => h.answering m
  · exact forall_put (P := fun m node => node.attestor.Within (.only (key m))) hattested fun m _ => h.attested m
  · exact forall_put (P := fun m node => ∀ d, node.cache = some d → Gets key u t.shared.store m (.ok d)) hcached
      fun m _ d hd => (h.cached m d hd).onward hf.records

theorem becomes_of_same (h : Agrees key u f) (hstore : t.shared.store = f.shared.store)
    (hstamps : t.shared.stamps = f.shared.stamps) (hfaults : t.node.faults = .none)
    (hattested : t.node.attestor.Within (.only (key n)))
    (hcached : ∀ d, t.node.cache = some d → Gets key u f.shared.store n (.ok d)) :
    (evolution key u).Becomes f (f.put n t) := by
  refine h.becomes_put ⟨fun r hr => ?_, fun s hs => ?_⟩ ?_ hstamps hfaults hattested ?_
  · rwa [shared_put, hstore]
  · rwa [shared_put, hstore]
  · rw [hstore]
    exact h.records
  · rwa [hstore]

end Agrees

theorem stamps_perform (e : Effect) (s : Host) : (Host.perform e s).2.shared.stamps = s.shared.stamps := by
  have hwrite : ∀ fault call, (Host.write fault call s).2.shared.stamps = s.shared.stamps := by
    intro fault call
    unfold Host.write
    cases fault <;> rfl
  cases e with
  | create => exact hwrite _ _
  | replace => exact hwrite _ _
  | _ => rfl

theorem idle_of_quiet {e : Effect} (he : e.isQuiet = true) : (evolution key u).Idle e := by
  intro n f hf
  have hsame := Host.same_perform he (f.host n)
  refine hf.becomes_of_same hsame.1 (stamps_perform e _) ((Host.faults_perform e _).trans (hf.answering n)) ?_ ?_
  · exact Host.within_perform (e := e) (hf.attested n) rfl
  · intro d hd
    exact hf.cached n d (hsame.2.symm.trans hd)

theorem becomes_remember (hf : Agrees key u f) {dek : Dek} (hd : Gets key u f.shared.store n (.ok dek)) :
    (evolution key u).Becomes f (perform n (.remember dek) f).2 := by
  refine hf.becomes_of_same rfl rfl (hf.answering n) (hf.attested n) ?_
  rintro _ ⟨⟩
  exact hd

theorem perform_read (hf : Agrees key u f) (n : Nat) : (perform n .readActive f).1 = f.shared.store.active? :=
  Host.read_of_none (h := f.host n) (congrArg (fun x : Faults => x.read _) (hf.answering n))

theorem read_empty (hf : Agrees key u f) : (perform n .readActive f).1 = Except.ok none ∨
    ∃ r, f.shared.store.Contains [r] ∧ (perform n .readActive f).1 = Except.ok (some r) := by
  rw [perform_read hf]
  rcases hf.records with he | ⟨r, m, d, hr, hs, ht⟩
  · exact .inl he.active?_none
  · exact .inr ⟨r, hr, hr.active?_single hs.active ht⟩

theorem read_single (hf : Agrees key u f) {q : KeyRecord} (hq : f.shared.store.Contains [q]) :
    ∃ r, f.shared.store.Contains [r] ∧ (perform n .readActive f).1 = Except.ok (some r) := by
  rcases read_empty hf with hn | hr
  · rcases hf.records with he | ⟨r, m, d, hr, hs, ht⟩
    · exact (hq.not_both he).elim
    · rw [perform_read hf, hr.active?_single hs.active ht] at hn
      cases hn
  · exact hr

theorem perform_create (hf : Agrees key u f) (n : Nat) (r : KeyRecord) : perform n (.create r) f =
    ((f.shared.store.settle (Store.create r)).1,
      f.put n ⟨{ f.shared with store := (f.shared.store.settle (Store.create r)).2 },
        { f.nodes n with writes := (f.nodes n).writes + 1 }⟩) := by
  have hfault : (f.nodes n).faults.create (f.nodes n).writes = none := by
    rw [hf.answering n]
    rfl
  simp only [perform, Host.perform, Host.write, host, hfault]
  rfl

theorem create_agrees (hf : Agrees key u f) {r : KeyRecord} {d : Dek} (hr : r.Seals (key n) d KeyVersion.first)
    (ht : f.shared.store.Reads r.createdAt) {x : Except StoreError Unit} (hx : perform n (.create r) f = (x, g)) :
    (evolution key u).Becomes f g ∧ ((x = .ok () ∧ g.shared.store.Contains [r]) ∨
      x = .error .activeRecordExists ∧ ∃ q, g.shared.store.Contains [q]) := by
  -- the first one to create a record succeeds, and the others find one there
  rw [perform_create hf] at hx
  rcases hf.records with he | ⟨q, m, d', hq, hs, hqt⟩
  · obtain ⟨s', hc, hs', hreads⟩ := he.create_empty hr.active
    simp only [Store.settle, hc] at hx
    cases hx
    refine ⟨hf.becomes_put ⟨fun q hq => (hq.not_both he).elim, hreads⟩ (.inr ⟨r, n, d, hs', hr, hreads _ ht⟩) rfl
      (hf.answering n) (hf.attested n) fun d hd => ?_, .inl ⟨rfl, hs'⟩⟩
    obtain ⟨q, hq, -⟩ := hf.cached n d hd
    exact (hq.not_both he).elim
  · have hc : f.shared.store.create r = .error .activeRecordExists := hq.create_single hs.active
    simp only [Store.settle, hc] at hx
    cases hx
    exact ⟨hf.becomes_of_same rfl rfl (hf.answering n) (hf.attested n) (hf.cached n), .inr ⟨rfl, q, hq⟩⟩

end Fleet

/-! ## Programs -/

namespace KeyManager

open Fleet

variable {key : Nat → MasterKey} {u : Nat → Unwrapping} {f : Fleet} {n : Nat}

theorem currentMasterKey_steady : currentMasterKey.Steady (evolution key u) n
    (fun r _ => r = .ok (key n) ∨ ∃ e, r = .error e ∧ e.Outside) f := by
  refine .ask (idle_of_quiet rfl) fun x g hg hx => ?_
  refine .ofExcept_bind (fun report hr => ?_) fun e _ _ _ => .inr ⟨_, rfl, .attestation e⟩
  refine .ofExcept fun _ _ => ?_
  cases hk : report.masterKey with
  | error e => exact .inr ⟨e, rfl, AttestationReport.outside_of_masterKey hk⟩
  | ok k =>
    have hmem : k = key n := (hg.1.attested n).mem (hx.trans hr) hk
    exact .inl (congrArg Except.ok hmem)

def Drawn {α : Type} (r : Except CryptoError α) : Prop := ∀ e, r = .error e → ∃ reason, e = .random reason

theorem draw_steady (length : Nat) : (Action.draw length).Steady (evolution key u) n (fun r _ => Drawn r) f := by
  refine .ask (idle_of_quiet rfl) fun x g _ _ => .ofExcept fun _ _ e he => ?_
  cases x with
  | ok b => cases he
  | error reason =>
    cases he
    exact ⟨reason, rfl⟩

theorem generateDek_steady : generateDek.Steady (evolution key u) n (fun r _ => Drawn r) f :=
  .bind (draw_steady 32) (fun _ _ _ => .pure fun _ _ => nofun) fun _ _ h e he => h e (by cases he; rfl)

theorem wrapDek_steady (dek : Dek) (k : MasterKey) (c : Option WrapContext) :
    (wrapDek dek k c).Steady (evolution key u) n
      (fun r _ => Drawn r ∧ ∀ w, r = .ok w → ∃ iv, w = .wrap dek k iv c) f := by
  refine .bind (draw_steady 12) (fun iv g _ => ?_) fun _ _ h => ⟨fun e he => h e (by cases he; rfl), nofun⟩
  refine .ask (idle_of_quiet rfl) fun x g _ hx => .pure fun _ _ => ⟨nofun, fun w hw => ⟨iv, ?_⟩⟩
  cases hw
  cases hx
  rfl

theorem sealRecord_steady (dek : Dek) (k : MasterKey) (version : String) :
    (sealRecord dek k version).Steady (evolution key u) n (fun r g =>
      Drawn r ∧ ∀ q, r = .ok q → q.Seals k dek version ∧ g.shared.store.Reads q.createdAt) f := by
  refine .bind (wrapDek_steady dek k (some ⟨k.id, version⟩)) (fun w g hw => ?_) fun e g h => ?_
  · refine Prog.Steady.idle (e := .stamp) (idle_of_quiet rfl) fun t ht => ?_
    obtain ⟨iv, rfl⟩ := (hw t ht).2 w rfl
    intro v hv
    refine ⟨nofun, fun q hq => ?_⟩
    cases hq
    exact ⟨⟨_, _, iv, rfl⟩, hv.2.reads _ (ht.1.clock _)⟩
  · exact ⟨fun e' he => h.1 e' (by cases he; rfl), fun q hq => by cases hq⟩

theorem ends_of_drawn {e : CryptoError} (h : ∃ reason, e = .random reason) :
    Ends key u n (.error (.ofCrypto e)) f := by
  obtain ⟨reason, rfl⟩ := h
  exact .inl ⟨_, rfl, .random reason⟩

theorem opened_steady {r : KeyRecord} (hr : f.shared.store.Contains [r]) :
    (Action.ofExcept id (r.openBy (u n) (key n))).Steady (evolution key u) n (Ends key u n) f := by
  refine .ofExcept fun g hg => .inr ⟨r, hg.2.records r hr, .inl ?_⟩
  cases r.openBy (u n) (key n) <;> rfl

theorem bootstrapBy_steady : (bootstrapBy (u n) (key n)).Steady (evolution key u) n (Ends key u n) f := by
  refine .bind_mapError generateDek_steady (fun dek g₁ _ => ?_) fun e _ h => ends_of_drawn (h e rfl)
  refine .bind_mapError (sealRecord_steady dek _ _) (fun r g₂ hr => ?_) fun e _ h => ends_of_drawn (h.1 e rfl)
  refine .call fun x g g' hg hx => ?_
  obtain ⟨hseals, hreads⟩ := (hr g hg).2 r rfl
  obtain ⟨hbec, ⟨rfl, hc⟩ | ⟨rfl, q, hq⟩⟩ := create_agrees hg.1 hseals hreads hx
  · exact ⟨hbec, .pure fun v hv => .inr ⟨r, hv.2.records r hc, .inr ⟨dek, rfl, hseals⟩⟩⟩
  · -- another manager was faster, and its record is there from now on
    refine ⟨hbec, .ask (idle_of_quiet rfl) fun x g₃ hg₃ hx => ?_⟩
    obtain ⟨q', hq', hread⟩ := read_single (n := n) hg₃.1 (hg₃.2.records q hq)
    obtain rfl := hx.symm.trans hread
    exact opened_steady hq'

theorem loadDekBy_steady : (loadDekBy (u n)).Steady (evolution key u) n (Ends key u n) f := by
  refine .bind currentMasterKey_steady (fun k g hk => ?_) fun e g h => ?_
  · refine .ask (idle_of_quiet rfl) fun x t ht hx => ?_
    obtain rfl : k = key n := by
      rcases hk t ht with h | ⟨e, h, -⟩
      · exact Except.ok.inj h
      · cases h
    rcases read_empty (n := n) ht.1 with hread | ⟨r, hr, hread⟩
    · obtain rfl := hx.symm.trans hread
      exact bootstrapBy_steady
    · obtain rfl := hx.symm.trans hread
      exact opened_steady hr
  · rcases h with h | ⟨e', h, he⟩
    · cases h
    · cases h
      exact .inl ⟨e, rfl, he⟩

theorem currentDekBy_steady : (currentDekBy (u n)).Steady (evolution key u) n (Ends key u n) f := by
  have hcached : ∀ {g dek}, Agrees key u g → (perform n .cached g).1 = some dek →
      (pure dek : Action KeyError Dek).Steady (evolution key u) n (Ends key u n) g := by
    intro g dek hg hx
    exact .pure fun v hv => .inr ((hg.cached n dek hx).onward hv.2.records)
  refine .ask (idle_of_quiet rfl) fun x g hg hx => ?_
  cases x with
  | some dek => exact hcached hg.1 hx
  | none =>
    refine .holding _ _ fun g₁ hg₁ => .ask (idle_of_quiet rfl) fun x g₂ hg₂ hx => ?_
    cases x with
    | some dek => exact hcached hg₂.1 hx
    | none =>
      refine .bind loadDekBy_steady (fun dek g₃ hd => ?_) fun _ _ h => h
      refine .call fun x g₄ g₅ hg₄ hx => ?_
      obtain ⟨e, he, -⟩ | hgets := hd g₄ hg₄
      · cases he
      · obtain rfl : (perform n (.remember dek) g₄).2 = g₅ := congrArg Prod.snd hx
        exact ⟨becomes_remember hg₄.1 hgets, .pure fun v hv => .inr (hgets.onward hv.2.records)⟩

end KeyManager

end AttestedVault
