import AttestedVault.Credential.Service
import AttestedVault.Host.Node

/-!
# Programs that run alone

How the steps of an action add up when nobody interferes, and what every
program leaves as it is: most effects touch neither the store nor the cache.
-/

namespace AttestedVault

variable {ε ε' α β : Type}

/-! ## Effects of a program -/

/-- Every effect that the program may come to is of this kind. -/
def Prog.Only (kind : Effect → Bool) : Prog α → Prop
  | .done _ => True
  | .call e k => kind e = true ∧ ∀ x, (k x).Only kind

/-- Only the store, the cache and the locks of a manager outlast an operation. -/
def Effect.isLocal : Effect → Bool
  | .draw _ | .stamp | .seal .. => true
  | _ => false

/-- Changes neither the store nor the cache, and takes no lock. -/
def Effect.isQuiet : Effect → Bool
  | .attest | .readActive | .cached | .draw _ | .stamp | .seal .. => true
  | _ => false

/-- The answers that a host gives to a seal. -/
def Effect.Honest : (e : Effect) → e.Answer → Prop
  | .seal key iv plaintext aad, x => x = Sealed.make key iv plaintext aad
  | _, _ => True

namespace Prog

variable {kind kind' : Effect → Bool}

theorem Only.mono {p : Prog α} (h : p.Only kind) (hk : ∀ e, kind e = true → kind' e = true) : p.Only kind' := by
  induction p with
  | done a => trivial
  | call e k ih => exact ⟨hk e h.1, fun x => ih x (h.2 x)⟩

theorem Only.quiet {p : Prog α} (h : p.Only Effect.isLocal) : p.Only Effect.isQuiet :=
  h.mono fun e he => by cases e <;> first | rfl | cases he

theorem Only.bind {p : Prog α} {f : α → Prog β} (h : p.Only kind) (hf : ∀ a, (f a).Only kind) :
    (p.bind f).Only kind := by
  induction p with
  | done a => exact hf a
  | call e k ih => exact ⟨h.1, fun x => ih x (h.2 x)⟩

/-- If seals are answered honestly, the result is such. -/
def Yields (P : α → Prop) : Prog α → Prop
  | .done a => P a
  | .call e k => ∀ x, e.Honest x → (k x).Yields P

theorem Yields.bind {p : Prog α} {f : α → Prog β} {P : α → Prop} {Q : β → Prop} (h : p.Yields P)
    (hf : ∀ a, P a → (f a).Yields Q) : (p.bind f).Yields Q := by
  induction p with
  | done a => exact hf a h
  | call e k ih => exact fun x hx => ih x (h x hx)

theorem yields_of_forall {P : α → Prop} (h : ∀ a, P a) (p : Prog α) : p.Yields P := by
  induction p with
  | done a => exact h a
  | call e k ih => exact fun x _ => ih x

theorem bind_done (p : Prog α) : p.bind done = p := by
  induction p with
  | done a => rfl
  | call e k ih => exact congrArg (call e) (funext ih)

theorem run_bind {σ : Type} (h : Handler σ) (p : Prog α) (f : α → Prog β) : ∀ s,
    (p.bind f).run h s = (f (p.run h s).1).run h (p.run h s).2 := by
  induction p with
  | done a => intro s; rfl
  | call e k ih => intro s; exact ih _ _

end Prog

namespace Action

def Only (kind : Effect → Bool) (a : Action ε α) : Prop := a.run.Only kind

/-- How the action ends on a host, and the host after it. -/
def on (a : Action ε α) (h : Host) : Except ε α × Host := a.run.run Host.perform h

section
variable {kind : Effect → Bool}

theorem Only.quiet {a : Action ε α} (h : a.Only Effect.isLocal) : a.Only Effect.isQuiet := Prog.Only.quiet h

theorem Only.pure (a : α) : (Pure.pure a : Action ε α).Only kind := trivial

theorem Only.throw (e : ε) : (throw e : Action ε α).Only kind := trivial

theorem Only.ofExcept (f : ε → ε') (r : Except ε α) : (ofExcept f r).Only kind := trivial

theorem Only.ask {e : Effect} (h : kind e = true) : (ask e : Action ε e.Answer).Only kind :=
  ⟨h, fun _ => trivial⟩

theorem Only.lift {p : Prog α} (h : p.Only kind) : (ExceptT.lift p : Action ε α).Only kind :=
  Prog.Only.bind h fun _ => trivial

theorem Only.bind {a : Action ε α} {f : α → Action ε β} (h : a.Only kind) (hf : ∀ x, (f x).Only kind) :
    (a >>= f).Only kind :=
  Prog.Only.bind h fun r => by
    cases r with
    | ok x => exact hf x
    | error e => trivial

theorem Only.mapError {a : Action ε α} (f : ε → ε') (h : a.Only kind) : (mapError f a).Only kind :=
  Prog.Only.bind h fun _ => trivial

end

def Yields (P : α → Prop) (a : Action ε α) : Prop := a.run.Yields fun r => ∀ x, r = .ok x → P x

section
variable {P : α → Prop} {Q : β → Prop}

theorem Yields.pure {a : α} (h : P a) : (Pure.pure a : Action ε α).Yields P := by
  intro x hx
  cases hx
  exact h

theorem Yields.bind {a : Action ε α} {f : α → Action ε β} (h : a.Yields P)
    (hf : ∀ x, P x → (f x).Yields Q) : (a >>= f).Yields Q := by
  refine Prog.Yields.bind h fun r hr => ?_
  cases r with
  | ok x => exact hf x (hr x rfl)
  | error e =>
    intro x hx
    cases hx

theorem Yields.andThen {a : Action ε α} {f : α → Action ε β} (hf : ∀ x, (f x).Yields Q) :
    (a >>= f).Yields Q :=
  Yields.bind (P := fun _ => True) (Prog.yields_of_forall (fun _ _ _ => trivial) a.run) fun x _ => hf x

theorem Yields.ask {e : Effect} {P : e.Answer → Prop} (h : ∀ x, e.Honest x → P x) :
    (ask e : Action ε e.Answer).Yields P := by
  intro x hx y hy
  cases hy
  exact h x hx

theorem Yields.mapError {a : Action ε α} (f : ε → ε') (h : a.Yields P) : (mapError f a).Yields P := by
  refine Prog.Yields.bind h fun r hr x hx => ?_
  cases r with
  | ok y => cases hx; exact hr _ rfl
  | error e => cases hx

end

/-! ## Outcomes -/

theorem on_ofExcept_id (r : Except ε α) (h : Host) : (ofExcept id r).on h = (r, h) := by
  cases r <;> rfl

@[simp] theorem on_ask (e : Effect) (h : Host) :
    (ask e : Action ε e.Answer).on h = (.ok (Host.perform e h).1, (Host.perform e h).2) := rfl

theorem on_bind (a : Action ε α) (f : α → Action ε β) (h : Host) :
    (a >>= f).on h =
      match a.on h with
      | (.ok x, t) => (f x).on t
      | (.error e, t) => (.error e, t) := by
  refine (Prog.run_bind Host.perform a.run _ h).trans ?_
  change _ = match a.run.run Host.perform h with | (.ok x, t) => (f x).on t | (.error e, t) => (.error e, t)
  generalize a.run.run Host.perform h = r
  obtain ⟨r, t⟩ := r
  cases r <;> rfl

@[simp] theorem on_mapError (f : ε → ε') (a : Action ε α) (h : Host) :
    (mapError f a).on h = ((a.on h).1.mapError f, (a.on h).2) := by
  refine (Prog.run_bind Host.perform a.run _ h).trans ?_
  change _ = ((a.run.run Host.perform h).1.mapError f, (a.run.run Host.perform h).2)
  generalize a.run.run Host.perform h = r
  obtain ⟨r, t⟩ := r
  cases r <;> rfl

theorem mapError_id (a : Action ε α) : mapError id a = a := by
  have hf : (fun r : Except ε α => Prog.done (r.mapError id)) = Prog.done := by
    funext r
    cases r <;> rfl
  change a.run.bind (fun r => Prog.done (r.mapError id)) = a
  rw [hf]
  exact Prog.bind_done a.run

@[simp] theorem on_holding (lock : Lock) (mode : LockMode) (a : Action ε α) (h : Host) :
    (holding lock mode a).on h = a.on h :=
  Prog.run_bind Host.perform a.run _ h

theorem bind_ok {a : Action ε α} {f : α → Action ε β} {h t : Host} {y : β}
    (hb : (a >>= f).on h = (.ok y, t)) : ∃ x u, a.on h = (.ok x, u) ∧ (f x).on u = (.ok y, t) := by
  rw [on_bind] at hb
  split at hb
  · exact ⟨_, _, by assumption, hb⟩
  · cases hb

theorem bind_error {a : Action ε α} {f : α → Action ε β} {h t : Host} {e : ε}
    (hb : (a >>= f).on h = (.error e, t)) :
    a.on h = (.error e, t) ∨ ∃ x u, a.on h = (.ok x, u) ∧ (f x).on u = (.error e, t) := by
  rw [on_bind] at hb
  split at hb
  · exact .inr ⟨_, _, by assumption, hb⟩
  · cases hb
    exact .inl (by assumption)

theorem mapError_error {f : ε → ε'} {a : Action ε α} {h t : Host} {e : ε'}
    (hb : (mapError f a).on h = (.error e, t)) : ∃ c, a.on h = (.error c, t) ∧ f c = e := by
  rw [on_mapError] at hb
  generalize a.on h = r at hb
  obtain ⟨r, u⟩ := r
  cases r <;> cases hb
  exact ⟨_, rfl, rfl⟩

theorem mapError_ok {f : ε → ε'} {a : Action ε α} {h t : Host} {y : α}
    (hb : (mapError f a).on h = (.ok y, t)) : a.on h = (.ok y, t) := by
  rw [on_mapError] at hb
  generalize a.on h = r at hb
  obtain ⟨r, u⟩ := r
  cases r <;> cases hb
  rfl

theorem ofExcept_ok {f : ε → ε'} {r : Except ε α} {h t : Host} {y : α}
    (hb : (ofExcept f r).on h = (.ok y, t)) : r = .ok y ∧ t = h := by
  cases r <;> cases hb
  exact ⟨rfl, rfl⟩

end Action

/-! ## What stays -/

namespace Host

theorem honest_perform (e : Effect) (h : Host) : e.Honest (perform e h).1 := by
  cases e <;> first | exact .intro | exact rfl

def Same (h t : Host) : Prop := t.shared.store = h.shared.store ∧ t.node.cache = h.node.cache

theorem Same.refl (h : Host) : h.Same h := ⟨rfl, rfl⟩

theorem Same.trans {h t u : Host} (ht : h.Same t) (hu : t.Same u) : h.Same u :=
  ⟨hu.1.trans ht.1, hu.2.trans ht.2⟩

theorem same_perform {e : Effect} (he : e.isQuiet = true) (h : Host) : h.Same (perform e h).2 := by
  cases e <;> first | exact .intro rfl rfl | cases he

theorem read_ok {h : Host} {o : Option KeyRecord} (hx : (perform .readActive h).1 = Except.ok o) :
    h.shared.store.active? = .ok o := by
  cases hf : h.node.faults.read h.node.reads with
  | some e =>
    simp only [perform, hf] at hx
    cases hx
  | none =>
    simp only [perform, hf] at hx
    exact hx

theorem read_of_none {h : Host} (hf : h.node.faults.read h.node.reads = none) :
    (perform .readActive h).1 = h.shared.store.active? := by
  simp only [perform, hf]
  rfl

theorem node_write (fault : Option StoreError) (call : Store → Except StoreError Store) (h : Host) :
    (write fault call h).2.node = { h.node with writes := h.node.writes + 1 } := by
  unfold write
  cases fault <;> rfl

theorem write_error {fault : Option StoreError} {call : Store → Except StoreError Store} {h : Host}
    {e : StoreError} (hw : (write fault call h).1 = .error e) : h.Same (write fault call h).2 := by
  unfold write at hw ⊢
  cases fault with
  | some e => exact ⟨rfl, rfl⟩
  | none =>
    simp only [Store.settle] at hw ⊢
    cases hc : call h.shared.store with
    | ok s => rw [hc] at hw; cases hw
    | error e => exact ⟨rfl, rfl⟩

theorem write_ok {fault : Option StoreError} {call : Store → Except StoreError Store} {h : Host}
    (hw : (write fault call h).1 = .ok ()) :
    call h.shared.store = .ok (write fault call h).2.shared.store ∧
      (write fault call h).2.node.cache = h.node.cache := by
  refine ⟨?_, by rw [node_write]⟩
  unfold write at hw ⊢
  cases fault with
  | some e => cases hw
  | none =>
    simp only [Store.settle] at hw ⊢
    cases hc : call h.shared.store with
    | ok s => rfl
    | error e => rw [hc] at hw; cases hw

theorem same_of_create {r : KeyRecord} {e : StoreError} {s t : Host}
    (hx : perform (.create r) s = (Except.error e, t)) : s.Same t := by
  obtain rfl : (perform (.create r) s).2 = t := congrArg Prod.snd hx
  exact write_error (congrArg Prod.fst hx)

theorem same_of_replace {previous : String} {r : KeyRecord} {e : StoreError} {s t : Host}
    (hx : perform (.replace previous r) s = (Except.error e, t)) : s.Same t := by
  obtain rfl : (perform (.replace previous r) s).2 = t := congrArg Prod.snd hx
  exact write_error (congrArg Prod.fst hx)

end Host

theorem Prog.same_of_quiet {p : Prog α} (hp : p.Only Effect.isQuiet) :
    ∀ h : Host, h.Same (p.run Host.perform h).2 := by
  induction p with
  | done a => exact fun h => .refl h
  | call e k ih => exact fun h => (Host.same_perform hp.1 h).trans (ih _ (hp.2 _) _)

theorem Prog.Yields.run {p : Prog α} {P : α → Prop} (hp : p.Yields P) :
    ∀ h, P (p.run Host.perform h).1 := by
  induction p with
  | done a => exact fun _ => hp
  | call e k ih => exact fun h => ih _ (hp _ (Host.honest_perform e h)) _

theorem Action.Yields.on {a : Action ε α} {P : α → Prop} (ha : a.Yields P) {h t : Host} {x : α}
    (hx : a.on h = (.ok x, t)) : P x :=
  Prog.Yields.run ha h x (congrArg Prod.fst hx)

theorem Action.same_of_quiet {a : Action ε α} (ha : a.Only Effect.isQuiet) (h : Host) : h.Same (a.on h).2 :=
  Prog.same_of_quiet ha h

/-! ## Quiet actions -/

namespace Action

theorem draw_local (n : Nat) : (draw n).Only Effect.isLocal := .bind (.ask rfl) fun _ => .ofExcept _ _

theorem readActive_quiet : readActive.Only Effect.isQuiet := .bind (.ask rfl) fun _ => .ofExcept _ _

end Action

theorem generateDek_local : generateDek.Only Effect.isLocal := .bind (Action.draw_local 32) fun _ => .pure _

theorem sealRecord_local (dek : Dek) (key : MasterKey) (version : String) :
    (sealRecord dek key version).Only Effect.isLocal :=
  .bind (.bind (Action.draw_local 12) fun _ => .bind (.ask rfl) fun _ => .pure _) fun _ =>
    .lift ⟨rfl, fun _ => trivial⟩

theorem sealCredential_local (key plaintext : Bytes) : (sealCredential key plaintext).Only Effect.isLocal := by
  refine .bind (Action.draw_local 16) fun iv => ?_
  split
  · exact .throw _
  · exact .ask rfl

theorem Credential.encrypt_local (key : Dek) (text : String) :
    (Credential.encrypt key text).Only Effect.isLocal :=
  .bind (.mapError _ (sealCredential_local _ _)) fun _ => .pure _

theorem Credential.reencrypt_local (old new : Dek) (cs : List String) :
    (Credential.reencrypt old new cs).Only Effect.isLocal := by
  induction cs with
  | nil => exact .pure _
  | cons c cs ih =>
    rw [Credential.reencrypt]
    generalize Credential.decrypt old c = r
    exact .bind (.ofExcept _ _) fun _ => .bind (encrypt_local _ _) fun _ => .bind ih fun _ => .pure _

/-- What a rotation does with the old and the new key before the new one counts.
It computes and draws random bytes, and has nothing of the manager at hand. -/
structure Closure (ε α : Type) where
  act : Dek → Dek → Action ε α
  isLocal : ∀ old new, (act old new).Only Effect.isLocal

namespace Closure

def ofExcept (r : Except ε α) : Closure ε α := ⟨fun _ _ => .ofExcept id r, fun _ _ => .ofExcept _ _⟩

def reencrypt (cs : List String) : Closure CredentialError (List String) :=
  ⟨fun old new => Credential.reencrypt old new cs, fun old new => Credential.reencrypt_local old new cs⟩

end Closure

namespace KeyManager

theorem currentMasterKey_quiet : currentMasterKey.Only Effect.isQuiet :=
  .bind (.ask rfl) fun _ => .bind (.ofExcept _ _) fun _ => .ofExcept _ _

theorem activeRecord_quiet : activeRecord.Only Effect.isQuiet := by
  refine .bind Action.readActive_quiet fun r => ?_
  cases r with
  | none => exact .throw _
  | some r => exact .pure r

theorem currentMasterKeyId_quiet : currentMasterKeyId.Only Effect.isQuiet :=
  .bind currentMasterKey_quiet fun _ => .pure _

theorem state_quiet : state.Only Effect.isQuiet := by
  refine .bind Action.readActive_quiet fun r => ?_
  cases r with
  | none => exact .pure _
  | some r =>
    refine .bind (.ofExcept _ _) fun stored => .bind currentMasterKeyId_quiet fun current => ?_
    split <;> exact .pure _

end KeyManager

/-- What may be asked of a key manager, by how it can end. -/
inductive Operation : Type → Type → Type 1
  | currentDek : Operation KeyError Dek
  | lease : Operation KeyError Dek
  | rotate : Operation KeyError RotationOutcome
  | rotateWith {ε α : Type} (lift : KeyError → ε) (c : Closure ε α) : Operation ε (RotationOutcome × α)
  | migrate (oldKey : MasterKey) : Operation KeyError MigrationOutcome
  | currentMasterKeyId : Operation KeyError MasterKeyId
  | state : Operation KeyError KeyState

def Operation.action : Operation ε α → Action ε α
  | currentDek => KeyManager.currentDek
  | lease => KeyManager.lease
  | rotate => KeyManager.rotate
  | rotateWith lift c => KeyManager.rotateWith lift c.act
  | migrate oldKey => KeyManager.migrate oldKey
  | currentMasterKeyId => KeyManager.currentMasterKeyId
  | state => KeyManager.state

end AttestedVault
