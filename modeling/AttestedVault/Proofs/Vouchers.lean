import AttestedVault.Proofs.CredentialFormat
import AttestedVault.Proofs.NewRecords
import AttestedVault.Proofs.Progress
import Mathlib.Algebra.Order.Group.Multiset
import Mathlib.Data.List.Forall2

/-!
# Vouchers

A draw brings a voucher for one seal, and a seal one for giving out once what is
sealed. Programs that pay with vouchers for all they do cannot use an initial
value twice.
-/

namespace AttestedVault

variable {ε ε' α β : Type}

def Credential.Carries (c : String) (iv : Bytes) : Prop :=
  ∃ (o tag : Octets 16) (b : Bytes), Writes c o tag b ∧ o.val = iv

def KeyRecord.Carries (r : KeyRecord) (iv : Bytes) : Prop := ∃ w, r.wrapped = .ok w ∧ w.iv.val = iv

inductive Voucher
  /-- Good for a seal under an initial value. -/
  | seal (iv : Bytes)
  /-- Good for giving out what is sealed under it. -/
  | issue (iv : Bytes)

abbrev Purse := Multiset Voucher

namespace Effect

/-- What is paid for an effect. Seals of credentials have initial values of sixteen
bytes, seals of keys of twelve. A record is paid for whether or not the store
takes it. -/
def Costs : Effect → Purse → Prop
  | .seal _ iv _ _, p => (iv.length = 16 ∨ iv.length = 12) ∧ p = {.seal iv}
  | .create r, p | .replace _ r, p => ∃ iv, r.Carries iv ∧ p = {.issue iv}
  | _, p => p = 0

def gain : (e : Effect) → e.Answer → Purse
  | .draw n, x =>
    match (x : Except String (Octets n)) with
    | .ok b => {.seal b.val}
    | .error _ => 0
  | .seal _ iv _ _, _ => {.issue iv}
  | _, _ => 0

def isFree : Effect → Bool
  | .seal .. | .create _ | .replace .. => false
  | _ => true

theorem costs_of_free {e : Effect} (he : e.isFree = true) : e.Costs 0 := by
  cases e <;> first | rfl | cases he

end Effect

/-! ## Programs -/

namespace Prog

/-- The program pays for its effects from the purse, and ends with a purse like
this. -/
def Pays (post : α → Purse → Prop) : Purse → Prog α → Prop
  | p, .done a => post a p
  | p, .call e k => ∃ cost rest, e.Costs cost ∧ p = cost + rest ∧
    ∀ x, e.Honest x → (k x).Pays post (e.gain x + rest)

variable {post post' : α → Purse → Prop} {p : Purse}

theorem Pays.bind {a : Prog β} {f : β → Prog α} {mid : β → Purse → Prop} (ha : a.Pays mid p)
    (hf : ∀ b q, mid b q → (f b).Pays post q) : (a.bind f).Pays post p := by
  induction a generalizing p with
  | done b => exact hf b p ha
  | call e k ih =>
    obtain ⟨cost, rest, hc, hp, hk⟩ := ha
    exact ⟨cost, rest, hc, hp, fun x hx => ih x (hk x hx)⟩

theorem Pays.imp {a : Prog α} (ha : a.Pays post p) (h : ∀ b q, post b q → post' b q) : a.Pays post' p := by
  have hb : (a.bind .done).Pays post' p := ha.bind h
  rwa [bind_done] at hb

theorem Pays.free {e : Effect} {k : e.Answer → Prog α} (he : e.isFree = true)
    (hk : ∀ x, (k x).Pays post (e.gain x + p)) : (call e k).Pays post p :=
  ⟨0, p, Effect.costs_of_free he, (zero_add p).symm, fun x _ => hk x⟩

theorem pays_of_free {a : Prog α} (ha : a.Only Effect.isFree) : a.Pays (fun _ q => p ≤ q) p := by
  induction a generalizing p with
  | done a => exact le_rfl
  | call e k ih =>
    refine .free ha.1 fun x => (ih x (ha.2 x)).imp fun _ q hq => ?_
    exact (Multiset.le_add_left p _).trans hq

end Prog

/-! ## Actions -/

namespace Action

/-- Given these vouchers, the action ends like this, or it fails. It leaves all
others alone. -/
def Pays (pre : Purse) (post : α → Purse → Prop) (a : Action ε α) : Prop :=
  ∀ others, a.run.Pays (fun r q => ∀ x, r = .ok x → ∃ p, post x p ∧ p + others ≤ q) (pre + others)

namespace Pays

variable {pre : Purse} {post : α → Purse → Prop} {mid : β → Purse → Prop}

theorem pure {x : α} (h : post x pre) : (Pure.pure x : Action ε α).Pays pre post := by
  intro others y hy
  cases hy
  exact ⟨pre, h, le_rfl⟩

theorem throw (e : ε) : (throw e : Action ε α).Pays pre post := fun _ _ hx => by cases hx

theorem ofExcept {f : ε' → ε} {r : Except ε' α} (h : ∀ x, r = .ok x → post x pre) :
    (ofExcept f r : Action ε α).Pays pre post := by
  intro others x hx
  cases r with
  | ok y =>
    cases hx
    exact ⟨pre, h _ rfl, le_rfl⟩
  | error e => cases hx

theorem bind {a : Action ε β} {f : β → Action ε α} (ha : a.Pays pre mid)
    (hf : ∀ x p, mid x p → (f x).Pays p post) : (a >>= f).Pays pre post := by
  intro others
  refine Prog.Pays.bind (ha others) fun r q hr => ?_
  cases r with
  | error e => exact fun x hx => by cases hx
  | ok x =>
    obtain ⟨p, hx, hq⟩ := hr x rfl
    obtain ⟨more, rfl⟩ := Multiset.le_iff_exists_add.mp hq
    -- what the first part has left over is put with what it must not touch
    have hy := hf x p hx (others + more)
    rw [← add_assoc] at hy
    refine hy.imp fun r' q' h y hy => ?_
    obtain ⟨p', hp', hq'⟩ := h y hy
    refine ⟨p', hp', le_trans ?_ hq'⟩
    rw [← add_assoc]
    exact Multiset.le_add_right _ _

theorem andThen {a : Action ε β} {f : β → Action ε α} (ha : a.Pays pre fun _ p => p = pre)
    (hf : ∀ x, (f x).Pays pre post) : (a >>= f).Pays pre post :=
  ha.bind fun x _ hp => hp ▸ hf x

theorem frame {a : Action ε α} {p kept : Purse} (ha : a.Pays pre post) (hp : p = pre + kept) :
    a.Pays p fun x p' => ∃ q, post x q ∧ p' = q + kept := by
  subst hp
  intro others
  have h := ha (kept + others)
  rw [← add_assoc] at h
  refine h.imp fun r q hr x hx => ?_
  obtain ⟨p, hp, hq⟩ := hr x hx
  exact ⟨p + kept, ⟨p, hp, rfl⟩, by rwa [add_assoc]⟩

theorem mapError {a : Action ε' α} (f : ε' → ε) (ha : a.Pays pre post) : (mapError f a).Pays pre post := by
  intro others
  refine Prog.Pays.bind (ha others) fun r q hr x hx => ?_
  cases r with
  | ok y =>
    cases hx
    exact hr _ rfl
  | error e => cases hx

theorem holding {a : Action ε α} (lock : Lock) (mode : LockMode) (ha : a.Pays pre post) :
    (holding lock mode a).Pays pre post := by
  intro others
  refine Prog.Pays.free (e := .acquire lock mode) rfl fun _ => ?_
  refine Prog.Pays.bind (a := a.run) ((zero_add (pre + others)).symm ▸ ha others) fun r q hr => ?_
  exact Prog.Pays.free (e := .release lock) rfl fun _ => (zero_add q).symm ▸ hr

theorem free {a : Action ε α} (ha : a.Only Effect.isFree) : a.Pays pre fun _ p => p = pre := by
  intro others
  exact (Prog.pays_of_free ha).imp fun _ q hq _ _ => ⟨pre, rfl, hq⟩

theorem ask {e : Effect} (he : e.Costs pre) :
    (ask e : Action ε e.Answer).Pays pre fun x p => e.Honest x ∧ p = e.gain x := by
  intro others
  refine ⟨pre, others, he, rfl, fun x hx y hy => ?_⟩
  cases hy
  exact ⟨_, ⟨hx, rfl⟩, le_rfl⟩

theorem imp {a : Action ε α} {post' : α → Purse → Prop} (ha : a.Pays pre post')
    (h : ∀ x p, post' x p → post x p) : a.Pays pre post := by
  intro others
  refine (ha others).imp fun r q hr x hx => ?_
  obtain ⟨p, hp, hq⟩ := hr x hx
  exact ⟨p, h x p hp, hq⟩

end Pays

end Action

/-! ## Fresh initial values -/

open AttestedVault.Action

theorem Action.draw_pays (n : Nat) : (draw n).Pays 0 fun b p => p = {.seal b.val} := by
  refine .bind (.ask rfl) fun x p hp => ?_
  refine .ofExcept fun b hb => ?_
  obtain ⟨-, rfl⟩ := hp
  obtain rfl : x = Except.ok b := hb
  rfl

theorem Action.replace_pays {previous : String} {r : KeyRecord} {iv : Bytes} (hr : r.Carries iv) :
    (replace previous r).Pays {.issue iv} fun _ p => p = 0 :=
  .bind (.ask ⟨iv, hr, rfl⟩) fun _ _ hp => .ofExcept fun _ _ => hp.2

theorem generateDek_free : generateDek.Only Effect.isFree :=
  .bind (.bind (.ask rfl) fun _ => .ofExcept _ _) fun _ => .pure _

theorem wrapDek_pays (dek : Dek) (key : MasterKey) (c : Option WrapContext) :
    (wrapDek dek key c).Pays 0 fun w p => p = {.issue w.iv.val} := by
  refine .bind (draw_pays 12) fun iv p hp => ?_
  subst hp
  exact .bind (.ask ⟨.inr iv.property, rfl⟩) fun s p hp => .pure hp.2

theorem sealRecord_pays (dek : Dek) (key : MasterKey) (version : String) :
    (sealRecord dek key version).Pays 0 fun r p => ∃ iv, r.Carries iv ∧ p = {.issue iv} := by
  refine .bind (wrapDek_pays dek key _) fun w p hp => ?_
  refine .andThen (a := ask .stamp) (f := fun x => pure (KeyRecord.make x.1 x.2 w key.id version))
    (.free (.ask rfl)) fun x => .pure ?_
  exact ⟨w.iv.val, ⟨w, KeyRecord.wrapped_make .., rfl⟩, hp⟩

theorem sealCredential_pays (key plaintext : Bytes) :
    (sealCredential key plaintext).Pays 0 fun s p => ∃ iv : Octets 16, s.iv = iv.val ∧ p = {.issue iv.val} := by
  refine .bind (draw_pays 16) fun iv p hp => ?_
  subst hp
  cases Octets.ofBytes? 32 key with
  | none => exact .throw _
  | some k =>
    refine .imp (.ask ⟨.inl iv.property, rfl⟩) fun s p hs => ⟨iv, ?_, hs.2⟩
    obtain rfl : s = Sealed.make k iv.val plaintext [] := hs.1
    rfl

namespace Credential

theorem encrypt_pays (key : Dek) (text : String) :
    (encrypt key text).Pays 0 fun c p => ∃ iv, Carries c iv ∧ p = {.issue iv} := by
  refine .bind (.mapError _ (sealCredential_pays _ _)) fun s p hs => .pure ?_
  obtain ⟨iv, hs, hp⟩ := hs
  refine ⟨iv.val, ⟨iv, s.tag, s.ciphertext, ?_, rfl⟩, hp⟩
  have h := writes_encode iv s.tag s.ciphertext
  rwa [← hs] at h

def Covers (cs : List String) (p : Purse) : Prop :=
  ∃ ivs : List Bytes, List.Forall₂ Carries cs ivs ∧ (ivs.map .issue : List Voucher) ≤ p

theorem covers_nil (p : Purse) : Covers [] p := ⟨[], .nil, Multiset.zero_le p⟩

theorem Covers.mono {cs : List String} {p q : Purse} (h : Covers cs p) (hpq : p ≤ q) : Covers cs q := by
  obtain ⟨ivs, hcs, hp⟩ := h
  exact ⟨ivs, hcs, hp.trans hpq⟩

theorem Covers.append {cs ds : List String} {p q : Purse} (hc : Covers cs p) (hd : Covers ds q) :
    Covers (cs ++ ds) (p + q) := by
  obtain ⟨ivs, hcs, hp⟩ := hc
  obtain ⟨ivs', hds, hq⟩ := hd
  refine ⟨ivs ++ ivs', List.rel_append hcs hds, ?_⟩
  rw [List.map_append, ← Multiset.coe_add]
  exact add_le_add hp hq

theorem covers_singleton {c : String} {iv : Bytes} (h : Carries c iv) : Covers [c] {.issue iv} :=
  ⟨[iv], .cons h .nil, le_rfl⟩

theorem reencrypt_pays (old new : Dek) (cs : List String) : (reencrypt old new cs).Pays 0 Covers := by
  induction cs with
  | nil => exact .pure (covers_nil 0)
  | cons c cs ih =>
    refine .andThen (.ofExcept fun _ _ => rfl) fun text => ?_
    refine .bind (encrypt_pays new text) fun d p hd => ?_
    obtain ⟨iv, hd, rfl⟩ := hd
    refine .bind (ih.frame (zero_add _).symm) fun ds p hds => .pure ?_
    obtain ⟨q, hds, rfl⟩ := hds
    exact add_comm q _ ▸ (covers_singleton hd).append hds

end Credential

/-! ## Operations -/

namespace KeyManager

variable {ε α : Type}

theorem free_of_looks {a : Action ε α} (ha : a.Only Effect.isLook) : a.Only Effect.isFree :=
  Prog.Only.imp (fun e he => by cases e <;> first | rfl | cases he) ha

theorem readActive_free : readActive.Only Effect.isFree := .bind (.ask rfl) fun _ => .ofExcept _ _

theorem bootstrap_pays (key : MasterKey) : (bootstrap key).Pays 0 fun _ p => p = 0 := by
  refine .andThen (.mapError _ (.free generateDek_free)) fun dek => ?_
  refine .bind (.mapError _ (sealRecord_pays dek key _)) fun r p hr => ?_
  obtain ⟨iv, hr, rfl⟩ := hr
  refine .bind (.ask ⟨iv, hr, rfl⟩) fun x p hp => ?_
  obtain rfl : p = 0 := hp.2
  -- the record is paid for, also if another manager was faster
  refine .free ?_
  cases (x : Except StoreError Unit) with
  | ok u => exact .pure _
  | error e =>
    by_cases he : e = .activeRecordExists
    · subst he
      refine .bind readActive_free fun o => ?_
      cases o with
      | none => exact .throw _
      | some r => exact .ofExcept _ _
    · cases e <;> first | exact absurd rfl he | exact .throw _

theorem loadDek_pays : loadDek.Pays 0 fun _ p => p = 0 := by
  refine .andThen (.free (free_of_looks currentMasterKey_looks)) fun key => ?_
  refine .andThen (.free readActive_free) fun o => ?_
  cases o with
  | some r => exact .ofExcept fun _ _ => rfl
  | none => exact bootstrap_pays key

theorem currentDek_pays : currentDek.Pays 0 fun _ p => p = 0 := by
  refine .andThen (.free (.ask rfl)) fun c => ?_
  cases (c : Option Dek) with
  | some dek => exact .pure rfl
  | none =>
    refine .holding _ _ (.andThen (.free (.ask rfl)) fun c => ?_)
    cases (c : Option Dek) with
    | some dek => exact .pure rfl
    | none => exact .andThen loadDek_pays fun dek => .andThen (.free (.ask rfl)) fun _ => .pure rfl

theorem withLease_pays {lift : KeyError → ε} {use : Dek → Action ε α} {post : α → Purse → Prop}
    (h : ∀ dek, (use dek).Pays 0 post) : (withLease lift use).Pays 0 post :=
  .holding _ _ (.andThen (.mapError _ currentDek_pays) h)

theorem rotateWith_pays {lift : KeyError → ε} {reencrypt : Dek → Dek → Action ε α} (post : α → Purse → Prop)
    (h : ∀ old new, (reencrypt old new).Pays 0 post) :
    (rotateWith lift reencrypt).Pays 0 fun x p => post x.2 p := by
  refine .holding _ _ (.holding _ _ ?_)
  refine .andThen (.mapError _ (.free (free_of_looks currentMasterKey_looks))) fun key => ?_
  refine .andThen (.mapError _ (.free (free_of_looks activeRecord_looks))) fun current => ?_
  refine .andThen (.ofExcept fun _ _ => rfl) fun old => ?_
  refine .andThen (.mapError _ (.free generateDek_free)) fun dek => ?_
  refine .bind (.mapError _ (sealRecord_pays dek key _)) fun r p hr => ?_
  obtain ⟨iv, hr, rfl⟩ := hr
  -- the voucher for the new record is kept while credentials are encrypted anew
  refine .bind ((h old dek).frame (zero_add _).symm) fun result p hp => ?_
  obtain ⟨q, hq, rfl⟩ := hp
  refine .bind (.mapError _ ((replace_pays hr).frame (add_comm _ _))) fun _ p hp => ?_
  obtain ⟨_, rfl, rfl⟩ := hp
  refine .andThen (.free (.ask rfl)) fun _ => .pure ?_
  rw [zero_add]
  exact hq

theorem rotate_pays : rotate.Pays 0 fun _ p => p = 0 :=
  .andThen (rotateWith_pays (fun _ p => p = 0) fun _ _ => .pure rfl) fun _ => .pure rfl

theorem migrate_pays (oldKey : MasterKey) : (migrate oldKey).Pays 0 fun _ p => p = 0 := by
  refine .holding _ _ (.andThen (.free (free_of_looks currentMasterKey_looks)) fun key => ?_)
  refine .andThen (.free (free_of_looks activeRecord_looks)) fun current => ?_
  refine .andThen (.ofExcept fun _ _ => rfl) fun stored => ?_
  by_cases hs : stored = key.id
  · rw [if_pos hs]
    exact .throw _
  rw [if_neg hs]
  refine .andThen (.ofExcept fun _ _ => rfl) fun dek => ?_
  refine .bind (.mapError _ (sealRecord_pays dek key _)) fun r p hr => ?_
  obtain ⟨iv, hr, rfl⟩ := hr
  refine .bind (replace_pays hr) fun _ p hp => ?_
  subst hp
  exact .andThen (.free (.ask rfl)) fun _ => .pure rfl

end KeyManager

namespace KeySource

theorem dek_pays (s : KeySource) : s.dek.Pays 0 fun _ p => p = 0 := by
  cases s with
  | attested => exact .mapError _ KeyManager.currentDek_pays
  | development k => exact .pure rfl

theorem withEncryptionKey_pays (s : KeySource) {use : Dek → Action CredentialError α} {post : α → Purse → Prop}
    (h : ∀ dek, (use dek).Pays 0 post) : (s.withEncryptionKey use).Pays 0 post := by
  cases s with
  | attested => exact KeyManager.withLease_pays h
  | development k => exact h k

theorem managed_pays (s : KeySource) (operation : AttestedOperation) {a : Action CredentialError α}
    {post : α → Purse → Prop} (h : a.Pays 0 post) : (s.managed operation a).Pays 0 post := by
  cases s with
  | attested => exact h
  | development k => exact .throw _

theorem encrypt_pays (s : KeySource) (text : String) :
    (s.encrypt text).Pays 0 fun c p => Credential.Covers [c] p := by
  refine s.withEncryptionKey_pays fun dek => (Credential.encrypt_pays dek text).imp ?_
  rintro c p ⟨iv, hc, rfl⟩
  exact Credential.covers_singleton hc

theorem rotateAndReencrypt_pays (s : KeySource) (cs : List String) :
    (s.rotateAndReencrypt cs).Pays 0 Credential.Covers :=
  s.managed_pays _ (.bind (KeyManager.rotateWith_pays _ fun old new => Credential.reencrypt_pays old new cs)
    fun _ _ h => .pure h)

end KeySource

/-! ## Requests -/

inductive Request
  | encrypt (text : String)
  | decrypt (credential : String)
  | currentDek
  | rotate
  | reencrypt (credentials : List String)
  | migrate (oldKey : MasterKey)
  | clearCache

/-- The action as a program that ends with the credentials in its result, or with
none if it fails. -/
def Action.issuing (f : α → List String) (a : Action ε α) : Prog (List String) :=
  a.run.bind fun r => .done ((r.toOption.map f).getD [])

theorem Action.issuing_pays {f : α → List String} {a : Action ε α}
    (h : a.Pays 0 fun x p => Credential.Covers (f x) p) : (a.issuing f).Pays Credential.Covers 0 := by
  refine Prog.Pays.bind (a := a.run) (h 0) fun r p hr => ?_
  cases r with
  | ok x =>
    obtain ⟨q, hq, hp⟩ := hr x rfl
    exact hq.mono (add_zero q ▸ hp)
  | error e => exact Credential.covers_nil p

namespace Request

def prog (s : KeySource) : Request → Prog (List String)
  | encrypt text => (s.encrypt text).issuing fun c => [c]
  | decrypt c => (s.decrypt c).issuing fun _ => []
  | currentDek => s.dek.issuing fun _ => []
  | rotate => s.rotate.issuing fun _ => []
  | reencrypt cs => (s.rotateAndReencrypt cs).issuing id
  | migrate oldKey => (s.migrate oldKey).issuing fun _ => []
  | clearCache => KeyManager.clearCache.bind fun _ => .done []

theorem prog_pays (s : KeySource) (r : Request) : (r.prog s).Pays Credential.Covers 0 := by
  cases r with
  | encrypt text => exact issuing_pays (s.encrypt_pays text)
  | decrypt c => exact issuing_pays (.andThen s.dek_pays fun _ => .ofExcept fun _ _ => Credential.covers_nil 0)
  | currentDek => exact issuing_pays (s.dek_pays.imp fun _ p _ => Credential.covers_nil p)
  | rotate =>
    have h := s.managed_pays .rotation (.mapError .key KeyManager.rotate_pays)
    exact issuing_pays (h.imp fun _ p _ => Credential.covers_nil p)
  | reencrypt cs => exact issuing_pays (s.rotateAndReencrypt_pays cs)
  | migrate oldKey =>
    have h := s.managed_pays .migration (.mapError .key (KeyManager.migrate_pays oldKey))
    exact issuing_pays (h.imp fun _ p _ => Credential.covers_nil p)
  | clearCache => exact Prog.Pays.free (e := .forget) rfl fun _ => Credential.covers_nil _

end Request

end AttestedVault
