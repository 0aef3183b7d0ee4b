import AttestedVault.Proofs.Solo
import AttestedVault.Proofs.Turns

/-!
# Programs among others

Rely and guarantee, by locks: what may be changed only by the one who has a
lock alone stays as it is for everybody who has that lock. A program that
observes this is safe, whatever the others do between its effects.
-/

namespace AttestedVault

def Held := Lock → Option LockMode

namespace Held

def free : Held := fun _ => none

def set (H : Held) (lock : Lock) (m : Option LockMode) : Held := fun l => if l = lock then m else H l

@[simp] theorem set_same (H : Held) (lock : Lock) (m : Option LockMode) : H.set lock m lock = m := if_pos rfl

theorem set_of_ne (H : Held) {lock l : Lock} (m : Option LockMode) (h : l ≠ lock) :
    H.set lock m l = H l := if_neg h

theorem set_set_none {H : Held} {lock : Lock} (m : Option LockMode) (h : H lock = none) :
    (H.set lock m).set lock none = H := by
  funext l
  by_cases hl : l = lock
  · rw [hl, set_same, h]
  · rw [set_of_ne _ _ hl, set_of_ne _ _ hl]

end Held

/-- How programs treat the state that they share. -/
structure Rules (σ : Type) where
  perform : Nat → Handler σ
  /-- Holds after every effect. -/
  invariant : σ → Prop
  /-- The changes on a node that need no exclusive lock of this kind. -/
  respects : Nat → Lock → σ → σ → Prop
  /-- Holds unless somebody has the lock alone. -/
  kept : Nat → Lock → σ → Prop
  refl : ∀ n l s, respects n l s s
  trans : ∀ {n l s t u}, respects n l s t → respects n l t u → respects n l s u
  keeps : ∀ {n l s t}, respects n l s t → kept n l s → kept n l t

structure Role (σ : Type) where
  /-- What the program may count on when it comes to an effect. -/
  promise : Effect → σ → Prop
  /-- The locks that it has for an effect. -/
  duty : Effect → Held → Prop

namespace Rules

variable {σ : Type} (R : Rules σ)

def Relies (n : Nat) (H : Held) (s t : σ) : Prop :=
  R.invariant t ∧ ∀ l, H l ≠ none → R.respects n l s t

def Grants (n : Nat) (H : Held) (s t : σ) : Prop :=
  R.invariant t ∧ ∀ n' l, (n' = n → H l ≠ some .exclusive) → R.respects n' l s t

/-- Needs no lock, neither for itself nor for what it changes. -/
structure Free (ρ : Role σ) (e : Effect) : Prop where
  locking : e.isLocking = false
  duty : ∀ H, ρ.duty e H
  honest : ∀ n s, e.Honest (R.perform n e s).1
  invariant : ∀ n s, R.invariant s → R.invariant (R.perform n e s).2
  respects : ∀ n n' l s, R.invariant s → R.respects n' l s (R.perform n e s).2

variable {R} {n : Nat} {H : Held} {s t u : σ}

theorem Relies.refl (hs : R.invariant s) : R.Relies n H s s := ⟨hs, fun l _ => R.refl n l s⟩

theorem Relies.trans (h : R.Relies n H s t) (h' : R.Relies n H t u) : R.Relies n H s u :=
  ⟨h'.1, fun l hl => R.trans (h.2 l hl) (h'.2 l hl)⟩

theorem Relies.mono {H' : Held} (h : R.Relies n H s t) (hH : ∀ l, H' l ≠ none → H l ≠ none) :
    R.Relies n H' s t :=
  ⟨h.1, fun l hl => h.2 l (hH l hl)⟩

theorem Relies.of_set {lock : Lock} {m : LockMode} (h : R.Relies n (H.set lock (some m)) s t) :
    R.Relies n H s t := by
  refine h.mono fun l hl => ?_
  by_cases he : l = lock
  · rw [he, Held.set_same]
    exact Option.some_ne_none m
  · rwa [Held.set_of_ne _ _ he]

end Rules

/-! ## Safety -/

namespace Prog

variable {σ α β : Type} (R : Rules σ) (ρ : Role σ) (n : Nat)

/-- Started in `s`, the program keeps to the rules and ends as `post` says, with
the others at work before each of its effects and after the last. -/
def Safe (post : α → Held → σ → Prop) : Held → Prog α → σ → Prop
  | H, .done a, s => ∀ t, R.Relies n H s t → post a H t
  | H, .call e k, s => ∀ t, R.Relies n H s t →
    match e, k with
    | .acquire lock mode, k =>
      H lock = none ∧ (R.kept n lock t → (k ()).Safe post (H.set lock (some mode)) t)
    | .release lock, k =>
      (H lock = some .exclusive → R.kept n lock t) ∧ (k ()).Safe post (H.set lock none) t
    | e, k => ρ.promise e t → ρ.duty e H ∧ R.Grants n H t (R.perform n e t).2 ∧
      (k (R.perform n e t).1).Safe post H (R.perform n e t).2

variable {R ρ n} {post : α → Held → σ → Prop} {H : Held} {s : σ}

theorem safe_call {e : Effect} {k : e.Answer → Prog α} (he : e.isLocking = false) :
    (call e k).Safe R ρ n post H s ↔ ∀ t, R.Relies n H s t → ρ.promise e t → ρ.duty e H ∧
      R.Grants n H t (R.perform n e t).2 ∧ (k (R.perform n e t).1).Safe R ρ n post H (R.perform n e t).2 := by
  cases e <;> first | exact .rfl | cases he

theorem Safe.relies {p : Prog α} {t : σ} (hp : p.Safe R ρ n post H s) (h : R.Relies n H s t) :
    p.Safe R ρ n post H t := by
  cases p with
  | done a => exact fun u hu => hp u (h.trans hu)
  | call e k => exact fun u hu => hp u (h.trans hu)

theorem Safe.of_relies {p : Prog α} (h : ∀ t, R.Relies n H s t → p.Safe R ρ n post H t) :
    p.Safe R ρ n post H s := by
  cases p with
  | done a => exact fun t ht => h t ht t (.refl ht.1)
  | call e k => exact fun t ht => h t ht t (.refl ht.1)

theorem Safe.bind {p : Prog β} {f : β → Prog α} {post' : β → Held → σ → Prop} : ∀ {H : Held} {s : σ},
    p.Safe R ρ n post' H s →
    (∀ b H' t, (∀ u, R.Relies n H' t u → post' b H' u) → (f b).Safe R ρ n post H' t) →
    (p.bind f).Safe R ρ n post H s := by
  induction p with
  | done b => exact fun hp hf => hf b _ _ hp
  | call e k ih =>
    intro H s hp hf
    cases he : e.isLocking with
    | true =>
      cases e with
      | acquire lock mode => exact fun t ht => ⟨(hp t ht).1, fun hk => ih () ((hp t ht).2 hk) hf⟩
      | release lock => exact fun t ht => ⟨(hp t ht).1, ih () (hp t ht).2 hf⟩
      | _ => cases he
    | false =>
      rw [safe_call he] at hp
      refine (safe_call he).mpr fun t ht hpr => ?_
      obtain ⟨hd, hg, hk⟩ := hp t ht hpr
      exact ⟨hd, hg, ih _ hk hf⟩

theorem Safe.weaken {p : Prog α} {P : α → Held → σ → Prop} (hp : p.Safe R ρ n P H s)
    (h : ∀ a H' t, P a H' t → post a H' t) : p.Safe R ρ n post H s := by
  have hb : (p.bind .done).Safe R ρ n post H s := hp.bind fun a H' t ha u hu => h a H' u (ha u hu)
  rwa [bind_done] at hb

theorem Safe.free {e : Effect} {k : e.Answer → Prog α} (he : R.Free ρ e)
    (h : ∀ t, R.Relies n H s t → (k (R.perform n e t).1).Safe R ρ n post H t) :
    (call e k).Safe R ρ n post H s := by
  refine (safe_call he.locking).mpr fun t ht _ => ?_
  have hu : R.Relies n H t (R.perform n e t).2 := ⟨he.invariant n t ht.1, fun l _ => he.respects n n l t ht.1⟩
  exact ⟨he.duty H, ⟨hu.1, fun n' l _ => he.respects n n' l t ht.1⟩, (h t ht).relies hu⟩

theorem Safe.free_bind {p : Prog β} {f : β → Prog α} {kind : Effect → Bool} {Q : β → Prop}
    (hk : ∀ e, kind e = true → R.Free ρ e) (hp : p.Only kind) (hy : p.Yields Q)
    (hf : ∀ b, Q b → (f b).Safe R ρ n post H s) : (p.bind f).Safe R ρ n post H s := by
  induction p with
  | done b => exact hf b hy
  | call e k ih =>
    exact .free (hk e hp.1) fun t ht => (ih _ (hp.2 _) (hy _ ((hk e hp.1).honest n t))).relies ht

end Prog

/-! ## Actions -/

namespace Action

variable {σ ε ε' α β : Type} {R : Rules σ} {ρ : Role σ} {n : Nat} {H : Held} {s : σ}
variable {post : Except ε α → Held → σ → Prop}

theorem safe_pure {a : α} (h : ∀ t, R.Relies n H s t → post (.ok a) H t) :
    (pure a : Action ε α).run.Safe R ρ n post H s := h

theorem safe_throw {e : ε} (h : ∀ t, R.Relies n H s t → post (.error e) H t) :
    (throw e : Action ε α).run.Safe R ρ n post H s := h

theorem safe_ask {e : Effect} {f : e.Answer → Action ε α} (he : R.Free ρ e)
    (h : ∀ t x, R.Relies n H s t → (R.perform n e t).1 = x → (f x).run.Safe R ρ n post H t) :
    (ask e >>= f).run.Safe R ρ n post H s :=
  Prog.Safe.free he fun t ht => h t _ ht rfl

theorem safe_call {e : Effect} {f : e.Answer → Action ε α} (he : e.isLocking = false)
    (h : ∀ t x u, R.Relies n H s t → ρ.promise e t → R.perform n e t = (x, u) →
      ρ.duty e H ∧ R.Grants n H t u ∧ (f x).run.Safe R ρ n post H u) :
    (ask e >>= f).run.Safe R ρ n post H s :=
  (Prog.safe_call he).mpr fun t ht hp => h t _ _ ht hp rfl

theorem safe_bind {a : Action ε β} {f : β → Action ε α} {P : Except ε β → Held → σ → Prop}
    (ha : a.run.Safe R ρ n P H s)
    (hok : ∀ x H' t, (∀ u, R.Relies n H' t u → P (.ok x) H' u) → (f x).run.Safe R ρ n post H' t)
    (herr : ∀ e H' t, P (.error e) H' t → post (.error e) H' t) :
    (a >>= f).run.Safe R ρ n post H s := by
  refine Prog.Safe.bind ha fun r H' t hr => ?_
  cases r with
  | ok x => exact hok x H' t hr
  | error e => exact fun u hu => herr e H' u (hr u hu)

theorem safe_mapError {a : Action ε' α} {f : ε' → ε}
    (h : a.run.Safe R ρ n (fun r => post (r.mapError f)) H s) : (mapError f a).run.Safe R ρ n post H s :=
  Prog.Safe.bind h fun _ _ _ hr => hr

theorem safe_holding {a : Action ε α} {lock : Lock} {mode : LockMode} (hl : H lock = none)
    (h : ∀ t, R.Relies n H s t → R.kept n lock t → a.run.Safe R ρ n
      (fun r H' u => H' = H.set lock (some mode) ∧ (mode = .exclusive → R.kept n lock u) ∧
        ∀ v, R.Relies n H u v → post r H v) (H.set lock (some mode)) t) :
    (holding lock mode a).run.Safe R ρ n post H s := by
  refine fun t ht => ⟨hl, fun hk => ?_⟩
  change (a.run.bind fun r => .call (.release lock) fun _ => .done r).Safe R ρ n post _ t
  refine .bind (h t ht hk) fun r H' u hr v hv => ?_
  obtain ⟨rfl, hx, hp⟩ := hr v hv
  refine ⟨fun hm => hx (Option.some.inj ((Held.set_same ..).symm.trans hm)), ?_⟩
  rw [Held.set_set_none _ hl]
  exact hp

/-! ## Actions that change nothing -/

def Still (R : Rules σ) (ρ : Role σ) (n : Nat) (H : Held) (s : σ) (Q : α → Prop) (a : Action ε α) : Prop :=
  a.run.Safe R ρ n (fun r H' t => H' = H ∧ R.Relies n H s t ∧ ∀ x, r = .ok x → Q x) H s

variable {Q : α → Prop} {P : β → Prop}

theorem Still.pure {x : α} (h : Q x) : (Pure.pure x : Action ε α).Still R ρ n H s Q := by
  refine fun t ht => ⟨rfl, ht, fun y hy => ?_⟩
  cases hy
  exact h

theorem Still.throw (e : ε) : (throw e : Action ε α).Still R ρ n H s Q := fun _ ht => ⟨rfl, ht, nofun⟩

theorem Still.ofExcept {f : ε' → ε} {r : Except ε' α} (h : ∀ x, r = .ok x → Q x) :
    (ofExcept f r).Still R ρ n H s Q := by
  refine fun t ht => ⟨rfl, ht, fun x hx => ?_⟩
  cases r with
  | ok y =>
    cases hx
    exact h _ rfl
  | error e => cases hx

theorem Still.of_only {a : Action ε α} {kind : Effect → Bool} (hk : ∀ e, kind e = true → R.Free ρ e)
    (ha : a.Only kind) (hy : a.Yields Q) : a.Still R ρ n H s Q := by
  have h : (a.run.bind .done).Safe R ρ n (fun r H' t => H' = H ∧ R.Relies n H s t ∧ ∀ x, r = .ok x → Q x) H s :=
    .free_bind hk ha hy fun r hr t ht => ⟨rfl, ht, hr⟩
  rwa [Prog.bind_done] at h

theorem Still.ask {e : Effect} {f : e.Answer → Action ε α} (he : R.Free ρ e)
    (h : ∀ t x, R.Relies n H s t → (R.perform n e t).1 = x → (f x).Still R ρ n H s Q) :
    (Action.ask e >>= f).Still R ρ n H s Q :=
  safe_ask he fun t x ht hx => (h t x ht hx).relies ht

theorem Still.safe_bind {a : Action ε β} {f : β → Action ε α} (ha : a.Still R ρ n H s P)
    (hok : ∀ x, P x → (f x).run.Safe R ρ n post H s)
    (herr : ∀ e t, R.Relies n H s t → post (.error e) H t) : (a >>= f).run.Safe R ρ n post H s := by
  refine Action.safe_bind ha ?_ ?_
  · refine fun x H' t hx => .of_relies fun u hu => ?_
    obtain ⟨rfl, hs, hq⟩ := hx u hu
    exact (hok x (hq x rfl)).relies hs
  · rintro e H' t ⟨rfl, hs, -⟩
    exact herr e t hs

theorem Still.bind {a : Action ε β} {f : β → Action ε α} (ha : a.Still R ρ n H s P)
    (hf : ∀ x, P x → (f x).Still R ρ n H s Q) : (a >>= f).Still R ρ n H s Q :=
  ha.safe_bind hf fun _ _ ht => ⟨rfl, ht, nofun⟩

theorem Still.mapError {a : Action ε' α} (f : ε' → ε) (ha : a.Still R ρ n H s Q) :
    (mapError f a).Still R ρ n H s Q := by
  refine Prog.Safe.bind ha fun r H' t hr u hu => ?_
  obtain ⟨rfl, hs, hq⟩ := hr u hu
  refine ⟨rfl, hs, fun x hx => ?_⟩
  cases r with
  | ok y =>
    cases hx
    exact hq _ rfl
  | error e => cases hx

end Action

end AttestedVault
