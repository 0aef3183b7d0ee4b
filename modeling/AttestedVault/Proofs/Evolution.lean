import AttestedVault.Proofs.Solo
import AttestedVault.Proofs.Turns

/-!
# What is never undone

Programs among others that need no lock for what they rely on: the state moves
on in one direction only, and what has come about stays.
-/

namespace AttestedVault

/-- A state that moves on by the effects of programs. -/
structure Evolution (σ : Type) where
  perform : Nat → Handler σ
  /-- Holds after every effect. -/
  invariant : σ → Prop
  onward : σ → σ → Prop
  refl : ∀ s, onward s s
  trans : ∀ {s t u}, onward s t → onward t u → onward s u
  locking : ∀ n e s, e.isLocking = true → (perform n e s).2 = s

namespace Evolution

variable {σ : Type} (E : Evolution σ)

def Becomes (s t : σ) : Prop := E.invariant t ∧ E.onward s t

def Idle (e : Effect) : Prop := ∀ n s, E.invariant s → E.Becomes s (E.perform n e s).2

variable {E} {s t u : σ}

theorem Becomes.refl (hs : E.invariant s) : E.Becomes s s := ⟨hs, E.refl s⟩

theorem Becomes.trans (h : E.Becomes s t) (h' : E.Becomes t u) : E.Becomes s u := ⟨h'.1, E.trans h.2 h'.2⟩

theorem idle_of_locking {e : Effect} (he : e.isLocking = true) : E.Idle e := by
  intro n s hs
  rw [E.locking n e s he]
  exact .refl hs

end Evolution

variable {σ ε ε' α β : Type}

/-! ## Programs -/

/-- The program moves the state on and ends as `post` says, with the others at
work before each of its effects and after the last. -/
def Prog.Steady (E : Evolution σ) (n : Nat) (post : α → σ → Prop) : Prog α → σ → Prop
  | .done a, s => ∀ t, E.Becomes s t → post a t
  | .call e k, s => ∀ t, E.Becomes s t → E.Becomes t (E.perform n e t).2 ∧
    (k (E.perform n e t).1).Steady E n post (E.perform n e t).2

namespace Prog.Steady

variable {E : Evolution σ} {n : Nat} {post : α → σ → Prop} {s t : σ}

theorem later {p : Prog α} (hp : p.Steady E n post s) (h : E.Becomes s t) : p.Steady E n post t := by
  cases p with
  | done a => exact fun u hu => hp u (h.trans hu)
  | call e k => exact fun u hu => hp u (h.trans hu)

theorem bind {p : Prog β} {f : β → Prog α} {P : β → σ → Prop} (hp : p.Steady E n P s)
    (hf : ∀ b t, (∀ u, E.Becomes t u → P b u) → (f b).Steady E n post t) : (p.bind f).Steady E n post s := by
  induction p generalizing s with
  | done b => exact hf b s hp
  | call e k ih => exact fun t ht => ⟨(hp t ht).1, ih _ (hp t ht).2⟩

theorem idle {e : Effect} {k : e.Answer → Prog α} (he : E.Idle e)
    (h : ∀ t, E.Becomes s t → (k (E.perform n e t).1).Steady E n post t) : (call e k).Steady E n post s :=
  fun t ht => ⟨he n t ht.1, (h t ht).later (he n t ht.1)⟩

end Prog.Steady

/-! ## Actions -/

namespace Action

def Steady (E : Evolution σ) (n : Nat) (post : Except ε α → σ → Prop) (a : Action ε α) (s : σ) : Prop :=
  a.run.Steady E n post s

namespace Steady

variable {E : Evolution σ} {n : Nat} {post : Except ε α → σ → Prop} {s : σ}

theorem pure {x : α} (h : ∀ t, E.Becomes s t → post (.ok x) t) : (Pure.pure x : Action ε α).Steady E n post s := h

theorem throw {e : ε} (h : ∀ t, E.Becomes s t → post (.error e) t) : (throw e : Action ε α).Steady E n post s := h

theorem ofExcept {l : ε' → ε} {r : Except ε' α} (h : ∀ t, E.Becomes s t → post (r.mapError l) t) :
    (ofExcept l r).Steady E n post s := h

theorem call {e : Effect} {f : e.Answer → Action ε α}
    (h : ∀ x t u, E.Becomes s t → E.perform n e t = (x, u) → E.Becomes t u ∧ (f x).Steady E n post u) :
    (Action.ask e >>= f).Steady E n post s :=
  fun t ht => h _ t _ ht rfl

theorem ask {e : Effect} {f : e.Answer → Action ε α} (he : E.Idle e)
    (h : ∀ x t, E.Becomes s t → (E.perform n e t).1 = x → (f x).Steady E n post t) :
    (Action.ask e >>= f).Steady E n post s :=
  Prog.Steady.idle he fun t ht => h _ t ht rfl

theorem bind {a : Action ε β} {f : β → Action ε α} {P : Except ε β → σ → Prop} (ha : a.Steady E n P s)
    (hok : ∀ x t, (∀ u, E.Becomes t u → P (.ok x) u) → (f x).Steady E n post t)
    (herr : ∀ e t, P (.error e) t → post (.error e) t) : (a >>= f).Steady E n post s := by
  refine Prog.Steady.bind ha fun r t hr => ?_
  cases r with
  | ok x => exact hok x t hr
  | error e => exact fun u hu => herr e u (hr u hu)

theorem ofExcept_bind {l : ε' → ε} {r : Except ε' β} {f : β → Action ε α}
    (hok : ∀ x, r = .ok x → (f x).Steady E n post s)
    (herr : ∀ e t, r = .error e → E.Becomes s t → post (.error (l e)) t) :
    (Action.ofExcept l r >>= f).Steady E n post s := by
  cases r with
  | ok x => exact hok x rfl
  | error e => exact fun t ht => herr e t rfl ht

theorem bind_mapError {l : ε' → ε} {a : Action ε' β} {f : β → Action ε α} {P : Except ε' β → σ → Prop}
    (ha : a.Steady E n P s) (hok : ∀ x t, (∀ u, E.Becomes t u → P (.ok x) u) → (f x).Steady E n post t)
    (herr : ∀ e t, P (.error e) t → post (.error (l e)) t) : (Action.mapError l a >>= f).Steady E n post s := by
  have hmap : (Action.mapError l a).Steady E n (fun r t => (∀ x, r = .ok x → P (.ok x) t) ∧
      ∀ e, r = .error e → post (.error e) t) s := by
    refine Prog.Steady.bind ha fun r t hr u hu => ?_
    cases r with
    | ok x =>
      refine ⟨fun y hy => ?_, nofun⟩
      cases hy
      exact hr u hu
    | error e =>
      refine ⟨nofun, fun e' he => ?_⟩
      cases he
      exact herr e u (hr u hu)
  exact bind hmap (fun x t hx => hok x t fun u hu => (hx u hu).1 x rfl) fun e t he => he.2 e rfl

theorem holding {a : Action ε α} (lock : Lock) (mode : LockMode) (h : ∀ t, E.Becomes s t → a.Steady E n post t) :
    (holding lock mode a).Steady E n post s := by
  refine Prog.Steady.idle (Evolution.idle_of_locking (e := .acquire lock mode) rfl) fun t ht => ?_
  change (a.run.bind fun r => .call (.release lock) fun _ => .done r).Steady E n post t
  refine Prog.Steady.bind (h t ht) fun r u hr => ?_
  exact Prog.Steady.idle (Evolution.idle_of_locking (e := .release lock) rfl) fun v hv w hw => hr w (hv.trans hw)

end Steady

end Action

/-! ## Schedules -/

structure Schedule.Settled (E : Evolution σ) (post : Nat → α → σ → Prop) (s : Schedule σ α) : Prop where
  invariant : E.invariant s.contended.state
  steady : ∀ (i : Nat) (t : Task α), s.tasks[i]? = some t →
    t.prog.Steady E t.node (post t.node) s.contended.state

namespace Schedule.Settled

variable {E : Evolution σ} {post : Nat → α → σ → Prop} {s : Schedule σ α}

theorem start {s : σ} (hs : E.invariant s) : Settled E post (Schedule.start s : Schedule σ α) :=
  ⟨hs, fun _ _ ht => (by cases ht)⟩

theorem spawn (hs : s.Settled E post) {t : Task α} (ht : t.prog.Steady E t.node (post t.node) s.contended.state) :
    Settled E post { s with tasks := s.tasks ++ [t] } := by
  refine ⟨hs.invariant, fun i u hu => ?_⟩
  rcases List.mem_append.mp (List.mem_of_getElem? hu) with hmem | hmem
  · obtain ⟨j, hj⟩ := List.getElem?_of_mem hmem
    exact hs.steady j u hj
  · obtain rfl := List.mem_singleton.mp hmem
    exact ht

theorem move (hs : s.Settled E post) {i node : Nat} {p : Prog α} {queue : List LockRequest} {u : σ}
    (hu : E.Becomes s.contended.state u) (hp : p.Steady E node (post node) u) :
    Settled E post ⟨⟨u, queue⟩, s.tasks.set i ⟨node, p⟩⟩ := by
  refine ⟨hu.1, fun j t ht => ?_⟩
  rcases List.mem_or_eq_of_mem_set (List.mem_of_getElem? ht) with hmem | rfl
  · obtain ⟨j, hj⟩ := List.getElem?_of_mem hmem
    exact (hs.steady j t hj).later hu
  · exact hp

theorem step (hs : s.Settled E post) (i : Nat) :
    E.Becomes s.contended.state (s.step E.perform i).contended.state ∧ (s.step E.perform i).Settled E post := by
  unfold Schedule.step
  split
  · rename_i node e k ht
    obtain ⟨hu, hk⟩ := hs.steady i _ ht _ (.refl hs.invariant)
    cases he : e.isLocking with
    | false =>
      rw [Contended.answer_of_not_locking he]
      exact ⟨hu, hs.move hu hk⟩
    | true =>
      -- a lock leaves the state alone, whether the task waits for it or not
      have hst := Contended.state_of_locking (h := E.perform node) (i := i) (n := node) he s.contended
      rw [E.locking node e _ he] at hk
      cases hx : Contended.answer (E.perform node) i node e s.contended with
      | mk a c =>
        rw [hx] at hst
        obtain ⟨u, queue⟩ := c
        cases hst
        cases a with
        | none => exact ⟨.refl hs.invariant, hs.invariant, hs.steady⟩
        | some x =>
          have hx' : x = (E.perform node e s.contended.state).1 := by
            cases e with
            | acquire => rfl
            | release => rfl
            | _ => cases he
          rw [hx']
          exact ⟨.refl hs.invariant, hs.move (.refl hs.invariant) hk⟩
  · exact ⟨.refl hs.invariant, hs⟩

end Schedule.Settled

end AttestedVault
