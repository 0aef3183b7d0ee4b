import AttestedVault.Proofs.Interference

/-!
# Schedules of safe programs

Every program of a schedule is safe where it stands, given the locks that it
has. One effect of one task preserves this, and so does every other move.
-/

namespace AttestedVault

variable {σ α : Type}

/-- The programs of a schedule and the locks that each of them has. -/
structure Supervised (R : Rules σ) (ρ : Nat → Role σ) (post : Nat → α → Held → σ → Prop) (held : Nat → Held)
    (s : Schedule σ α) : Prop where
  invariant : R.invariant s.contended.state
  safe : ∀ i (t : Task α), s.tasks[i]? = some t → t.prog.Safe R (ρ i) t.node (post i) (held i) s.contended.state
  granted : ∀ i (t : Task α) l m, s.tasks[i]? = some t → held i l = some m →
    (LockRequest.mk i t.node l m).granted s.contended.queue = true
  /-- Who stands in a queue has the lock or comes to asking for it. -/
  queued : ∀ q ∈ s.contended.queue, ∃ t : Task α, s.tasks[q.task]? = some t ∧ t.node = q.node ∧
    (held q.task q.lock = some q.mode ∨
      held q.task q.lock = none ∧ ∃ k, t.prog = .call (.acquire q.lock q.mode) k)
  kept : ∀ n l, (∀ i (t : Task α), s.tasks[i]? = some t → t.node = n → held i l ≠ some .exclusive) →
    R.kept n l s.contended.state

namespace Supervised

def update (held : Nat → Held) (i : Nat) (H : Held) : Nat → Held := fun j => if j = i then H else held j

theorem update_same (held : Nat → Held) (i : Nat) (H : Held) : update held i H i = H := if_pos rfl

theorem update_of_ne (held : Nat → Held) {i j : Nat} (H : Held) (h : j ≠ i) : update held i H j = held j :=
  if_neg h

theorem getElem?_set {l : List α} {i : Nat} {a : α} (h : l[i]? = some a) (b : α) (j : Nat) :
    (l.set i b)[j]? = if j = i then some b else l[j]? := by
  have hi := (List.getElem?_eq_some_iff.mp h).1
  by_cases hj : j = i
  · rw [hj, if_pos rfl, List.getElem?_set_self hi]
  · rw [if_neg hj, List.getElem?_set_ne (Ne.symm hj)]

variable {R : Rules σ} {ρ : Nat → Role σ} {post : Nat → α → Held → σ → Prop} {held : Nat → Held} {s : Schedule σ α}

theorem exclusive (hs : Supervised R ρ post held s) {i j : Nat} {t u : Task α} (hij : i ≠ j)
    (ht : s.tasks[i]? = some t) (hu : s.tasks[j]? = some u) (hn : t.node = u.node) {l : Lock}
    (hl : held i l = some .exclusive) : held j l = none := by
  cases hm : held j l with
  | none => rfl
  | some m =>
    exact absurd rfl (LockRequest.mode_of_granted (hs.granted i t l _ ht hl) (hs.granted j u l m hu hm) hij hn rfl)

theorem start {s : σ} (h : R.invariant s) (hk : ∀ n l, R.kept n l s) :
    Supervised R ρ post (fun _ => .free) (Schedule.start s : Schedule σ α) where
  invariant := h
  safe i t ht := by cases ht
  granted i t l m ht := by cases ht
  queued q hq := by cases hq
  kept n l _ := hk n l

theorem weaken (hs : Supervised R ρ post held s) {post' : Nat → α → Held → σ → Prop}
    (h : ∀ i a H t, post i a H t → post' i a H t) : Supervised R ρ post' held s :=
  ⟨hs.invariant, fun i t ht => (hs.safe i t ht).weaken (h i), hs.granted, hs.queued, hs.kept⟩

theorem spawn (hs : Supervised R ρ post held s) {ρ' : Nat → Role σ} {t : Task α}
    (hρ : ∀ i, i < s.tasks.length → ρ' i = ρ i)
    (ht : t.prog.Safe R (ρ' s.tasks.length) t.node (post s.tasks.length) .free s.contended.state) :
    Supervised R ρ' post (update held s.tasks.length .free) { s with tasks := s.tasks ++ [t] } := by
  have hold : ∀ {i u}, (s.tasks ++ [t])[i]? = some u →
      (i = s.tasks.length ∧ u = t) ∨ (i ≠ s.tasks.length ∧ s.tasks[i]? = some u) := by
    intro i u hu
    by_cases hi : i < s.tasks.length
    · rw [List.getElem?_append_left hi] at hu
      exact .inr ⟨Nat.ne_of_lt hi, hu⟩
    · have hle := (List.getElem?_eq_some_iff.mp hu).1
      rw [List.length_append, List.length_singleton] at hle
      obtain rfl : i = s.tasks.length := by omega
      rw [List.getElem?_concat_length] at hu
      exact .inl ⟨rfl, (Option.some.inj hu).symm⟩
  refine ⟨hs.invariant, ?_, ?_, ?_, ?_⟩
  · intro i u hu
    rcases hold hu with ⟨rfl, rfl⟩ | ⟨hi, hu⟩
    · rw [update_same]
      exact ht
    · rw [update_of_ne _ _ hi, hρ i (List.getElem?_eq_some_iff.mp hu).1]
      exact hs.safe i u hu
  · intro i u l m hu hm
    rcases hold hu with ⟨rfl, rfl⟩ | ⟨hi, hu⟩
    · rw [update_same] at hm
      cases hm
    · rw [update_of_ne _ _ hi] at hm
      exact hs.granted i u l m hu hm
  · intro q hq
    obtain ⟨u, hu, hn, hl⟩ := hs.queued q hq
    have hi := (List.getElem?_eq_some_iff.mp hu).1
    refine ⟨u, ?_, hn, ?_⟩
    · change (s.tasks ++ [t])[q.task]? = some u
      rw [List.getElem?_append_left hi]
      exact hu
    · rw [update_of_ne _ _ (Nat.ne_of_lt hi)]
      exact hl
  · intro n l hx
    refine hs.kept n l fun i u hu hn => ?_
    have hi := (List.getElem?_eq_some_iff.mp hu).1
    have := hx i u ((List.getElem?_append_left hi).trans hu) hn
    rwa [update_of_ne _ _ (Nat.ne_of_lt hi)] at this

section
variable {i node : Nat} {p : Prog α} (hs : Supervised R ρ post held s) (ht : s.tasks[i]? = some ⟨node, p⟩)
include hs ht

theorem move {p' : Prog α} {H : Held} {u : σ} {queue : List LockRequest} (hu : R.invariant u)
    (hp : p'.Safe R (ρ i) node (post i) H u)
    (hothers : ∀ j t, j ≠ i → s.tasks[j]? = some t → R.Relies t.node (held j) s.contended.state u)
    (hgranted : ∀ l m, H l = some m → (LockRequest.mk i node l m).granted queue = true)
    (hkeep : ∀ r : LockRequest, r.task ≠ i → r.granted s.contended.queue = true → r.granted queue = true)
    (hqueue : ∀ q ∈ queue, q.task ≠ i ∧ q ∈ s.contended.queue ∨ q.task = i ∧ q.node = node ∧
      (H q.lock = some q.mode ∨ H q.lock = none ∧ ∃ k, p' = .call (.acquire q.lock q.mode) k))
    (hkept : ∀ n l, (node = n → H l ≠ some .exclusive) →
      (∀ j t, j ≠ i → s.tasks[j]? = some t → t.node = n → held j l ≠ some .exclusive) → R.kept n l u) :
    Supervised R ρ post (update held i H) ⟨⟨u, queue⟩, s.tasks.set i ⟨node, p'⟩⟩ := by
  have hi : (s.tasks.set i ⟨node, p'⟩)[i]? = some ⟨node, p'⟩ := (getElem?_set ht ..).trans (if_pos rfl)
  have hj : ∀ {j}, j ≠ i → (s.tasks.set i ⟨node, p'⟩)[j]? = s.tasks[j]? := fun hj =>
    (getElem?_set ht ..).trans (if_neg hj)
  -- each part for the task that moved, then for the others
  refine ⟨hu, ?_, ?_, ?_, ?_⟩
  · intro j t htj
    by_cases he : j = i
    · subst he
      cases hi.symm.trans htj
      rw [update_same]
      exact hp
    · rw [update_of_ne _ _ he]
      have htj := (hj he).symm.trans htj
      exact (hs.safe j t htj).relies (hothers j t he htj)
  · intro j t l m htj hm
    by_cases he : j = i
    · subst he
      cases hi.symm.trans htj
      rw [update_same] at hm
      exact hgranted l m hm
    · rw [update_of_ne _ _ he] at hm
      exact hkeep _ he (hs.granted j t l m ((hj he).symm.trans htj) hm)
  · intro q hq
    rcases hqueue q hq with ⟨he, hq⟩ | ⟨he, hn, hl⟩
    · obtain ⟨t, htq, h⟩ := hs.queued q hq
      rw [update_of_ne _ _ he]
      exact ⟨t, (hj he).trans htq, h⟩
    · rw [he, update_same]
      exact ⟨_, hi, hn.symm, hl⟩
  · intro n l hx
    refine hkept n l (fun hn => ?_) fun j t he htj hn => ?_
    · have := hx i _ hi hn
      rwa [update_same] at this
    · have := hx j t ((hj he).trans htj) hn
      rwa [update_of_ne _ _ he] at this

theorem queued_or {q : LockRequest} (hq : q ∈ s.contended.queue) : q.task ≠ i ∧ q ∈ s.contended.queue ∨
    q.task = i ∧ q.node = node ∧
      (held i q.lock = some q.mode ∨ held i q.lock = none ∧ ∃ k, p = .call (.acquire q.lock q.mode) k) := by
  by_cases hj : q.task = i
  · obtain ⟨t, htq, hn, hl⟩ := hs.queued q hq
    rw [hj] at htq hl
    cases htq.symm.trans ht
    exact .inr ⟨hj, hn.symm, hl⟩
  · exact .inl ⟨hj, hq⟩

theorem kept_of_others {n : Nat} {l : Lock} (hmine : node = n → held i l ≠ some .exclusive)
    (hothers : ∀ j t, j ≠ i → s.tasks[j]? = some t → t.node = n → held j l ≠ some .exclusive) :
    R.kept n l s.contended.state := by
  refine hs.kept n l fun j t htj hn => ?_
  by_cases hj : j = i
  · subst hj
    cases htj.symm.trans ht
    exact hmine hn
  · exact hothers j t hj htj hn

omit ht in
theorem others (j : Nat) (t : Task α) (_ : j ≠ i) (_ : s.tasks[j]? = some t) :
    R.Relies t.node (held j) s.contended.state s.contended.state := .refl hs.invariant

theorem effect {e : Effect} {k : e.Answer → Prog α} (hk : p = .call e k) (he : e.isLocking = false)
    (hpr : (ρ i).promise e s.contended.state) :
    Supervised R ρ post (update held i (held i))
      ⟨{ s.contended with state := (R.perform node e s.contended.state).2 },
        s.tasks.set i ⟨node, k (R.perform node e s.contended.state).1⟩⟩ := by
  subst hk
  obtain ⟨-, hg, hk⟩ := (Prog.safe_call he).mp (hs.safe i _ ht) _ (.refl hs.invariant) hpr
  refine hs.move ht hg.1 hk ?_ (hs.granted i _ · · ht) (fun _ _ h => h) ?_ ?_
  · -- the other tasks have what they rely on
    intro j t hj htj
    refine ⟨hg.1, fun l hl => hg.2 t.node l fun hn hx => hl ?_⟩
    exact hs.exclusive (Ne.symm hj) ht htj hn.symm hx
  · intro q hq
    rcases hs.queued_or ht hq with h | ⟨hj, hn, hl | ⟨-, k', hk'⟩⟩
    · exact .inl h
    · exact .inr ⟨hj, hn, .inl hl⟩
    · cases hk'
      cases he
  · exact fun n l hx hxs => R.keeps (hg.2 n l fun hn => hx hn.symm) (hs.kept_of_others ht hx hxs)

theorem acquire {lock : Lock} {mode : LockMode} {k : Unit → Prog α} (hk : p = .call (.acquire lock mode) k)
    (hg : (LockRequest.mk i node lock mode).granted ((LockRequest.mk i node lock mode).join s.contended.queue) = true) :
    Supervised R ρ post (update held i ((held i).set lock (some mode)))
      ⟨⟨s.contended.state, (LockRequest.mk i node lock mode).join s.contended.queue⟩,
        s.tasks.set i ⟨node, k ()⟩⟩ := by
  subst hk
  obtain ⟨hl, hk⟩ := hs.safe i _ ht _ (.refl hs.invariant)
  have hfree : R.kept node lock s.contended.state := by
    refine hs.kept node lock fun j t htj hn hx => ?_
    by_cases hj : j = i
    · rw [hj, hl] at hx
      cases hx
    · exact LockRequest.mode_of_granted (LockRequest.granted_join (hs.granted j t lock _ htj hx)) hg hj hn rfl rfl
  refine hs.move ht hs.invariant (hk hfree) (hs.others) ?_ (fun _ _ h => LockRequest.granted_join h) ?_ ?_
  · intro l m hm
    by_cases he : l = lock
    · subst he
      rw [Held.set_same] at hm
      cases hm
      exact hg
    · rw [Held.set_of_ne _ _ he] at hm
      exact LockRequest.granted_join (hs.granted i _ l m ht hm)
  · intro q hq
    rcases LockRequest.mem_join.mp hq with rfl | hq
    · exact .inr ⟨rfl, rfl, .inl (Held.set_same ..)⟩
    · rcases hs.queued_or ht hq with h | ⟨hj, hn, hq' | ⟨-, k', hk'⟩⟩
      · exact .inl h
      · refine .inr ⟨hj, hn, .inl ?_⟩
        rw [Held.set_of_ne]
        · exact hq'
        · intro he
          rw [he, hl] at hq'
          cases hq'
      · cases hk'
        exact .inr ⟨hj, hn, .inl (Held.set_same ..)⟩
  · refine fun n l hx hxs => hs.kept_of_others ht (fun hn => ?_) hxs
    by_cases he : l = lock
    · rw [he, hl]
      exact nofun
    · have := hx hn
      rwa [Held.set_of_ne _ _ he] at this

theorem wait {lock : Lock} {mode : LockMode} {k : Unit → Prog α} (hk : p = .call (.acquire lock mode) k) :
    Supervised R ρ post (update held i (held i))
      ⟨⟨s.contended.state, (LockRequest.mk i node lock mode).join s.contended.queue⟩, s.tasks⟩ := by
  subst hk
  have hl := (hs.safe i _ ht _ (.refl hs.invariant)).1
  rw [← Schedule.set_self ht]
  refine hs.move ht hs.invariant (hs.safe i _ ht) (hs.others) ?_ (fun _ _ h => LockRequest.granted_join h) ?_ ?_
  · intro l m hm
    exact LockRequest.granted_join (hs.granted i _ l m ht hm)
  · intro q hq
    rcases LockRequest.mem_join.mp hq with rfl | hq
    · exact .inr ⟨rfl, rfl, .inr ⟨hl, k, rfl⟩⟩
    · exact hs.queued_or ht hq
  · exact fun n l hx hxs => hs.kept_of_others ht hx hxs

theorem leave {lock : Lock} {p' : Prog α} (hp : ∀ l m k, p ≠ .call (.acquire l m) k)
    (hx : held i lock = some .exclusive → R.kept node lock s.contended.state)
    (hp' : p'.Safe R (ρ i) node (post i) ((held i).set lock none) s.contended.state) :
    Supervised R ρ post (update held i ((held i).set lock none))
      ⟨⟨s.contended.state, LockRequest.leave i lock s.contended.queue⟩, s.tasks.set i ⟨node, p'⟩⟩ := by
  refine hs.move ht hs.invariant hp' (hs.others) ?_ ?_ ?_ ?_
  · intro l m hm
    by_cases he : l = lock
    · rw [he, Held.set_same] at hm
      cases hm
    · rw [Held.set_of_ne _ _ he] at hm
      exact LockRequest.granted_leave (fun h => he h.2) (hs.granted i _ l m ht hm)
  · exact fun r hr h => LockRequest.granted_leave (fun h => hr h.1) h
  · intro q hq
    obtain ⟨hq, hne⟩ := LockRequest.mem_leave.mp hq
    rcases hs.queued_or ht hq with h | ⟨hj, hn, hq' | ⟨-, k', hk'⟩⟩
    · exact .inl h
    · refine .inr ⟨hj, hn, .inl ?_⟩
      rw [Held.set_of_ne]
      · exact hq'
      · exact fun he => hne ⟨hj, he⟩
    · exact absurd hk' (hp _ _ _)
  · intro n l hxi hxs
    by_cases hmine : node = n ∧ l = lock ∧ held i lock = some .exclusive
    · obtain ⟨rfl, rfl, hm⟩ := hmine
      exact hx hm
    · refine hs.kept_of_others ht (fun hn => ?_) hxs
      by_cases he : l = lock
      · subst he
        exact fun hm => hmine ⟨hn, rfl, hm⟩
      · have := hxi hn
        rwa [Held.set_of_ne _ _ he] at this

end

theorem step (hs : Supervised R ρ post held s) (i : Nat)
    (hp : ∀ node e k, s.tasks[i]? = some ⟨node, .call e k⟩ → (ρ i).promise e s.contended.state) :
    ∃ held', Supervised R ρ post held' (s.step R.perform i) := by
  unfold Schedule.step
  split
  · rename_i node e k ht
    cases he : e.isLocking with
    | false =>
      rw [Contended.answer_of_not_locking he]
      exact ⟨_, hs.effect ht rfl he (hp _ _ _ ht)⟩
    | true =>
      cases e with
      | acquire lock mode =>
        let r : LockRequest := ⟨i, node, lock, mode⟩
        by_cases hg : r.granted (r.join s.contended.queue) = true
        · have ha : Contended.answer (R.perform node) i node (.acquire lock mode) s.contended =
              (some (), { s.contended with queue := r.join s.contended.queue }) := by
            change (if r.granted (r.join s.contended.queue) = true then some () else none, _) = _
            rw [if_pos hg]
          rw [ha]
          exact ⟨_, hs.acquire ht rfl hg⟩
        · have ha : Contended.answer (R.perform node) i node (.acquire lock mode) s.contended =
              (none, { s.contended with queue := r.join s.contended.queue }) := by
            change (if r.granted (r.join s.contended.queue) = true then some () else none, _) = _
            rw [if_neg hg]
            rfl
          rw [ha]
          exact ⟨_, hs.wait ht rfl⟩
      | release lock =>
        obtain ⟨hx, hk⟩ := hs.safe i _ ht _ (.refl hs.invariant)
        exact ⟨_, hs.leave ht nofun hx hk⟩
      | _ => cases he
  · exact ⟨held, hs⟩

theorem release (hs : Supervised R ρ post held s) {i node : Nat} {a : α} {lock : Lock}
    (ht : s.tasks[i]? = some ⟨node, .done a⟩)
    (hx : held i lock = some .exclusive → R.kept node lock s.contended.state)
    (hp : ∀ t, R.Relies node ((held i).set lock none) s.contended.state t →
      post i a ((held i).set lock none) t) :
    ∃ held', Supervised R ρ post held' (s.release i lock) := by
  have h : Supervised R ρ post (update held i ((held i).set lock none))
      ⟨⟨s.contended.state, LockRequest.leave i lock s.contended.queue⟩, s.tasks.set i ⟨node, .done a⟩⟩ :=
    hs.leave ht nofun hx hp
  rw [Schedule.set_self ht] at h
  exact ⟨_, h⟩

end Supervised

end AttestedVault
