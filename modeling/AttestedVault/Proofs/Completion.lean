import AttestedVault.Proofs.Solo
import AttestedVault.Proofs.Turns
import Mathlib.Data.Finset.Card
import Mathlib.Data.Finset.Max

/-!
# Schedules that come to an end

Programs that take one lock at most, once, and give it back cannot keep each
other waiting. Whoever stands first in the queue can go on to its end, and as
many rounds as there are tasks bring all of them there.
-/

namespace AttestedVault

variable {σ α β : Type}

namespace Prog

def Lockless (p : Prog α) : Prop := p.Only fun e => !e.isLocking

/-- Gives the lock back and takes none again. -/
def Returns (lock : Lock) : Prog α → Prop
  | .done _ => False
  | .call e k =>
    match e, k with
    | .acquire .., _ => False
    | .release l, k => l = lock ∧ (k ()).Lockless
    | _, k => ∀ x, (k x).Returns lock

/-- Takes the lock once at most, and gives it back. -/
def Borrows (lock : Lock) (mode : LockMode) : Prog α → Prop
  | .done _ => True
  | .call e k =>
    match e, k with
    | .acquire l m, k => l = lock ∧ m = mode ∧ (k ()).Returns lock
    | .release _, _ => False
    | _, k => ∀ x, (k x).Borrows lock mode

variable {lock : Lock} {mode : LockMode}

theorem lockless_call {e : Effect} {k : e.Answer → Prog α} (h : (call e k).Lockless) :
    e.isLocking = false ∧ ∀ x, (k x).Lockless := ⟨by simpa using h.1, h.2⟩

theorem returns_call {e : Effect} {k : e.Answer → Prog α} (he : e.isLocking = false) :
    (call e k).Returns lock ↔ ∀ x, (k x).Returns lock := by
  cases e with
  | acquire => cases he
  | release => cases he
  | _ => exact .rfl

theorem borrows_call {e : Effect} {k : e.Answer → Prog α} (he : e.isLocking = false) :
    (call e k).Borrows lock mode ↔ ∀ x, (k x).Borrows lock mode := by
  cases e with
  | acquire => cases he
  | release => cases he
  | _ => exact .rfl

theorem Lockless.borrows {p : Prog α} (hp : p.Lockless) : p.Borrows lock mode := by
  induction p with
  | done a => trivial
  | call e k ih =>
    obtain ⟨he, hk⟩ := lockless_call hp
    exact (borrows_call he).mpr fun x => ih x (hk x)

theorem Lockless.bind_returns {p : Prog β} {f : β → Prog α} (hp : p.Lockless)
    (hf : ∀ b, (f b).Returns lock) : (p.bind f).Returns lock := by
  induction p with
  | done b => exact hf b
  | call e k ih =>
    obtain ⟨he, hk⟩ := lockless_call hp
    exact (returns_call he).mpr fun x => ih x (hk x)

/-! ## To the end -/

section
variable {h : Handler σ} {i node : Nat}

abbrev proceed (h : Handler σ) (i node : Nat) (p : Prog α) : StateM (Contended σ) (Prog α) :=
  p.advance h (fun _ => false) i node

theorem proceed_call {e : Effect} {k : e.Answer → Prog α} {c c' : Contended σ} {x : e.Answer}
    (hx : Contended.answer h i node e c = (some x, c')) :
    (call e k).proceed h i node c = (k x).proceed h i node c' := by
  unfold proceed
  rw [advance]
  simp [hx]

theorem Lockless.proceed {p : Prog α} (hp : p.Lockless) (c : Contended σ) :
    ∃ a, (p.proceed h i node c).1 = .done a := by
  induction p generalizing c with
  | done a => exact ⟨a, rfl⟩
  | call e k ih =>
    obtain ⟨he, hk⟩ := lockless_call hp
    rw [proceed_call (Contended.answer_of_not_locking he c)]
    exact ih _ (hk _) _

theorem Returns.proceed {p : Prog α} (hp : p.Returns lock) (c : Contended σ) :
    ∃ a, (p.proceed h i node c).1 = .done a := by
  induction p generalizing c with
  | done a => exact hp.elim
  | call e k ih =>
    cases he : e.isLocking with
    | false =>
      rw [proceed_call (Contended.answer_of_not_locking he c)]
      exact ih _ ((returns_call he).mp hp _) _
    | true =>
      cases e with
      | release l => exact hp.2.proceed _
      | acquire l m => exact hp.elim
      | _ => cases he

theorem Borrows.proceed {p : Prog α} (hp : p.Borrows lock mode) (c : Contended σ)
    (hg : (LockRequest.mk i node lock mode).granted ((LockRequest.mk i node lock mode).join c.queue) = true) :
    ∃ a, (p.proceed h i node c).1 = .done a := by
  induction p generalizing c with
  | done a => exact ⟨a, rfl⟩
  | call e k ih =>
    cases he : e.isLocking with
    | false =>
      rw [proceed_call (Contended.answer_of_not_locking he c)]
      exact ih _ ((borrows_call he).mp hp _) _ hg
    | true =>
      cases e with
      | release l => exact hp.elim
      | acquire l m =>
        obtain ⟨rfl, rfl, hk⟩ := hp
        have ha : Contended.answer h i node (.acquire l m) c =
            (some (), { c with queue := (LockRequest.mk i node l m).join c.queue }) := by
          simp only [Contended.answer, hg, if_true]
          rfl
        rw [proceed_call ha]
        exact hk.proceed _
      | _ => cases he

end

end Prog

theorem Action.borrows_holding {ε : Type} {a : Action ε α} (lock : Lock) (mode : LockMode)
    (ha : a.Only fun e => !e.isLocking) : (holding lock mode a).run.Borrows lock mode :=
  ⟨rfl, rfl, Prog.Lockless.bind_returns (p := a.run) ha fun _ => ⟨rfl, trivial⟩⟩

namespace Schedule

variable {h : Nat → Handler σ} {s : Schedule σ α} {i j : Nat}

/-! ## What a step leaves -/

theorem tasks_step_of_ne (hj : j ≠ i) : (s.step h i).tasks[j]? = s.tasks[j]? := by
  unfold step
  split
  · split
    · exact List.getElem?_set_ne (Ne.symm hj)
    · rfl
  · rfl

theorem length_step : (s.step h i).tasks.length = s.tasks.length := by
  unfold step
  split
  · split
    · exact List.length_set
    · rfl
  · rfl

theorem result?_step {a : α} (ha : s.result? j = some a) : (s.step h i).result? j = some a := by
  by_cases hj : j = i
  · subst hj
    obtain ⟨node, ht⟩ := task_of_result? ha
    unfold step
    rw [ht]
    exact ha
  · unfold result?
    rw [tasks_step_of_ne hj]
    exact ha

abbrev proceed (h : Nat → Handler σ) (i : Nat) (s : Schedule σ α) : Schedule σ α :=
  s.advance h (fun _ => false) i

theorem length_proceed : (s.proceed h i).tasks.length = s.tasks.length :=
  advance_of_step (P := fun t => t.tasks.length = s.tasks.length) (fun _ ht => length_step.trans ht) _ rfl

theorem result?_proceed {a : α} (ha : s.result? j = some a) : (s.proceed h i).result? j = some a :=
  advance_of_step (P := fun t => t.result? j = some a) (fun _ ht => result?_step ht) _ ha

theorem proceed_of_result? {a : α} (ha : s.result? i = some a) : s.proceed h i = s := by
  obtain ⟨node, ht⟩ := task_of_result? ha
  unfold proceed advance
  rw [ht]
  change Schedule.mk s.contended (s.tasks.set i ⟨node, .done a⟩) = s
  rw [set_self ht]

/-! ## Order in the queue -/

/-- Every task takes the lock once at most, and who stands in the queue has it or
is about to take it. -/
structure Orderly (lock : Lock) (mode : LockMode) (s : Schedule σ α) : Prop where
  tasks : ∀ (i : Nat) (t : Task α), s.tasks[i]? = some t → t.prog.Borrows lock mode ∨ t.prog.Returns lock
  queued : ∀ q ∈ s.contended.queue, ∃ p : Prog α, s.tasks[q.task]? = some ⟨q.node, p⟩ ∧
    q = ⟨q.task, q.node, lock, mode⟩ ∧ (p.Returns lock ∨ ∃ k, p = .call (.acquire lock mode) k)

namespace Orderly

variable {lock : Lock} {mode : LockMode}

theorem start (s : σ) : Orderly lock mode (Schedule.start s : Schedule σ α) :=
  ⟨fun _ _ ht => (by cases ht), fun _ hq => (by cases hq)⟩

theorem spawn (hs : Orderly lock mode s) {t : Task α} (ht : t.prog.Borrows lock mode) :
    Orderly lock mode { s with tasks := s.tasks ++ [t] } := by
  refine ⟨fun i u hu => ?_, fun q hq => ?_⟩
  · by_cases hi : i < s.tasks.length
    · exact hs.tasks i u ((List.getElem?_append_left hi).symm.trans hu)
    · have hle := (List.getElem?_eq_some_iff.mp hu).1
      simp only [List.length_append, List.length_singleton] at hle
      obtain rfl : i = s.tasks.length := by omega
      obtain rfl := Option.some.inj (List.getElem?_concat_length.symm.trans hu)
      exact .inl ht
  · obtain ⟨p, hp, h⟩ := hs.queued q hq
    exact ⟨p, (List.getElem?_append_left (List.getElem?_eq_some_iff.mp hp).1).trans hp, h⟩

section
variable {node : Nat} {p p' : Prog α} (hs : Orderly lock mode s) (ht : s.tasks[i]? = some ⟨node, p⟩)
include hs ht

theorem move (hp : p'.Borrows lock mode ∨ p'.Returns lock) {u : σ} {queue : List LockRequest}
    (hq : ∀ q ∈ queue, (q.task ≠ i ∧ q ∈ s.contended.queue) ∨
      q = ⟨i, node, lock, mode⟩ ∧ (p'.Returns lock ∨ ∃ k, p' = .call (.acquire lock mode) k)) :
    Orderly lock mode ⟨⟨u, queue⟩, s.tasks.set i ⟨node, p'⟩⟩ := by
  have hi := (List.getElem?_eq_some_iff.mp ht).1
  refine ⟨fun j t htj => ?_, fun q hmem => ?_⟩
  · by_cases hj : j = i
    · subst hj
      obtain rfl := Option.some.inj ((List.getElem?_set_self hi).symm.trans htj)
      exact hp
    · exact hs.tasks j t ((List.getElem?_set_ne (Ne.symm hj)).symm.trans htj)
  · rcases hq q hmem with ⟨hne, hold⟩ | ⟨rfl, hp'⟩
    · obtain ⟨r, hr, h⟩ := hs.queued q hold
      exact ⟨r, (List.getElem?_set_ne (Ne.symm hne)).trans hr, h⟩
    · exact ⟨p', List.getElem?_set_self hi, rfl, hp'⟩

theorem request {q : LockRequest} (hq : q ∈ s.contended.queue) : (q.task ≠ i ∧ q ∈ s.contended.queue) ∨
    q = ⟨i, node, lock, mode⟩ ∧ (p.Returns lock ∨ ∃ k, p = .call (.acquire lock mode) k) := by
  by_cases hj : q.task = i
  · obtain ⟨r, hr, he, hp⟩ := hs.queued q hq
    rw [hj] at hr he
    obtain ⟨rfl, rfl⟩ := Task.mk.inj (Option.some.inj (hr.symm.trans ht))
    exact .inr ⟨he, hp⟩
  · exact .inl ⟨hj, hq⟩

end

theorem step (hs : Orderly lock mode s) (i : Nat) : Orderly lock mode (s.step h i) := by
  unfold Schedule.step
  split
  · rename_i node e k ht
    have hp := hs.tasks i _ ht
    cases he : e.isLocking with
    | false =>
      rw [Contended.answer_of_not_locking he]
      refine hs.move ht (hp.imp (fun hb => (Prog.borrows_call he).mp hb _) fun hr => (Prog.returns_call he).mp hr _) ?_
      intro q hq
      rcases hs.request ht hq with hold | ⟨rfl, hr | ⟨k', hk'⟩⟩
      · exact .inl hold
      · exact .inr ⟨rfl, .inl ((Prog.returns_call he).mp hr _)⟩
      · cases hk'
        cases he
    | true =>
      cases e with
      | acquire l m =>
        rcases hp with ⟨rfl, rfl, hk⟩ | hr
        · simp only [Contended.answer]
          split
          · rename_i x c hx
            split at hx
            · cases hx
              refine hs.move ht (.inr hk) fun q hq => ?_
              rcases LockRequest.mem_join.mp hq with rfl | hq
              · exact .inr ⟨rfl, .inl hk⟩
              · exact (hs.request ht hq).imp_right fun hr => ⟨hr.1, .inl hk⟩
            · cases hx
          · rename_i c hx
            split at hx
            · cases hx
            · cases hx
              rw [← set_self ht]
              refine hs.move ht (hs.tasks i _ ht) fun q hq => ?_
              rcases LockRequest.mem_join.mp hq with rfl | hq
              · exact .inr ⟨rfl, .inr ⟨k, rfl⟩⟩
              · exact hs.request ht hq
        · exact hr.elim
      | release l =>
        rcases hp with hb | ⟨rfl, hk⟩
        · exact hb.elim
        · refine hs.move ht (.inl hk.borrows) fun q hq => ?_
          obtain ⟨hq, hne⟩ := LockRequest.mem_leave.mp hq
          rcases hs.request ht hq with hold | ⟨rfl, -⟩
          · exact .inl hold
          · exact absurd ⟨rfl, rfl⟩ hne
      | _ => cases he
  · exact hs

theorem proceed (hs : Orderly lock mode s) (i : Nat) : Orderly lock mode (s.proceed h i) :=
  advance_of_step (fun _ ht => ht.step i) _ hs

/-! ## One round -/

/-- It is this task's turn: it stands first in the queue, or nobody stands there
and the tasks before it are done. -/
def Turn (i : Nat) (s : Schedule σ α) : Prop :=
  (∃ q rest, s.contended.queue = q :: rest ∧ q.task = i) ∨
    s.contended.queue = [] ∧ ∀ j < i, ∃ a, s.result? j = some a

theorem result?_of_turn (hs : Orderly lock mode s) (hi : i < s.tasks.length) (ht : Turn i s) :
    ∃ a, (s.proceed h i).result? i = some a := by
  obtain ⟨⟨node, p⟩, htask⟩ : ∃ t, s.tasks[i]? = some t := ⟨_, List.getElem?_eq_getElem hi⟩
  have hend : ∃ a, (p.proceed (h node) i node s.contended).1 = .done a := by
    rcases hs.tasks i _ htask with hb | hr
    · refine hb.proceed _ ?_
      rcases ht with ⟨q, rest, hq, hqi⟩ | ⟨hq, -⟩
      · have hmem : q ∈ s.contended.queue := by simp [hq]
        rcases hs.request htask hmem with ⟨hne, -⟩ | ⟨rfl, -⟩
        · exact absurd hqi hne
        · simp [LockRequest.join, hq, LockRequest.granted]
      · simp [LockRequest.join, hq, LockRequest.granted]
    · exact hr.proceed _
  obtain ⟨a, ha⟩ := hend
  refine ⟨a, ?_⟩
  have hs' : s.proceed h i = ⟨(p.proceed (h node) i node s.contended).2,
      s.tasks.set i ⟨node, (p.proceed (h node) i node s.contended).1⟩⟩ := by
    unfold Schedule.proceed advance
    rw [htask]
    rfl
  rw [hs', ha]
  unfold result?
  rw [List.getElem?_set_self hi]
  rfl

theorem queue_step {q : LockRequest} {rest : List LockRequest} (hq : s.contended.queue = q :: rest)
    (hi : q.task ≠ i) : ∃ more, (s.step h i).contended.queue = q :: more := by
  unfold Schedule.step
  split
  · rename_i node e k ht
    cases he : e.isLocking with
    | false =>
      rw [Contended.answer_of_not_locking he]
      exact ⟨rest, hq⟩
    | true =>
      cases e with
      | acquire l m =>
        have hjoin : ∃ more, (LockRequest.mk i node l m).join s.contended.queue = q :: more := by
          unfold LockRequest.join
          split
          · exact ⟨rest, hq⟩
          · exact ⟨rest ++ [⟨i, node, l, m⟩], by rw [hq]; rfl⟩
        simp only [Contended.answer]
        split
        · rename_i x c hx
          cases congrArg Prod.snd hx
          exact hjoin
        · rename_i c hx
          cases congrArg Prod.snd hx
          exact hjoin
      | release l =>
        refine ⟨LockRequest.leave i l rest, ?_⟩
        change LockRequest.leave i l s.contended.queue = _
        rw [hq]
        exact List.filter_cons_of_pos (by simp [hi])
      | _ => cases he
  · exact ⟨rest, hq⟩

theorem Turn.proceed (ht : Turn i s) (hj : j < i) : Turn i (s.proceed h j) := by
  rcases ht with ⟨q, rest, hq, hqi⟩ | ⟨hq, hdone⟩
  · obtain ⟨more, hmore⟩ : ∃ more, (s.proceed h j).contended.queue = q :: more :=
      advance_of_step (P := fun t => ∃ more, t.contended.queue = q :: more)
        (fun t ⟨_, ht⟩ => queue_step ht (by omega)) _ ⟨rest, hq⟩
    exact .inl ⟨q, more, hmore, hqi⟩
  · obtain ⟨a, ha⟩ := hdone j hj
    rw [proceed_of_result? ha]
    exact .inr ⟨hq, hdone⟩

end Orderly

/-! ## All rounds -/

def unfinished (s : Schedule σ α) : Finset Nat :=
  (Finset.range s.tasks.length).filter fun i => (s.result? i).isNone

theorem mem_unfinished : i ∈ s.unfinished ↔ i < s.tasks.length ∧ s.result? i = none := by
  simp [unfinished]

theorem round_induct {P : Schedule σ α → Prop} (hP : ∀ i s, P s → P (s.proceed h i)) (hs : P s) :
    P (s.round h) :=
  List.foldlRecOn _ _ hs fun t ht i _ => hP i t ht

theorem length_round : (s.round h).tasks.length = s.tasks.length :=
  round_induct (P := fun t => t.tasks.length = s.tasks.length) (fun _ _ ht => length_proceed.trans ht) rfl

theorem result?_round {a : α} (ha : s.result? j = some a) : (s.round h).result? j = some a :=
  round_induct (P := fun t => t.result? j = some a) (fun _ _ ht => result?_proceed ht) ha

theorem unfinished_round_subset : (s.round h).unfinished ⊆ s.unfinished := by
  intro i hi
  obtain ⟨hlen, hr⟩ := mem_unfinished.mp hi
  refine mem_unfinished.mpr ⟨length_round ▸ hlen, ?_⟩
  cases ha : s.result? i with
  | none => rfl
  | some a =>
    rw [result?_round ha] at hr
    cases hr

namespace Orderly

variable {lock : Lock} {mode : LockMode}

theorem round (hs : Orderly lock mode s) : Orderly lock mode (s.round h) :=
  round_induct (fun i _ ht => ht.proceed i) hs

theorem exists_turn (hs : Orderly lock mode s) (hu : s.unfinished.Nonempty) :
    ∃ i ∈ s.unfinished, Turn i s := by
  cases hq : s.contended.queue with
  | nil =>
    refine ⟨s.unfinished.min' hu, Finset.min'_mem _ hu, .inr ⟨hq, fun j hj => ?_⟩⟩
    have hlen := (mem_unfinished.mp (Finset.min'_mem _ hu)).1
    have hnot : j ∉ s.unfinished := fun hmem => absurd (Finset.min'_le _ j hmem) (Nat.not_le.mpr hj)
    cases hr : s.result? j with
    | none => exact absurd (mem_unfinished.mpr ⟨hj.trans hlen, hr⟩) hnot
    | some a => exact ⟨a, rfl⟩
  | cons q rest =>
    obtain ⟨p, hp, -, hend⟩ := hs.queued q (by simp [hq])
    refine ⟨q.task, mem_unfinished.mpr ⟨(List.getElem?_eq_some_iff.mp hp).1, ?_⟩, .inl ⟨q, rest, hq, rfl⟩⟩
    unfold result?
    rw [hp]
    rcases hend with hr | ⟨k, rfl⟩
    · cases p with
      | done a => exact hr.elim
      | call e k => rfl
    · rfl

theorem result?_round_of_turn (hs : Orderly lock mode s) (hi : i < s.tasks.length) (ht : Turn i s) :
    ∃ a, (s.round h).result? i = some a := by
  obtain ⟨n, hn⟩ := Nat.exists_eq_add_of_lt hi
  have hrange : List.range s.tasks.length = List.range i ++ i :: (List.range n).map (fun j => i + (j + 1)) := by
    rw [hn, Nat.add_assoc, List.range_add, List.range_succ_eq_map, List.map_cons, List.map_map]
    rfl
  -- the tasks before it leave it its turn, and the ones after it leave it its result
  obtain ⟨hs', ht', hlen⟩ : Orderly lock mode ((List.range i).foldl (fun s j => s.proceed h j) s) ∧
      Turn i ((List.range i).foldl (fun s j => s.proceed h j) s) ∧
      ((List.range i).foldl (fun s j => s.proceed h j) s).tasks.length = s.tasks.length :=
    List.foldlRecOn (motive := fun t : Schedule σ α => Orderly lock mode t ∧ Turn i t ∧ t.tasks.length = s.tasks.length)
      _ _ ⟨hs, ht, rfl⟩ fun t ⟨hs, ht, hlen⟩ j hj =>
        ⟨hs.proceed j, ht.proceed (List.mem_range.mp hj), length_proceed.trans hlen⟩
  obtain ⟨a, ha⟩ := hs'.result?_of_turn (h := h) (hlen ▸ hi) ht'
  refine ⟨a, ?_⟩
  unfold Schedule.round
  rw [hrange, List.foldl_append, List.foldl_cons]
  exact List.foldlRecOn (motive := fun t : Schedule σ α => t.result? i = some a) _ _ ha fun t ht j _ => result?_proceed ht

theorem card_round (hs : Orderly lock mode s) (hu : s.unfinished.Nonempty) :
    (s.round h).unfinished.card < s.unfinished.card := by
  obtain ⟨i, hi, ht⟩ := hs.exists_turn hu
  obtain ⟨a, ha⟩ := hs.result?_round_of_turn (h := h) (mem_unfinished.mp hi).1 ht
  refine Finset.card_lt_card ⟨unfinished_round_subset, fun hsub => ?_⟩
  have hr := (mem_unfinished.mp (hsub hi)).2
  rw [ha] at hr
  cases hr

theorem foldl_round {γ : Type} (l : List γ) (hs : Orderly lock mode s) (hl : s.unfinished.card ≤ l.length) :
    (l.foldl (fun s _ => s.round h) s).unfinished = ∅ := by
  induction l generalizing s with
  | nil => exact Finset.card_eq_zero.mp (Nat.le_zero.mp hl)
  | cons x l ih =>
    refine ih (s := s.round h) hs.round ?_
    rcases s.unfinished.eq_empty_or_nonempty with he | hne
    · have := Finset.subset_empty.mp (he ▸ unfinished_round_subset (h := h) (s := s))
      simp [this]
    · have := hs.card_round (h := h) hne
      simp only [List.length_cons] at hl
      omega

theorem result?_finish (hs : Orderly lock mode s) (hi : i < s.tasks.length) :
    ∃ a, (s.finish h).result? i = some a := by
  have hcard : s.unfinished.card ≤ s.tasks.length :=
    (Finset.card_filter_le _ _).trans_eq (Finset.card_range _)
  have hend := hs.foldl_round (h := h) s.tasks hcard
  have hlen : (s.finish h).tasks.length = s.tasks.length :=
    List.foldlRecOn (motive := fun t : Schedule σ α => t.tasks.length = s.tasks.length) _ _ rfl
      fun t ht _ _ => length_round.trans ht
  cases hr : (s.finish h).result? i with
  | none => exact absurd (mem_unfinished.mpr ⟨hlen ▸ hi, hr⟩) (hend ▸ Finset.notMem_empty i)
  | some a => exact ⟨a, rfl⟩

end Orderly

end Schedule

end AttestedVault
