import AttestedVault.Host.Schedule

/-!
# Turns

A schedule moves by single effects, and a run of one task is a row of them.
Two requests that are granted at the same time are not in conflict.
-/

namespace AttestedVault

/-! ## Queues -/

namespace LockRequest

theorem conflicts_comm (a b : LockRequest) : a.conflicts b = b.conflicts a := by
  unfold conflicts
  rw [Bool.beq_comm (a := a.node), Bool.beq_comm (a := a.lock), Bool.and_comm (a.mode == .shared)]

theorem granted_append {r : LockRequest} (more : List LockRequest) : ∀ {queue},
    r.granted queue = true → r.granted (queue ++ more) = true
  | [], h => by cases h
  | q :: queue, h => by
    rw [granted, Bool.or_eq_true, Bool.and_eq_true] at h
    rw [List.cons_append, granted, Bool.or_eq_true, Bool.and_eq_true]
    rcases h with h | ⟨hc, h⟩
    · exact .inl h
    · exact .inr ⟨hc, granted_append more h⟩

theorem granted_filter {r : LockRequest} {p : LockRequest → Bool} (hp : p r = true) : ∀ {queue},
    r.granted queue = true → r.granted (queue.filter p) = true
  | [], h => by cases h
  | q :: queue, h => by
    rw [granted, Bool.or_eq_true, Bool.and_eq_true] at h
    rcases h with h | ⟨hc, h⟩
    · obtain rfl := of_decide_eq_true h
      rw [List.filter_cons_of_pos hp, granted, decide_eq_true rfl, Bool.true_or]
    · have ih := granted_filter hp h
      by_cases hq : p q = true
      · rw [List.filter_cons_of_pos hq, granted, hc, ih, Bool.and_true, Bool.or_true]
      · rw [List.filter_cons_of_neg hq]
        exact ih

theorem granted_join {r q : LockRequest} {queue : List LockRequest} (h : r.granted queue = true) :
    r.granted (q.join queue) = true := by
  unfold join
  split
  · exact h
  · exact granted_append _ h

theorem mem_join {r q : LockRequest} {queue : List LockRequest} :
    r ∈ q.join queue ↔ r = q ∨ r ∈ queue := by
  unfold join
  split
  · refine ⟨.inr, fun h => ?_⟩
    rcases h with rfl | h
    · assumption
    · exact h
  · rw [List.mem_append, List.mem_singleton, or_comm]

theorem mem_leave {r : LockRequest} {task : Nat} {lock : Lock} {queue : List LockRequest} :
    r ∈ leave task lock queue ↔ r ∈ queue ∧ ¬ (r.task = task ∧ r.lock = lock) := by
  rw [leave, List.mem_filter, Bool.not_eq_true', ← Bool.not_eq_true, Bool.and_eq_true, beq_iff_eq, beq_iff_eq]

theorem granted_leave {r : LockRequest} {task : Nat} {lock : Lock} {queue : List LockRequest}
    (hr : ¬ (r.task = task ∧ r.lock = lock)) (h : r.granted queue = true) :
    r.granted (leave task lock queue) = true := by
  refine granted_filter ?_ h
  rwa [Bool.not_eq_true', ← Bool.not_eq_true, Bool.and_eq_true, beq_iff_eq, beq_iff_eq]

theorem not_conflicts_of_granted {r r' : LockRequest} (hne : r ≠ r') : ∀ {queue},
    r.granted queue = true → r'.granted queue = true → r.conflicts r' = false
  | [], h, _ => by cases h
  | q :: queue, h, h' => by
    rw [granted, Bool.or_eq_true, Bool.and_eq_true] at h h'
    rcases h with h | ⟨hc, h⟩
    · obtain rfl := of_decide_eq_true h
      rcases h' with h' | ⟨hc', -⟩
      · exact absurd (of_decide_eq_true h') hne
      · rw [conflicts_comm]
        simpa using hc'
    · rcases h' with h' | ⟨-, h'⟩
      · obtain rfl := of_decide_eq_true h'
        simpa using hc
      · exact not_conflicts_of_granted hne h h'

theorem mode_of_granted {r r' : LockRequest} {queue : List LockRequest} (h : r.granted queue = true)
    (h' : r'.granted queue = true) (ht : r.task ≠ r'.task) (hn : r.node = r'.node)
    (hl : r.lock = r'.lock) : r.mode ≠ .exclusive := by
  intro hm
  have hc := not_conflicts_of_granted (fun he => ht (congrArg task he)) h h'
  simp [conflicts, hn, hl, hm] at hc

end LockRequest

/-! ## Effects -/

def Effect.isLocking : Effect → Bool
  | .acquire .. | .release _ => true
  | _ => false

namespace Contended

theorem answer_of_not_locking {σ : Type} {h : Handler σ} {task node : Nat} {e : Effect}
    (he : e.isLocking = false) (c : Contended σ) :
    answer h task node e c = (some (h e c.state).1, { c with state := (h e c.state).2 }) := by
  cases e <;> first | rfl | cases he

theorem state_of_locking {σ : Type} {h : Handler σ} {i n : Nat} {e : Effect} (he : e.isLocking = true)
    (c : Contended σ) : (answer h i n e c).2.state = c.state := by
  cases e <;> first | rfl | cases he

end Contended

namespace Schedule

variable {σ α : Type}

/-- One effect of a task, unless it has to wait. -/
def step (h : Nat → Handler σ) (i : Nat) (s : Schedule σ α) : Schedule σ α :=
  match s.tasks[i]? with
  | some ⟨node, .call e k⟩ =>
    match Contended.answer (h node) i node e s.contended with
    | (some a, c) => ⟨c, s.tasks.set i ⟨node, k a⟩⟩
    | (none, c) => ⟨c, s.tasks⟩
  | _ => s

theorem set_self {l : List α} {i : Nat} {a : α} (h : l[i]? = some a) : l.set i a = l := by
  obtain ⟨hi, rfl⟩ := List.getElem?_eq_some_iff.mp h
  exact List.set_getElem_self hi

theorem task_of_result? {s : Schedule σ α} {i : Nat} {a : α} (h : s.result? i = some a) :
    ∃ node, s.tasks[i]? = some ⟨node, .done a⟩ := by
  obtain ⟨⟨node, p⟩, ht, hp⟩ := Option.bind_eq_some_iff.mp h
  cases p with
  | done a =>
    cases hp
    exact ⟨node, ht⟩
  | call e k => cases hp

theorem advance_of_step {h : Nat → Handler σ} {i : Nat} {P : Schedule σ α → Prop}
    (hP : ∀ s, P s → P (s.step h i)) (stop : Effect → Bool) {s : Schedule σ α} (hs : P s) :
    P (s.advance h stop i) := by
  have hrun : ∀ (node : Nat) (p : Prog α) (s : Schedule σ α), s.tasks[i]? = some ⟨node, p⟩ → P s →
      P ⟨(p.advance (h node) stop i node s.contended).2,
        s.tasks.set i ⟨node, (p.advance (h node) stop i node s.contended).1⟩⟩ := by
    intro node p
    induction p with
    | done a =>
      intro s ht hs
      change P ⟨s.contended, s.tasks.set i ⟨node, .done a⟩⟩
      rw [set_self ht]
      exact hs
    | call e k ih =>
      intro s ht hs
      unfold Prog.advance
      by_cases he : stop e = true
      · rw [he]
        change P ⟨s.contended, s.tasks.set i ⟨node, .call e k⟩⟩
        rw [set_self ht]
        exact hs
      · rw [eq_false_of_ne_true he]
        have hstep := hP s hs
        unfold step at hstep
        rw [ht] at hstep
        simp only at hstep
        cases ha : Contended.answer (h node) i node e s.contended with
        | mk a c =>
          rw [ha] at hstep
          have hi := (List.getElem?_eq_some_iff.mp ht).1
          cases a with
          | none =>
            change P ⟨c, s.tasks.set i ⟨node, .call e k⟩⟩
            rw [set_self ht]
            exact hstep
          | some a =>
            have := ih a ⟨c, s.tasks.set i ⟨node, k a⟩⟩ (List.getElem?_set_self hi) hstep
            rw [List.set_set] at this
            exact this
  unfold advance
  cases ht : s.tasks[i]? with
  | none => exact hs
  | some t => exact hrun t.node t.prog s ht hs

end Schedule

end AttestedVault
