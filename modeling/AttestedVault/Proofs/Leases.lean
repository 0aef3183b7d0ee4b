import AttestedVault.Proofs.Conduct
import AttestedVault.Proofs.Supervision

/-!
# Leases

A manager at work on any number of tasks. Nobody encrypts under a key that is
being retired: whoever has leased a key has the one that the store holds.
-/

namespace AttestedVault

namespace Schedule

variable {σ α : Type}

def next? (s : Schedule σ α) (i : Nat) : Option Effect :=
  (s.tasks[i]?).bind fun t =>
    match t.prog with
    | .done _ => none
    | .call e _ => some e

def Has (s : Schedule σ α) (i : Nat) (lock : Lock) (mode : LockMode) : Prop :=
  (LockRequest.mk i 0 lock mode).granted s.contended.queue = true

theorem task_of_next? {s : Schedule σ α} {i : Nat} {e : Effect} (h : s.next? i = some e) :
    ∃ node k, s.tasks[i]? = some ⟨node, .call e k⟩ := by
  obtain ⟨⟨node, p⟩, ht, hp⟩ := Option.bind_eq_some_iff.mp h
  cases p with
  | done a => cases hp
  | call e' k =>
    cases hp
    exact ⟨node, k, ht⟩

theorem next?_of_task {s : Schedule σ α} {i node : Nat} {e : Effect} {k : e.Answer → Prog α}
    (h : s.tasks[i]? = some ⟨node, .call e k⟩) : s.next? i = some e := by
  rw [next?, h]
  rfl

theorem nodes_step (h : Nat → Handler σ) (i : Nat) (s : Schedule σ α) :
    (s.step h i).tasks.map (·.node) = s.tasks.map (·.node) := by
  unfold step
  split
  · rename_i node e k ht
    split
    · rw [List.map_set]
      exact set_self (by rw [List.getElem?_map, ht]; rfl)
    · rfl
  · rfl

end Schedule

/-- What a manager comes to with this work, and which tasks have given their
leases back. The tasks move in any order, by single effects. -/
inductive Reachable (K : KeyRing) : List Work → List Nat → Schedule Host (Option Dek) → Prop
  | start {h : Host} (sound : h.shared.store.Sound) (empty : h.node.cache = none)
      (within : h.node.attestor.Within K) : Reachable K [] [] (.start h)
  | spawn {ws : List Work} {back : List Nat} {s : Schedule Host (Option Dek)} (w : Work)
      (before : Reachable K ws back s) :
      Reachable K (ws ++ [w]) back { s with tasks := s.tasks ++ [⟨0, w.prog⟩] }
  | step {ws : List Work} {back : List Nat} {s : Schedule Host (Option Dek)} (i : Nat)
      (before : Reachable K ws back s)
      (admits : ∀ w e, ws[i]? = some w → s.next? i = some e → w.Admits K e s.contended.state) :
      Reachable K ws back (s.step (fun _ => Host.perform) i)
  | drop {ws : List Work} {back : List Nat} {s : Schedule Host (Option Dek)} {i : Nat} {d : Dek}
      (before : Reachable K ws back s) (leased : s.result? i = some (some d)) (once : i ∉ back) :
      Reachable K ws (i :: back) (s.release i .gate)

namespace Reachable

variable {K : KeyRing} {ws : List Work} {back : List Nat} {s : Schedule Host (Option Dek)}

def roles (K : KeyRing) (ws : List Work) (i : Nat) : Role Host := ((ws[i]?).getD .clearCache).role K

theorem roles_of_getElem? {i : Nat} {w : Work} (h : ws[i]? = some w) : roles K ws i = w.role K := by
  rw [roles, h]
  rfl

theorem nodes (h : Reachable K ws back s) : s.tasks.map (·.node) = List.replicate ws.length 0 := by
  induction h with
  | start => rfl
  | spawn w _ ih =>
    rw [List.map_append, ih, List.length_append, List.length_singleton, List.replicate_succ']
    rfl
  | step i _ _ ih => rw [Schedule.nodes_step, ih]
  | drop _ _ _ ih => exact ih

theorem length_tasks (h : Reachable K ws back s) : s.tasks.length = ws.length := by
  have := congrArg List.length h.nodes
  rwa [List.length_map, List.length_replicate] at this

theorem node_eq_zero (h : Reachable K ws back s) {i : Nat} {t : Task (Option Dek)} (ht : s.tasks[i]? = some t) :
    t.node = 0 := by
  refine (List.mem_replicate.mp (?_ : t.node ∈ List.replicate ws.length 0)).2
  rw [← h.nodes]
  exact List.mem_map_of_mem (List.mem_of_getElem? ht)

def Ends (K : KeyRing) (back : List Nat) (i : Nat) (x : Option Dek) (H : Held) (h : Host) : Prop :=
  i ∉ back → Work.Leased K x H h

theorem supervised (h : Reachable K ws back s) :
    ∃ held, Supervised (Host.rules K) (roles K ws) (Ends K back) held s := by
  induction h with
  | start sound empty within =>
    refine ⟨_, .start ⟨sound, within⟩ fun n l => ?_⟩
    cases n with
    | zero =>
      cases l with
      | gate =>
        intro d hd
        rw [empty] at hd
        cases hd
      | lifecycle => trivial
    | succ n => trivial
  | @spawn ws back s w before ih =>
    obtain ⟨held, hs⟩ := ih
    have hl := before.length_tasks
    refine ⟨_, hs.spawn (fun i hi => ?_) ?_⟩
    · rw [roles, roles, List.getElem?_append_left (hl ▸ hi)]
    · rw [roles_of_getElem? (w := w) (by rw [hl, List.getElem?_concat_length])]
      exact (w.prog_safe _).weaken fun _ _ _ hx _ => hx
  | @step ws back s i before admits ih =>
    obtain ⟨held, hs⟩ := ih
    refine hs.step i fun node e k ht => ?_
    have hi : i < ws.length := before.length_tasks ▸ (List.getElem?_eq_some_iff.mp ht).1
    rw [roles_of_getElem? (List.getElem?_eq_getElem hi)]
    exact admits _ e (List.getElem?_eq_getElem hi) (Schedule.next?_of_task ht)
  | @drop ws back s i d before leased once ih =>
    obtain ⟨held, hs⟩ := ih
    obtain ⟨node, ht⟩ := Schedule.task_of_result? leased
    have hg := (hs.safe i _ ht _ (.refl hs.invariant) once d rfl).1
    have hs' : Supervised (Host.rules K) (roles K ws) (Ends K (i :: back)) held s :=
      hs.weaken fun j x H t hx hj => hx fun hb => hj (.tail i hb)
    refine hs'.release ht (fun hx => ?_) fun t _ hi => absurd (.head back) hi
    rw [hg] at hx
    cases hx

theorem advance (h : Reachable K ws back s) (hw : ∀ w ∈ ws, w.oldKey? = none) (stop : Effect → Bool) (i : Nat) :
    Reachable K ws back (s.advance (fun _ => Host.perform) stop i) := by
  refine Schedule.advance_of_step (fun s hs => hs.step i fun w e he _ => ?_) stop h
  exact Work.admits_of_oldKey? (hw w (List.mem_of_getElem? he)) e _

def Leases (back : List Nat) (s : Schedule Host (Option Dek)) (i : Nat) (d : Dek) : Prop :=
  s.result? i = some (some d) ∧ i ∉ back

/-- Whatever the order of the steps: a leased key is the one that the active
record unwraps to, no rotation is about to store its record meanwhile, and what
is cached is the key in force unless somebody has the gate alone. -/
theorem leases_in_force (h : Reachable K ws back s) :
    (∀ i d, Leases back s i d → s.contended.state.shared.store.Holds K d) ∧
    (∀ i w previous r, ws[i]? = some w → w.Rotates → s.next? i = some (.replace previous r) →
      ∀ j d, ¬ Leases back s j d) ∧
    ((∀ i, ¬ s.Has i .gate .exclusive) → s.contended.state.Coherent K) := by
  obtain ⟨held, hs⟩ := h.supervised
  have hlease : ∀ {i d}, Leases back s i d →
      s.Has i .gate .shared ∧ s.contended.state.shared.store.Holds K d := by
    intro i d hl
    obtain ⟨node, ht⟩ := Schedule.task_of_result? hl.1
    obtain ⟨hg, hd⟩ := hs.safe i _ ht _ (.refl hs.invariant) hl.2 d rfl
    have hz : node = 0 := h.node_eq_zero ht
    subst hz
    exact ⟨hs.granted i _ .gate .shared ht hg, hd⟩
  refine ⟨fun i d hl => (hlease hl).2, fun i w previous r hw hr hn j d hl => ?_, fun hx => ?_⟩
  · obtain ⟨node, k, ht⟩ := Schedule.task_of_next? hn
    have hz : node = 0 := h.node_eq_zero ht
    subst hz
    have hsafe := (Prog.safe_call rfl).mp (hs.safe i _ ht) _ (.refl hs.invariant)
    rw [roles_of_getElem? hw] at hsafe
    have hadm : w.Admits K (.replace previous r) s.contended.state :=
      Work.admits_of_oldKey? (Work.oldKey?_of_rotates hr) _ _
    -- a rotation has the gate alone by then, and a lease would share it
    have hduty := (hsafe hadm).1 hr
    have hne : i ≠ j := by
      rintro rfl
      obtain ⟨node, ht'⟩ := Schedule.task_of_result? hl.1
      cases ht.symm.trans ht'
    exact LockRequest.mode_of_granted (hs.granted i _ .gate .exclusive ht hduty) (hlease hl).1 hne rfl rfl rfl
  · refine hs.kept 0 .gate fun i t ht hn hg => hx i ?_
    have := hs.granted i t .gate .exclusive ht hg
    rwa [hn] at this

/-- A key is leased, a rotation waits for the lease to be given back, and the cache is
emptied meanwhile. -/
theorem leases_in_force_waiting : ∃ K s d,
    Reachable K [.operation .lease, .operation .rotate, .clearCache] [] s ∧ Leases [] s 0 d ∧
    s.contended.queue = [⟨0, 0, .gate, .shared⟩, ⟨1, 0, .gate, .exclusive⟩] ∧
    s.contended.state.node.cache = none ∧ s.contended.state.shared.store.Holds K d := by
  obtain ⟨s, h, hlease, hwait, hcache⟩ : ∃ s, Reachable (.ofReport .blank)
      [.operation .lease, .operation .rotate, .clearCache] [] s ∧ s.result? 0 = some (some ⟨.ofBytes 32 []⟩) ∧
      s.contended.queue = [⟨0, 0, .gate, .shared⟩, ⟨1, 0, .gate, .exclusive⟩] ∧ s.contended.state.node.cache = none := by
    have h₀ : Reachable (.ofReport .blank) [] [] (.start (.attested .blank)) :=
      .start (Nat.zero_le 1) rfl (Attestor.within_ofReport _)
    have h₁ := (h₀.spawn (.operation .lease)).advance (by simp [Work.oldKey?]) (fun _ => false) 0
    have h₂ := (h₁.spawn (.operation .rotate)).advance (by simp [Work.oldKey?]) (fun _ => false) 1
    have h₃ := (h₂.spawn .clearCache).advance (by simp [Work.oldKey?]) (fun _ => false) 2
    exact ⟨_, h₃, by decide +kernel, by decide +kernel, by decide +kernel⟩
  have hl : Leases [] s 0 _ := ⟨hlease, List.not_mem_nil⟩
  exact ⟨_, s, _, h, hl, hwait, hcache, (leases_in_force h).1 0 _ hl⟩

end Reachable

end AttestedVault
