import AttestedVault.Proofs.Alone
import AttestedVault.Proofs.Ledger
import AttestedVault.Proofs.Stages

/-!
# One store, many managers

Any number of managers at work over one store that is empty at first, on any
number of operations. The records form one line, whoever stored them.
-/

namespace AttestedVault

structure Job : Type 1 where
  {ε α : Type}
  node : Nat
  op : Operation ε α

def Job.task (j : Job) : Task Bool := ⟨j.node, j.op.attempt⟩

def changes (jobs : Nat → Job) (i : Nat) : Option Change := (jobs i).op.change?

def Journal.step (i : Nat) (s : Schedule Fleet Bool) (l : Journal) : Journal :=
  match s.tasks[i]? with
  | some ⟨node, .call e _⟩ =>
    match (Contended.answer (Fleet.perform node) i node e s.contended).1 with
    | some x => l.note i e x
    | none => l
  | _ => l

/-- Another attestor, an empty cache or failing store calls for one manager. -/
def Schedule.disturb (node : Nat) (n : Node) (s : Schedule Fleet Bool) : Schedule Fleet Bool :=
  { s with contended := { s.contended with state := s.contended.state.put node ⟨s.contended.state.shared, n⟩ } }

def Schedule.randomize (r : Random) (s : Schedule Fleet Bool) : Schedule Fleet Bool :=
  { s with contended := { s.contended with
      state := { s.contended.state with shared := { s.contended.state.shared with random := r } } } }

namespace Fleet

/-- What a fleet comes to. The tasks take up the jobs in order and move by single
effects, and no id is handed out twice. -/
inductive Reachable (jobs : Nat → Job) : Journal → Schedule Fleet Bool → Prop
  | start {f : Fleet} (empty : f.shared.store = .memory .empty ∨ f.shared.store = .table .empty)
      (fresh : Function.Injective fun n => (f.shared.stamps n).1) : Reachable jobs .blank (.start f)
  | spawn {l : Journal} {s : Schedule Fleet Bool} (before : Reachable jobs l s) :
      Reachable jobs l { s with tasks := s.tasks ++ [(jobs s.tasks.length).task] }
  | step {l : Journal} {s : Schedule Fleet Bool} (i : Nat) (before : Reachable jobs l s) :
      Reachable jobs (l.step i s) (s.step perform i)
  /-- A lease is given back. -/
  | drop {l : Journal} {s : Schedule Fleet Bool} (i : Nat) (before : Reachable jobs l s) :
      Reachable jobs l (s.release i .gate)
  | disturb {l : Journal} {s : Schedule Fleet Bool} (node : Nat) (n : Node) (before : Reachable jobs l s) :
      Reachable jobs l (s.disturb node n)
  | randomize {l : Journal} {s : Schedule Fleet Bool} (r : Random) (before : Reachable jobs l s) :
      Reachable jobs l (s.randomize r)

structure Kept (jobs : Nat → Job) (l : Journal) (s : Schedule Fleet Bool) : Prop where
  sound : l.Sound (changes jobs) s.contended.state.shared
  follows : ∀ i (t : Task Bool), s.tasks[i]? = some t → t.prog.Follows (changes jobs i) (jobs i).op.Ends (l.progress i)
  idle : ∀ i, s.tasks.length ≤ i → l.progress i = .start

namespace Kept

variable {jobs : Nat → Job} {l : Journal} {s : Schedule Fleet Bool}

theorem start {f : Fleet} (empty : f.shared.store = .memory .empty ∨ f.shared.store = .table .empty)
    (fresh : Function.Injective fun n => (f.shared.stamps n).1) : Kept jobs .blank (.start f) := by
  have hc : f.shared.store.Contains (succession []) := by
    rcases empty with he | he <;> rw [he] <;> rfl
  refine ⟨⟨hc, .empty, fun c hc => ?_, fun c hc => ?_, fun i => ?_, fun i q hq => ?_, fun c hc => ?_,
    fun i x hx => ?_, fun i j x hx => ?_, fresh⟩, fun i t ht => ?_, fun _ _ => rfl⟩
  · cases hc
  · cases hc
  · exact iff_of_false Bool.false_ne_true fun ⟨c, hc, _⟩ => List.not_mem_nil hc
  · cases hq
  · cases hc
  · cases hx
  · cases hx
  · cases ht

theorem spawn (h : Kept jobs l s) :
    Kept jobs l { s with tasks := s.tasks ++ [(jobs s.tasks.length).task] } := by
  refine ⟨h.sound, fun i t ht => ?_, fun i hi => h.idle i ?_⟩
  · rcases Nat.lt_or_ge i s.tasks.length with hi | hi
    · exact h.follows i t ((List.getElem?_append_left hi).symm.trans ht)
    · obtain rfl : i = s.tasks.length := by
        have := (List.getElem?_eq_some_iff.mp ht).1
        simp only [List.length_append, List.length_singleton] at this
        omega
      cases (List.getElem?_concat_length).symm.trans ht
      rw [h.idle _ hi]
      exact Operation.attempt_follows _
  · simp only [List.length_append, List.length_singleton] at hi
    omega

theorem move (h : Kept jobs l s) {i node : Nat} {e : Effect} {k : e.Answer → Prog Bool}
    (ht : s.tasks[i]? = some ⟨node, .call e k⟩) {x : e.Answer} {f : Fleet} {queue : List LockRequest}
    (hs : (l.note i e x).Sound (changes jobs) f.shared) :
    Kept jobs (l.note i e x) ⟨⟨f, queue⟩, s.tasks.set i ⟨node, k x⟩⟩ := by
  have hi : i < s.tasks.length := (List.getElem?_eq_some_iff.mp ht).1
  refine ⟨hs, fun j t htj => ?_, fun j hj => ?_⟩
  · by_cases hji : j = i
    · subst hji
      obtain rfl : ⟨node, k x⟩ = t := Option.some.inj ((List.getElem?_set_self hi).symm.trans htj)
      rw [Journal.progress_note]
      exact (h.follows j _ ht).2 x
    · rw [Journal.progress_note_of_ne hji]
      exact h.follows j t ((List.getElem?_set_ne (Ne.symm hji)).symm.trans htj)
  · rw [List.length_set] at hj
    rw [Journal.progress_note_of_ne (Nat.ne_of_gt (Nat.lt_of_lt_of_le hi hj))]
    exact h.idle j hj

theorem of_shared (h : Kept jobs l s) {c : Contended Fleet} (hst : c.state.shared.store = s.contended.state.shared.store)
    (hs : c.state.shared.stamps = s.contended.state.shared.stamps)
    (hn : c.state.shared.stamped = s.contended.state.shared.stamped) : Kept jobs l { s with contended := c } :=
  ⟨h.sound.of_shared hst hs hn, h.follows, h.idle⟩

theorem step (h : Kept jobs l s) (i : Nat) : Kept jobs (l.step i s) (s.step perform i) := by
  unfold Journal.step Schedule.step
  cases ht : s.tasks[i]? with
  | none => exact h
  | some t =>
    obtain ⟨node, p⟩ := t
    cases p with
    | done ok => exact h
    | call e k =>
      simp only
      cases he : e.isLocking with
      | false =>
        rw [Contended.answer_of_not_locking he]
        exact h.move ht (h.sound.perform node e (h.follows i _ ht).1)
      | true =>
        have hst := Contended.state_of_locking (h := perform node) (i := i) (n := node) he s.contended
        have hs : e.isSilent = true := by cases e <;> first | rfl | cases he
        -- the task waits, or goes on without a trace
        cases hx : Contended.answer (perform node) i node e s.contended with
        | mk a c =>
          rw [hx] at hst
          cases a with
          | none =>
            exact h.of_shared (congrArg (·.shared.store) hst) (congrArg (·.shared.stamps) hst)
              (congrArg (·.shared.stamped) hst)
          | some x =>
            refine h.move ht ?_
            rw [Journal.note_of_silent hs, hst]
            exact h.sound

end Kept

def attested (r : AttestationReport) : Fleet where
  shared := { (Host.attested r).shared with
    stamps := fun n => (String.ofList (List.replicate n 'r'), ((Host.attested r).shared.stamps n).2) }
  nodes _ := (Host.attested r).node

theorem attested_fresh {r : AttestationReport} : Function.Injective fun n => ((attested r).shared.stamps n).1 := by
  intro m n he
  have hl := congrArg List.length (String.ofList_injective he)
  rwa [List.length_replicate, List.length_replicate] at hl

def served (jobs : Nat → Job) (f : Fleet) : Nat → Fleet
  | 0 => f
  | n + 1 => (served jobs f n).put (jobs n).node
      ((jobs n).op.action.on ((served jobs f n).host (jobs n).node)).2

def outcome (jobs : Nat → Job) (f : Fleet) (n : Nat) : Bool :=
  Except.isOk ((jobs n).op.action.on ((served jobs f n).host (jobs n).node)).1

theorem run_attempt (j : Job) (f : Fleet) : j.op.attempt.run (perform j.node) f =
    (Except.isOk (j.op.action.on (f.host j.node)).1, f.put j.node (j.op.action.on (f.host j.node)).2) := by
  rw [run_perform, Operation.attempt, Prog.run_bind]
  rfl

namespace Reachable

variable {jobs : Nat → Job} {l : Journal} {s : Schedule Fleet Bool}

theorem kept (h : Reachable jobs l s) : Kept jobs l s := by
  induction h with
  | start empty fresh => exact .start empty fresh
  | spawn _ ih => exact ih.spawn
  | step i _ ih => exact ih.step i
  | drop i _ ih => exact ih.of_shared rfl rfl rfl
  | disturb node n _ ih => exact ih.of_shared rfl rfl rfl
  | randomize r _ ih => exact ih.of_shared rfl rfl rfl

/-- The store has exactly the records of the journal, the last one active. Each
was stored by a task that had read the one before, with the version that follows
from it, and a rotation or migration that has stored none has failed. So the
version counts the rotations. -/
theorem records_succeed (h : Reachable jobs l s) :
    s.contended.state.shared.store.Contains (succession l.records) ∧ Lineage (changes jobs) l.commits ∧
    (∀ i ok, changes jobs i ≠ none → s.result? i = some ok → (ok = true ↔ ∃ c ∈ l.commits, c.task = i)) ∧
    (∀ c, l.commits.getLast? = some c → Lineage.rotations (changes jobs) l.commits < 0xffffffffffffffff →
      c.record.version = "v" ++ toString (1 + Lineage.rotations (changes jobs) l.commits)) := by
  obtain ⟨hs, hf, -⟩ := h.kept
  refine ⟨hs.contains, hs.lineage, fun i ok hi hok => ?_, fun c hc hr => hs.lineage.version hc hr⟩
  obtain ⟨node, ht⟩ := Schedule.task_of_result? hok
  have hend : ok = (l.progress i).stored := hf i _ ht hi
  rw [hend]
  exact hs.stored i

theorem advance (h : Reachable jobs l s) (stop : Effect → Bool) (i : Nat) :
    ∃ l', Reachable jobs l' (s.advance perform stop i) :=
  Schedule.advance_of_step (P := fun s => ∃ l, Reachable jobs l s) (fun _ ⟨_, h⟩ => ⟨_, h.step i⟩) stop ⟨l, h⟩

/-- Jobs that are done one after the other are a schedule in which each of them ends
as it does alone. -/
theorem sequence {f : Fleet} (empty : f.shared.store = .memory .empty ∨ f.shared.store = .table .empty)
    (fresh : Function.Injective fun n => (f.shared.stamps n).1) : ∀ n, (∀ i < n, (jobs i).op.givesBack = true) →
    ∃ l s, Reachable jobs l s ∧ s.contended = ⟨served jobs f n, []⟩ ∧ s.tasks.length = n ∧
      ∀ i < n, s.result? i = some (outcome jobs f i)
  | 0, _ => ⟨_, _, .start empty fresh, rfl, rfl, nofun⟩
  | n + 1, hb => by
    obtain ⟨l, s, h, hs, hn, hr⟩ := sequence empty fresh n fun i hi => hb i (Nat.lt_succ_of_lt hi)
    let next : Schedule Fleet Bool := { s with tasks := s.tasks ++ [(jobs s.tasks.length).task] }
    have ht : next.tasks[n]? = some ⟨(jobs n).node, (jobs n).op.attempt⟩ := by
      rw [← hn]
      exact List.getElem?_concat_length
    have hadvance := Schedule.advance_alone (h := perform) (Operation.attempt_alone (hb n (Nat.lt_succ_self n)))
      (lockless_perform _) ht (congrArg Contended.queue hs)
    obtain ⟨l', h'⟩ := h.spawn.advance (fun _ => false) n
    rw [hadvance, show next.contended = s.contended from rfl, hs, run_attempt] at h'
    refine ⟨l', _, h', rfl, by simp [next, hn], fun i hi => ?_⟩
    rcases Nat.lt_succ_iff_lt_or_eq.mp hi with hi | rfl
    · rw [← hr i hi]
      simp [Schedule.result?, next, List.getElem?_set_ne (Nat.ne_of_gt hi), List.getElem?_append_left (hn ▸ hi)]
    · simp [Schedule.result?, next, hn, Prog.result?, outcome]

/-- One manager makes the key, another one rotates it, and a third one that runs
other code migrates it. -/
theorem records_succeed_migrated : ∃ jobs l s c, Reachable jobs l s ∧
    (jobs 0).node = 0 ∧ (jobs 1).node = 1 ∧ changes jobs 1 = some .rotation ∧
    (jobs 2).node = 2 ∧ changes jobs 2 = some .migration ∧
    (∃ c ∈ l.commits, c.task = 1) ∧ (∃ c ∈ l.commits, c.task = 2) ∧
    l.commits.getLast? = some c ∧ c.record.version = "v2" := by
  obtain ⟨a, b, k, k', hk, hk', hne⟩ := AttestationReport.exists_masterKeys
  let jobs : Nat → Job
    | 0 => ⟨0, .currentDek⟩
    | 1 => ⟨1, .rotate⟩
    | _ => ⟨2, .migrate k⟩
  let f : Fleet := { attested a with nodes := fun n => .fresh (.scripted fun _ => .ok (if n = 2 then b else a)) }
  have hkey : ∀ (sh : Shared) (r : AttestationReport) (k : MasterKey), r.masterKey = .ok k →
      Host.masterKey ⟨sh, .fresh (.scripted fun _ => .ok r)⟩ = .ok k :=
    fun _ _ _ h => (Host.masterKey_of_report rfl).trans h
  -- what each of them comes to
  have hfree : (f.host 0).Unhindered := ⟨rfl, fun _ => rfl⟩
  obtain ⟨dek, q₀, t₀, h₀, hq₀, -, hv₀⟩ :=
    KeyManager.currentDek_serves (s := f.host 0) ⟨hkey _ a k hk, rfl, rfl, rfl⟩ ⟨Nat.zero_le 1, rfl, rfl, trivial⟩ ⟨.empty, rfl⟩ hfree
  have hfree₁ : Host.Unhindered ⟨t₀.shared, f.nodes 1⟩ := ⟨rfl, (hfree.on h₀).draws⟩
  obtain ⟨x₁, q₁, t₁, h₁, hq₁, hv₁⟩ :=
    KeyManager.rotate_serves (s := ⟨t₀.shared, f.nodes 1⟩) hq₀ (hkey _ a k hk) hfree₁
  have hfree₂ : Host.Unhindered ⟨t₁.shared, f.nodes 2⟩ := ⟨rfl, (hfree₁.on h₁).draws⟩
  obtain ⟨x₂, q₂, t₂, h₂, hq₂, hv₂⟩ :=
    KeyManager.migrate_serves (s := ⟨t₁.shared, f.nodes 2⟩) hq₁ (hkey _ b k' hk') hne hfree₂
  -- and how they follow one another
  have hs₁ : served jobs f 1 = f.put 0 t₀ := congrArg (f.put 0) (congrArg Prod.snd h₀)
  have hs₂ : served jobs f 2 = (f.put 0 t₀).put 1 t₁ := by
    rw [served, hs₁]
    exact congrArg ((f.put 0 t₀).put 1) (congrArg Prod.snd h₁)
  have hs₃ : served jobs f 3 = ((f.put 0 t₀).put 1 t₁).put 2 t₂ := by
    rw [served, hs₂]
    exact congrArg (((f.put 0 t₀).put 1 t₁).put 2) (congrArg Prod.snd h₂)
  obtain ⟨l, s, h, hs, -, hr⟩ := @sequence jobs f (.inl rfl) attested_fresh 3
    fun | 0, _ => rfl | 1, _ => rfl | _ + 2, _ => rfl
  obtain ⟨hc, -, hcommits, -⟩ := records_succeed h
  have hd₁ : outcome jobs f 1 = true := by
    rw [outcome, hs₁]
    exact congrArg Except.isOk (congrArg Prod.fst h₁)
  have hd₂ : outcome jobs f 2 = true := by
    rw [outcome, hs₂]
    exact congrArg Except.isOk (congrArg Prod.fst h₂)
  have hactive : s.contended.state.shared.store.active? = .ok (some q₂) := by
    rw [hs, hs₃]
    exact hq₂.active
  have hlast := hc.active? h.kept.sound.active_records hactive
  rw [Journal.records, List.getLast?_map] at hlast
  obtain ⟨c, hlast, hq⟩ := Option.map_eq_some_iff.mp hlast.symm
  refine ⟨jobs, l, s, c, h, rfl, rfl, rfl, rfl, rfl, ?_, ?_, hlast, ?_⟩
  · exact (hcommits 1 true (Option.some_ne_none _) ((hr 1 (by decide)).trans (congrArg some hd₁))).mp rfl
  · exact (hcommits 2 true (Option.some_ne_none _) ((hr 2 (by decide)).trans (congrArg some hd₂))).mp rfl
  · rw [hq, hv₂, hv₁, hv₀]
    decide +kernel

end Reachable

end Fleet

end AttestedVault
