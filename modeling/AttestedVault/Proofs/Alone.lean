import AttestedVault.Host.Fleet
import AttestedVault.Proofs.Completion
import AttestedVault.Proofs.FirstKey
import AttestedVault.Proofs.Progress
import AttestedVault.Proofs.Simulation

/-!
# Operations one after the other

A task that meets no locks but its own runs to its end in one go, and comes to
what it comes to alone. Every operation but a lease leaves the queue as it was, so
that the next one does the same.
-/

namespace AttestedVault

variable {ε α β σ : Type}

namespace LockRequest

/-- Nobody else stands in the queue on this node, and the task itself only for these locks. -/
def Own (task node : Nat) (held : List Lock) (queue : List LockRequest) : Prop :=
  ∀ q ∈ queue, q.task = task ∨ q.node = node → q.task = task ∧ q.lock ∈ held

theorem granted_concat {r : LockRequest} : ∀ {queue : List LockRequest},
    (∀ q ∈ queue, r.conflicts q = false) → r.granted (queue ++ [r]) = true
  | [], _ => by simp [granted]
  | q :: queue, h => by
    rw [List.cons_append, granted, h q List.mem_cons_self,
      granted_concat fun q' hq' => h q' (List.mem_cons_of_mem q hq')]
    simp

namespace Own

variable {task node : Nat} {held : List Lock} {queue : List LockRequest} {lock : Lock} {mode : LockMode}

theorem concat (h : Own task node held queue) : Own task node (lock :: held) (queue ++ [⟨task, node, lock, mode⟩]) := by
  intro q hq ho
  rcases List.mem_append.mp hq with hq | hq
  · exact ⟨(h q hq ho).1, List.mem_cons_of_mem lock (h q hq ho).2⟩
  · obtain rfl := List.mem_singleton.mp hq
    exact ⟨rfl, List.mem_cons_self⟩

theorem join (h : Own task node held queue) (hl : lock ∉ held) :
    (mk task node lock mode).join queue = queue ++ [⟨task, node, lock, mode⟩] :=
  if_neg fun hr => hl (h _ hr (.inl rfl)).2

theorem granted (h : Own task node held queue) (hl : lock ∉ held) :
    (mk task node lock mode).granted (queue ++ [⟨task, node, lock, mode⟩]) = true := by
  refine granted_concat fun q hq => ?_
  by_cases hn : q.node = node
  · have hne : lock ≠ q.lock := fun he => hl (he ▸ (h q hq (.inr hn)).2)
    simp [conflicts, hne]
  · simp [conflicts, Ne.symm hn]

theorem leave (h : Own task node held queue) (hl : lock ∉ held) :
    leave task lock (queue ++ [⟨task, node, lock, mode⟩]) = queue := by
  have hkeep : ∀ q ∈ queue, (!(q.task == task && q.lock == lock)) = true := by
    intro q hq
    by_cases ht : q.task = task
    · have hne : q.lock ≠ lock := fun he => hl (he ▸ (h q hq (.inl ht)).2)
      simp [hne]
    · simp [ht]
  rw [LockRequest.leave, List.filter_append, List.filter_eq_self.mpr hkeep]
  simp

end Own

end LockRequest

/-! ## Programs -/

def Handler.Lockless (h : Handler σ) : Prop := ∀ e s, e.isLocking = true → (h e s).2 = s

namespace Prog

/-- Where only the task itself has locks, it comes to its end as it does alone, and
leaves the queue as it was. -/
structure Alone (held : List Lock) (p : Prog α) : Prop where
  proceed : ∀ {σ : Type} {h : Handler σ} {task node : Nat} {c : Contended σ}, h.Lockless →
    LockRequest.Own task node held c.queue →
    p.proceed h task node c = (.done (p.run h c.state).1, ⟨(p.run h c.state).2, c.queue⟩)

theorem proceed_bind {h : Handler σ} {i node : Nat} {p : Prog β} {f : β → Prog α} {b : β} {c c' : Contended σ}
    (hp : p.proceed h i node c = (.done b, c')) : (p.bind f).proceed h i node c = (f b).proceed h i node c' := by
  induction p generalizing c with
  | done a =>
    cases hp
    rfl
  | call e k ih =>
    cases ha : Contended.answer h i node e c with
    | mk x c₁ =>
      cases x with
      | some x =>
        rw [proceed_call ha] at hp
        exact (proceed_call ha).trans (ih x hp)
      | none =>
        simp only [proceed, advance, ha] at hp
        cases hp

namespace Alone

variable {held : List Lock}

theorem done (a : α) : (Prog.done a).Alone held := ⟨fun _ _ => rfl⟩

theorem call {e : Effect} {k : e.Answer → Prog α} (he : e.isLocking = false) (hk : ∀ x, (k x).Alone held) :
    (Prog.call e k).Alone held := by
  refine ⟨fun {σ h task node c} hh hc => ?_⟩
  rw [proceed_call (Contended.answer_of_not_locking he c)]
  exact (hk _).proceed hh hc

theorem of_lockless {p : Prog α} (hp : p.Lockless) : p.Alone held := by
  induction p with
  | done a => exact .done a
  | call e k ih =>
    obtain ⟨he, hk⟩ := lockless_call hp
    exact .call he fun x => ih x (hk x)

theorem bind {p : Prog β} {f : β → Prog α} (hp : p.Alone held) (hf : ∀ b, (f b).Alone held) :
    (p.bind f).Alone held := by
  refine ⟨fun {σ h task node c} hh hc => ?_⟩
  rw [proceed_bind (hp.proceed hh hc), run_bind]
  exact (hf _).proceed hh hc

end Alone

end Prog

theorem Action.alone_of_lockless {a : Action ε α} {held : List Lock} (ha : a.Only fun e => !e.isLocking) :
    a.run.Alone held := .of_lockless ha

theorem Action.alone_bind {a : Action ε β} {f : β → Action ε α} {held : List Lock} (ha : a.run.Alone held)
    (hf : ∀ b, (f b).run.Alone held) : (a >>= f).run.Alone held := by
  refine Prog.Alone.bind ha fun r => ?_
  cases r with
  | ok b => exact hf b
  | error e => exact .done _

theorem Action.alone_holding {a : Action ε α} {lock : Lock} {mode : LockMode} {held : List Lock} (hl : lock ∉ held)
    (ha : a.run.Alone (lock :: held)) : (holding lock mode a).run.Alone held := by
  refine ⟨fun {σ h task node c} hh hc => ?_⟩
  let queue := c.queue ++ [LockRequest.mk task node lock mode]
  have htake : Contended.answer h task node (.acquire lock mode) c = (some (), ⟨c.state, queue⟩) := by
    simp only [Contended.answer, hc.join hl, hc.granted hl, if_true]
    rfl
  have hgive : ∀ s, Contended.answer h task node (.release lock) ⟨s, queue⟩ = (some (), ⟨s, c.queue⟩) := by
    intro s
    simp only [Contended.answer, queue, hc.leave hl]
    rfl
  have hrun : (holding lock mode a).run.run h c.state = a.run.run h c.state := by
    change (a.run.bind fun r => Prog.call (.release lock) fun _ => .done r).run h (h (.acquire lock mode) c.state).2 = _
    rw [hh _ _ rfl, Prog.run_bind]
    exact Prod.ext rfl (hh (.release lock) _ rfl)
  rw [hrun]
  refine (Prog.proceed_call htake).trans ?_
  refine (Prog.proceed_bind (ha.proceed (c := ⟨c.state, queue⟩) hh hc.concat)).trans ?_
  exact Prog.proceed_call (hgive _)

/-! ## Operations -/

theorem Action.lockless_of_quiet {ε α : Type} {a : Action ε α} (h : a.Only Effect.isQuiet) :
    a.Only fun e => !e.isLocking := by
  refine Prog.Only.imp (fun e he => ?_) h
  cases e with
  | acquire => cases he
  | release => cases he
  | _ => rfl

namespace KeyManager

open AttestedVault.Action

variable (u : Unwrapping)

theorem bootstrapBy_lockless (key : MasterKey) : (bootstrapBy u key).Only fun e => !e.isLocking := by
  refine .bind (.mapError _ (lockless_of_quiet generateDek_local.quiet)) fun dek => ?_
  refine .bind (.mapError _ (lockless_of_quiet (sealRecord_local dek key _).quiet)) fun r => ?_
  refine .bind (.ask rfl) fun x => ?_
  cases (x : Except StoreError Unit) with
  | ok _ => exact .pure _
  | error e =>
    by_cases he : e = .activeRecordExists
    · subst he
      refine .bind (lockless_of_quiet readActive_quiet) fun o => ?_
      cases o with
      | none => exact .throw _
      | some r => exact .ofExcept _ _
    · cases e with
      | activeRecordExists => exact absurd rfl he
      | _ => exact .throw _

theorem loadDekBy_lockless : (loadDekBy u).Only fun e => !e.isLocking := by
  refine .bind (lockless_of_quiet currentMasterKey_quiet) fun key => ?_
  refine .bind (lockless_of_quiet readActive_quiet) fun o => ?_
  cases o with
  | some r => exact .ofExcept _ _
  | none => exact bootstrapBy_lockless u key

theorem currentDek_alone : currentDek.run.Alone [] := by
  refine Prog.Alone.call (e := .cached) rfl fun x => ?_
  cases (x : Option Dek) with
  | some dek => exact .done _
  | none =>
    refine alone_holding List.not_mem_nil (alone_of_lockless (.bind (.ask rfl) fun x => ?_))
    cases (x : Option Dek) with
    | some dek => exact .pure dek
    | none => exact .bind (loadDekBy_lockless KeyRecord.unwrap) fun dek => .bind (.ask rfl) fun _ => .pure dek

theorem replace_lockless (previous : String) (r : KeyRecord) :
    (Action.replace previous r).Only fun e => !e.isLocking := .bind (.ask rfl) fun _ => .ofExcept _ _

theorem rotateWith_alone (lift : KeyError → ε) (c : Closure ε α) : (rotateWith lift c.act).run.Alone [] := by
  refine alone_holding List.not_mem_nil (alone_holding (by decide) (alone_of_lockless ?_))
  refine .bind (.mapError _ (lockless_of_quiet currentMasterKey_quiet)) fun key => ?_
  refine .bind (.mapError _ (lockless_of_quiet activeRecord_quiet)) fun current => ?_
  refine .bind (.ofExcept _ _) fun old => ?_
  refine .bind (.mapError _ (lockless_of_quiet generateDek_local.quiet)) fun dek => ?_
  refine .bind (.mapError _ (lockless_of_quiet (sealRecord_local dek key _).quiet)) fun r => ?_
  refine .bind (lockless_of_quiet (c.isLocal old dek).quiet) fun result => ?_
  exact .bind (.mapError _ (replace_lockless current.id r)) fun _ => .bind (.ask rfl) fun _ => .pure _

theorem migrate_alone (oldKey : MasterKey) : (migrate oldKey).run.Alone [] := by
  refine alone_holding List.not_mem_nil (alone_of_lockless ?_)
  refine .bind (lockless_of_quiet currentMasterKey_quiet) fun key => ?_
  refine .bind (lockless_of_quiet activeRecord_quiet) fun current => ?_
  refine .bind (.ofExcept _ _) fun stored => ?_
  by_cases he : stored = key.id
  · rw [if_pos he]
    exact .throw _
  · rw [if_neg he]
    refine .bind (.ofExcept _ _) fun dek => ?_
    refine .bind (.mapError _ (lockless_of_quiet (sealRecord_local dek key _).quiet)) fun r => ?_
    exact .bind (replace_lockless current.id r) fun _ => .bind (.ask rfl) fun _ => .pure _

end KeyManager

namespace Operation

/-- It has no lock any more when it ends. -/
def givesBack : Operation ε α → Bool
  | lease => false
  | _ => true

theorem attempt_alone {op : Operation ε α} (h : op.givesBack = true) : op.attempt.Alone [] := by
  refine Prog.Alone.bind ?_ fun _ => .done _
  cases op with
  | lease => cases h
  | currentDek => exact KeyManager.currentDek_alone
  | rotate => exact Action.alone_bind (KeyManager.rotateWith_alone id (.ofExcept (.ok ()))) fun _ => .done _
  | rotateWith lift c => exact KeyManager.rotateWith_alone lift c
  | migrate oldKey => exact KeyManager.migrate_alone oldKey
  | currentMasterKeyId => exact Action.alone_of_lockless (Action.lockless_of_quiet KeyManager.currentMasterKeyId_quiet)
  | state => exact Action.alone_of_lockless (Action.lockless_of_quiet KeyManager.state_quiet)

end Operation

/-! ## Schedules -/

theorem Schedule.advance_alone {h : Nat → Handler σ} {s : Schedule σ α} {i node : Nat} {p : Prog α}
    (hp : p.Alone []) (hh : (h node).Lockless) (ht : s.tasks[i]? = some ⟨node, p⟩) (hq : s.contended.queue = []) :
    s.advance h (fun _ => false) i = ⟨⟨(p.run (h node) s.contended.state).2, []⟩,
      s.tasks.set i ⟨node, .done (p.run (h node) s.contended.state).1⟩⟩ := by
  have hc : LockRequest.Own i node [] s.contended.queue := by
    rw [hq]
    exact nofun
  have hrun := hp.proceed hh hc
  rw [hq] at hrun
  simp only [advance, ht, hrun]

namespace Fleet

theorem lockless_perform (n : Nat) : (perform n).Lockless := fun _ f he => perform_of_locking n he f

theorem run_perform (n : Nat) (p : Prog α) (f : Fleet) : p.run (perform n) f =
    ((p.run Host.perform (f.host n)).1, f.put n (p.run Host.perform (f.host n)).2) := by
  have hh : (perform n).Simulates Effect.any (fun g h => g = f.put n h) Host.perform := by
    rintro e g h - rfl
    simp only [perform, host_put, put_put]
    exact ⟨rfl, rfl⟩
  obtain ⟨ha, hs⟩ := Prog.run_alike hh p.only_any (f.put_host n).symm
  exact Prod.ext ha hs

end Fleet

end AttestedVault
