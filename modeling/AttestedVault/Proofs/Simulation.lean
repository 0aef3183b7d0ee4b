import AttestedVault.Host.Schedule
import AttestedVault.Proofs.Solo

/-!
# Surroundings that answer alike

Where two handlers answer every effect alike as long as their states are related,
no program tells one from the other, and neither do programs that interleave.
-/

namespace AttestedVault

variable {σ τ α : Type} {R : σ → τ → Prop} {s : σ} {t : τ}

def Alike (R : σ → τ → Prop) (x : α × σ) (y : α × τ) : Prop := x.1 = y.1 ∧ R x.2 y.2

/-- In related states effects of this kind are answered alike. -/
def Handler.Simulates (kind : Effect → Bool) (R : σ → τ → Prop) (h : Handler σ) (h' : Handler τ) : Prop :=
  ∀ {e : Effect} {s : σ} {t : τ}, kind e = true → R s t → Alike R (h e s) (h' e t)

def Effect.any (_ : Effect) : Bool := true

theorem Prog.only_any (p : Prog α) : p.Only Effect.any := by
  induction p with
  | done a => trivial
  | call e k ih => exact ⟨rfl, ih⟩

theorem Prog.run_alike {kind : Effect → Bool} {h : Handler σ} {h' : Handler τ} (hh : h.Simulates kind R h')
    {p : Prog α} (hp : p.Only kind) (hR : R s t) : Alike R (p.run h s) (p.run h' t) := by
  induction p generalizing s t with
  | done a => exact ⟨rfl, hR⟩
  | call e k ih =>
    obtain ⟨he, hn⟩ := hh hp.1 hR
    change Alike R ((k (h e s).1).run h (h e s).2) ((k (h' e t).1).run h' (h' e t).2)
    rw [he]
    exact ih _ (hp.2 _) hn

/-! ## Interleaved programs -/

def Contended.Linked (R : σ → τ → Prop) (c : Contended σ) (d : Contended τ) : Prop :=
  c.queue = d.queue ∧ R c.state d.state

theorem Contended.answer_alike {h : Handler σ} {h' : Handler τ} (hh : h.Simulates Effect.any R h') (task node : Nat)
    (e : Effect) {c : Contended σ} {d : Contended τ} (hc : c.Linked R d) :
    Alike (Linked R) (answer h task node e c) (answer h' task node e d) := by
  obtain ⟨queue, hR⟩ := hc
  cases e with
  | acquire lock mode => exact ⟨by simp only [answer, queue], by simp only [answer, queue], hR⟩
  | release lock => exact ⟨rfl, congrArg (LockRequest.leave task lock) queue, hR⟩
  | _ => exact ⟨congrArg some (hh rfl hR).1, queue, (hh rfl hR).2⟩

theorem Prog.advance_alike {h : Handler σ} {h' : Handler τ} (hh : h.Simulates Effect.any R h')
    (stop : Effect → Bool) (task node : Nat) (p : Prog α) {c : Contended σ} {d : Contended τ} (hc : c.Linked R d) :
    Alike (Contended.Linked R) (p.advance h stop task node c) (p.advance h' stop task node d) := by
  induction p generalizing c d with
  | done a => exact ⟨rfl, hc⟩
  | call e k ih =>
    unfold advance
    split
    · exact ⟨rfl, hc⟩
    obtain ⟨he, hn⟩ := Contended.answer_alike hh task node e hc
    generalize Contended.answer h task node e c = x at he hn
    generalize Contended.answer h' task node e d = y at he hn
    obtain ⟨a, c'⟩ := x
    obtain ⟨b, d'⟩ := y
    obtain rfl : a = b := he
    cases a with
    | none => exact ⟨rfl, hn⟩
    | some a => exact ih a hn

namespace Schedule

variable {h : Nat → Handler σ} {h' : Nat → Handler τ} {u : Schedule σ α} {v : Schedule τ α}

/-- Tasks begin one after the other, and take these turns then. -/
def play (h : Nat → Handler σ) (stop : Effect → Bool) (tasks : List (Task α)) (turns : List Nat) (s : σ) :
    Schedule σ α :=
  turns.foldl (fun u i => u.advance h stop i) (tasks.foldl (fun u x => u.spawn h stop x) (start s))

def Linked (R : σ → τ → Prop) (u : Schedule σ α) (v : Schedule τ α) : Prop :=
  u.tasks = v.tasks ∧ u.contended.Linked R v.contended

theorem Linked.start (hR : R s t) : (start s : Schedule σ α).Linked R (start t) := ⟨rfl, rfl, hR⟩

theorem Linked.advance (hh : ∀ n, (h n).Simulates Effect.any R (h' n)) (stop : Effect → Bool) (i : Nat)
    (hu : u.Linked R v) : (u.advance h stop i).Linked R (v.advance h' stop i) := by
  obtain ⟨tasks, hc⟩ := hu
  unfold Schedule.advance
  rw [tasks]
  cases v.tasks[i]? with
  | none => exact ⟨tasks, hc⟩
  | some x =>
    obtain ⟨hp, hn⟩ := Prog.advance_alike (hh x.node) stop i x.node x.prog hc
    exact ⟨congrArg (fun p => v.tasks.set i ⟨x.node, p⟩) hp, hn⟩

theorem Linked.spawn (hh : ∀ n, (h n).Simulates Effect.any R (h' n)) (stop : Effect → Bool) (x : Task α)
    (hu : u.Linked R v) : (u.spawn h stop x).Linked R (v.spawn h' stop x) := by
  unfold Schedule.spawn
  rw [hu.1]
  exact Linked.advance hh stop _ ⟨rfl, hu.2⟩

theorem Linked.play (hh : ∀ n, (h n).Simulates Effect.any R (h' n)) (stop : Effect → Bool)
    (tasks : List (Task α)) (turns : List Nat) (hR : R s t) :
    (play h stop tasks turns s).Linked R (play h' stop tasks turns t) := by
  have hspawned : Linked R (tasks.foldl (fun u x => u.spawn h stop x) (Schedule.start s))
      (tasks.foldl (fun u x => u.spawn h' stop x) (Schedule.start t)) :=
    List.foldl_rel (.start hR) fun x _ _ _ hu => hu.spawn hh stop x
  exact List.foldl_rel hspawned fun i _ _ _ hu => hu.advance hh stop i

theorem Linked.result? (hu : u.Linked R v) (i : Nat) : u.result? i = v.result? i := by
  unfold Schedule.result?
  rw [hu.1]

end Schedule

end AttestedVault
