import AttestedVault.Host.Node

/-!
# Fleets

Any number of managers with one store. Each has an attestor and a cache of its
own.
-/

namespace AttestedVault

structure Fleet where
  shared : Shared
  nodes : Nat → Node

namespace Fleet

/-- The surroundings of one manager. -/
def host (f : Fleet) (n : Nat) : Host := ⟨f.shared, f.nodes n⟩

/-- One manager's surroundings have changed. -/
def put (f : Fleet) (n : Nat) (h : Host) : Fleet := ⟨h.shared, fun m => if m = n then h.node else f.nodes m⟩

/-- Answers the effects of one manager. -/
def perform (n : Nat) : Handler Fleet := fun e f =>
  let (a, h) := Host.perform e (f.host n)
  (a, f.put n h)

@[simp] theorem shared_put (f : Fleet) (n : Nat) (h : Host) : (f.put n h).shared = h.shared := rfl

@[simp] theorem host_put (f : Fleet) (n : Nat) (h : Host) : (f.put n h).host n = h := by
  simp [host, put]

@[simp] theorem put_host (f : Fleet) (n : Nat) : f.put n (f.host n) = f := by
  unfold put host
  congr
  funext m
  split
  · subst m
    rfl
  · rfl

@[simp] theorem put_put (f : Fleet) (n : Nat) (h h' : Host) : (f.put n h).put n h' = f.put n h' := by
  simp only [put, mk.injEq, true_and]
  funext m
  split <;> rfl

theorem host_put_of_ne (f : Fleet) {n m : Nat} (h : Host) (hm : m ≠ n) :
    (f.put n h).host m = ⟨h.shared, f.nodes m⟩ := by
  simp [host, put, hm]

theorem forall_put {P : Nat → Node → Prop} {f : Fleet} {n : Nat} {h : Host} (hn : P n h.node)
    (ho : ∀ m ≠ n, P m (f.nodes m)) : ∀ m, P m ((f.put n h).nodes m) := by
  intro m
  by_cases hm : m = n
  · subst hm
    simpa [put] using hn
  · simpa [put, hm] using ho m hm

end Fleet

end AttestedVault
