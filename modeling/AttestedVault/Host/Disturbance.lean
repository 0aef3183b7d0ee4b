import AttestedVault.Host.Node
import AttestedVault.Manager.Lifecycle

/-!
# Disturbed hosts

Surroundings that interfere: the active record is altered on its way to the
manager, or a rival creates the first key at the last moment.
-/

namespace AttestedVault

structure DisturbedHost where
  host : Host
  alter : KeyRecord → KeyRecord
  /-- The manager that gets in before the next call that creates a record. -/
  rival : Option Node

namespace DisturbedHost

/-- The rival looks for its key on the shared store. -/
def compete (n : Node) (s : Shared) : Shared := (KeyManager.currentDek.run.run Host.perform ⟨s, n⟩).2.shared

/-- Answers an effect on the host within. -/
def undisturbed (e : Effect) : StateM DisturbedHost e.Answer := fun d =>
  let (a, h) := Host.perform e d.host
  (a, { d with host := h })

/-- Answers effects. A creation that is to fail anyway leaves the rival waiting. -/
def perform : Handler DisturbedHost
  | .readActive => fun d =>
    let (r, d) := undisturbed .readActive d
    (r.map fun o => o.map d.alter, d)
  | .create r => fun d =>
    match d.rival, d.host.node.faults.create d.host.node.writes with
    | some n, none =>
      let host := { d.host with shared := compete n d.host.shared }
      undisturbed (.create r) { d with host := host, rival := none }
    | _, _ => undisturbed (.create r) d
  | e => undisturbed e

end DisturbedHost

end AttestedVault
