import AttestedVault.Attestation.Provider
import AttestedVault.Host.Random
import AttestedVault.Manager.Effect
import AttestedVault.Store.Basic

/-!
# Hosts

What answers the effects of a key manager: the store, the randomness and the
clock that all managers share, and the attestation and the cache of its own.
-/

namespace AttestedVault

inductive Attestor
  /-- Replies by the number of the request. -/
  | scripted (reply : Nat → Except AttestationError AttestationReport)
  | provider (p : Provider) (net : Network)

namespace Attestor

/-- The reply to the request of this number. -/
def report (number : Nat) : Attestor → Except AttestationError AttestationReport × Attestor
  | a@(scripted reply) => (reply number, a)
  | provider p net =>
    let ((r, p), net) := p.report net
    (r, .provider p net)

end Attestor

/-- What all managers have in common. -/
structure Shared where
  store : Store
  random : Random
  /-- The ids and creation times of new records, in order. -/
  stamps : Nat → String × Timestamp
  stamped : Nat
  /-- Keys and initial values of the seals so far. -/
  seals : List (Octets 32 × Bytes)

/-- Store calls that fail instead of being made, by their number. -/
structure Faults where
  read : Nat → Option StoreError
  create : Nat → Option StoreError
  replace : Nat → Option StoreError

def Faults.none : Faults := ⟨fun _ => .none, fun _ => .none, fun _ => .none⟩

/-- What one manager has for itself. The counts include calls that failed. -/
structure Node where
  attestor : Attestor
  cache : Option Dek
  faults : Faults
  asked : Nat
  reads : Nat
  writes : Nat

namespace Node

/-- A manager that has just started. -/
def fresh (a : Attestor) : Node := ⟨a, none, .none, 0, 0, 0⟩

end Node

/-- A manager's surroundings. -/
structure Host where
  shared : Shared
  node : Node

namespace Host

/-- A call that changes the store, unless a fault comes before it. -/
def write (fault : Option StoreError) (call : Store → Except StoreError Store) :
    StateM Host (Except StoreError Unit) := fun h =>
  let node := { h.node with writes := h.node.writes + 1 }
  match fault with
  | some e => (.error e, ⟨h.shared, node⟩)
  | none =>
    let (r, store) := h.shared.store.settle call
    (r, ⟨{ h.shared with store := store }, node⟩)

/-- Answers effects. Locks are not contended. -/
def perform : Handler Host
  | .attest => fun h =>
    let (r, a) := h.node.attestor.report h.node.asked
    (r, { h with node := { h.node with attestor := a, asked := h.node.asked + 1 } })
  | .readActive => fun h =>
    let r := match h.node.faults.read h.node.reads with
      | some e => .error e
      | none => h.shared.store.active?
    (r, { h with node := { h.node with reads := h.node.reads + 1 } })
  | .create r => fun h => write (h.node.faults.create h.node.writes) (Store.create r) h
  | .replace previous r => fun h =>
    write (h.node.faults.replace h.node.writes) (Store.replace previous r) h
  | .draw n => fun h =>
    let (b, random) := h.shared.random.draw n
    (b, { h with shared := { h.shared with random := random } })
  | .stamp => fun h =>
    (h.shared.stamps h.shared.stamped,
      { h with shared := { h.shared with stamped := h.shared.stamped + 1 } })
  | .seal key iv plaintext aad => fun h =>
    (Sealed.make key iv plaintext aad,
      { h with shared := { h.shared with seals := (key, iv) :: h.shared.seals } })
  | .cached => fun h => (h.node.cache, h)
  | .remember dek => fun h => ((), { h with node := { h.node with cache := some dek } })
  | .forget => fun h => ((), { h with node := { h.node with cache := none } })
  | .acquire .. => fun h => ((), h)
  | .release _ => fun h => ((), h)

end Host

end AttestedVault
