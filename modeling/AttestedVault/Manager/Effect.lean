import AttestedVault.Manager.Error

/-!
# Effects

Key operations are programs: trees of effects whose answers come from a host.
One program runs alone, under faults, or interleaved with others, depending
only on who answers it.
-/

namespace AttestedVault

/-- The locks of a key manager. Encryption shares the gate and rotation has it
alone; everything that changes the store has the lifecycle lock. -/
inductive Lock
  | gate
  | lifecycle
  deriving DecidableEq, Repr

inductive LockMode
  | shared
  | exclusive
  deriving DecidableEq, Repr

inductive Effect
  /-- Asks for an attestation report. -/
  | attest
  /-- Reads the active record of the store. -/
  | readActive
  /-- Stores the first record. -/
  | create (r : KeyRecord)
  /-- Stores a record in place of the active one with this id. -/
  | replace (previous : String) (r : KeyRecord)
  /-- Draws random bytes. -/
  | draw (n : Nat)
  /-- Asks for a new record id and the time. -/
  | stamp
  | seal (key : Octets 32) (iv plaintext aad : Bytes)
  /-- Looks at the cached key. -/
  | cached
  | remember (dek : Dek)
  | forget
  | acquire (lock : Lock) (mode : LockMode)
  | release (lock : Lock)

/-- What an effect is answered with. -/
def Effect.Answer : Effect → Type
  | .attest => Except AttestationError AttestationReport
  | .readActive => Except StoreError (Option KeyRecord)
  | .create _ => Except StoreError Unit
  | .replace .. => Except StoreError Unit
  | .draw n => Except String (Octets n)
  | .stamp => String × Timestamp
  | .seal .. => Sealed
  | .cached => Option Dek
  | .remember _ => Unit
  | .forget => Unit
  | .acquire .. => Unit
  | .release _ => Unit

inductive Prog (α : Type)
  | done (a : α)
  | call (e : Effect) (k : e.Answer → Prog α)

namespace Prog

def bind {α β : Type} : Prog α → (α → Prog β) → Prog β
  | .done a, f => f a
  | .call e k, f => .call e fun x => (k x).bind f

instance : Monad Prog where
  pure := .done
  bind := bind

/-- A single effect. -/
def ask (e : Effect) : Prog e.Answer := .call e .done

end Prog

/-- A program that may fail. -/
abbrev Action (ε α : Type) := ExceptT ε Prog α

namespace Action

/-- A single effect, which by itself does not fail. -/
def ask {ε : Type} (e : Effect) : Action ε e.Answer := ExceptT.lift (Prog.ask e)

def ofExcept {ε ε' α : Type} (f : ε → ε') (r : Except ε α) : Action ε' α :=
  ExceptT.mk (.done (r.mapError f))

def mapError {ε ε' α : Type} (f : ε → ε') (a : Action ε α) : Action ε' α := ExceptT.adapt f a

/-- Runs `a` while holding a lock, which is given back also if `a` fails. -/
def holding {ε α : Type} (lock : Lock) (mode : LockMode) (a : Action ε α) : Action ε α :=
  ExceptT.mk do
    Prog.ask (.acquire lock mode)
    let r ← a.run
    Prog.ask (.release lock)
    pure r

def draw (n : Nat) : Action CryptoError (Octets n) := do
  ofExcept .random (← ask (.draw n))

def readActive : Action KeyError (Option KeyRecord) := do
  ofExcept .store (← ask .readActive)

def replace (previous : String) (r : KeyRecord) : Action KeyError Unit := do
  ofExcept .store (← ask (.replace previous r))

end Action

/-- Who answers effects, on a state of its own. -/
abbrev Handler (σ : Type) := (e : Effect) → StateM σ e.Answer

/-- Runs a program alone. -/
def Prog.run {σ α : Type} (h : Handler σ) : Prog α → StateM σ α
  | .done a => pure a
  | .call e k => fun s =>
    let (x, s) := h e s
    (k x).run h s

end AttestedVault
