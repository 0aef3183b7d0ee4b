import AttestedVault.Manager.Effect

/-!
# Interleaved programs

Several programs at once over one state. Locks are granted in the order in
which they were asked for, and a program that waits for one takes no step.
-/

namespace AttestedVault

/-- A place in the queue for a lock, kept until the lock is given back. -/
structure LockRequest where
  task : Nat
  node : Nat
  lock : Lock
  mode : LockMode
  deriving DecidableEq

namespace LockRequest

/-- The two cannot hold their locks at the same time. -/
def conflicts (a b : LockRequest) : Bool :=
  a.node == b.node && a.lock == b.lock && !(a.mode == .shared && b.mode == .shared)

/-- Joins the queue, unless it stands there already. -/
def join (r : LockRequest) (queue : List LockRequest) : List LockRequest :=
  if r ∈ queue then queue else queue ++ [r]

/-- Nobody before `r` in the queue is in conflict with it. -/
def granted (r : LockRequest) : List LockRequest → Bool
  | [] => false
  | q :: rest => q = r || (!r.conflicts q && granted r rest)

/-- The task gives a lock back. -/
def leave (task : Nat) (lock : Lock) (queue : List LockRequest) : List LockRequest :=
  queue.filter fun q => !(q.task == task && q.lock == lock)

end LockRequest

/-- The state that programs share, and who asked for which locks. -/
structure Contended (σ : Type) where
  state : σ
  queue : List LockRequest

namespace Contended

/-- The answer that a task gets to an effect, or `none` if it has to wait. -/
def answer {σ : Type} (h : Handler σ) (task node : Nat) :
    (e : Effect) → StateM (Contended σ) (Option e.Answer)
  | .acquire lock mode => fun c =>
    let r : LockRequest := ⟨task, node, lock, mode⟩
    let queue := r.join c.queue
    (if r.granted queue then some () else none, { c with queue := queue })
  | .release lock => fun c => (some (), { c with queue := LockRequest.leave task lock c.queue })
  | e => fun c =>
    let (a, s) := h e c.state
    (some a, { c with state := s })

end Contended

/-- Runs a program until it waits, is done, or comes to an effect to stop at.
Gives what is left of it. -/
def Prog.advance {σ α : Type} (h : Handler σ) (stop : Effect → Bool) (task node : Nat) :
    Prog α → StateM (Contended σ) (Prog α)
  | .done a => pure (.done a)
  | .call e k => fun c =>
    if stop e then (.call e k, c)
    else
      match Contended.answer h task node e c with
      | (some a, c) => (k a).advance h stop task node c
      | (none, c) => (.call e k, c)

def Prog.result? {α : Type} : Prog α → Option α
  | .done a => some a
  | .call .. => none

/-- A program that runs on a node. -/
structure Task (α : Type) where
  node : Nat
  prog : Prog α

structure Schedule (σ α : Type) where
  contended : Contended σ
  tasks : List (Task α)

namespace Schedule

variable {σ α : Type}

def start (s : σ) : Schedule σ α := ⟨⟨s, []⟩, []⟩

/-- Runs one task as far as it gets. -/
def advance (h : Nat → Handler σ) (stop : Effect → Bool) (task : Nat) (s : Schedule σ α) :
    Schedule σ α :=
  match s.tasks[task]? with
  | none => s
  | some t =>
    let (p, c) := t.prog.advance (h t.node) stop task t.node s.contended
    ⟨c, s.tasks.set task { t with prog := p }⟩

/-- Adds a task and runs it as far as it gets. -/
def spawn (h : Nat → Handler σ) (stop : Effect → Bool) (t : Task α) (s : Schedule σ α) :
    Schedule σ α :=
  advance h stop s.tasks.length { s with tasks := s.tasks ++ [t] }

/-- A task gives a lock back. -/
def release (task : Nat) (lock : Lock) (s : Schedule σ α) : Schedule σ α :=
  { s with contended := { s.contended with queue := LockRequest.leave task lock s.contended.queue } }

/-- One turn for every task. -/
def round (h : Nat → Handler σ) (s : Schedule σ α) : Schedule σ α :=
  (List.range s.tasks.length).foldl (fun s i => advance h (fun _ => false) i s) s

/-- As many rounds as there are tasks: in each of them one that holds its locks
comes to an end. -/
def finish (h : Nat → Handler σ) (s : Schedule σ α) : Schedule σ α :=
  s.tasks.foldl (fun s _ => round h s) s

/-- The result of a task that is done. -/
def result? (s : Schedule σ α) (task : Nat) : Option α :=
  (s.tasks[task]?).bind fun t => t.prog.result?

end Schedule

end AttestedVault
