import AttestedVault.Proofs.Solo

/-!
# The progress of an operation

What an operation has drawn and read decides what it may store. A first record
is stored where none was seen, and a record takes the place of the one that was
seen last. An operation stores one record at most.
-/

namespace AttestedVault

variable {ε ε' α β : Type}

inductive Change
  | rotation
  | migration
  deriving DecidableEq

namespace Change

def version : Change → String → String
  | rotation => KeyVersion.next
  | migration => id

end Change

namespace Operation

def change? : Operation ε α → Option Change
  | rotate | rotateWith .. => some .rotation
  | migrate _ => some .migration
  | _ => none

end Operation

/-- The record that the host has stored, if the answer is that it did. -/
def Effect.stored? : (e : Effect) → e.Answer → Option KeyRecord
  | .create r, x => if Except.isOk (x : Except StoreError Unit) then some r else none
  | .replace _ r, x => if Except.isOk (x : Except StoreError Unit) then some r else none
  | _, _ => none

structure Progress where
  /-- The ids that were handed out. -/
  ids : List String
  /-- The record that was active when the store was last read. -/
  seen : Option KeyRecord
  stored : Bool

namespace Progress

def start : Progress := ⟨[], none, false⟩

def noteIds (g : Progress) : (e : Effect) → e.Answer → List String
  | .stamp, x => x.1 :: g.ids
  | _, _ => g.ids

def noteSeen (g : Progress) : (e : Effect) → e.Answer → Option KeyRecord
  | .readActive, x =>
    match (x : Except StoreError (Option KeyRecord)) with
    | .ok o => o
    | .error _ => none
  | _, _ => g.seen

def note (g : Progress) (e : Effect) (x : e.Answer) : Progress :=
  match e.stored? x with
  | some _ => { g with stored := true }
  | none => ⟨g.noteIds e x, g.noteSeen e x, g.stored⟩

structure Mints (g : Progress) (r : KeyRecord) : Prop where
  once : g.stored = false
  active : r.active = true
  drawn : r.id ∈ g.ids

/-- What an operation may do to the store from here. -/
def Permits (change : Option Change) (g : Progress) : Effect → Prop
  | .create r => g.Mints r ∧ change = none ∧ g.seen = none ∧ r.version = KeyVersion.first
  | .replace previous r => g.Mints r ∧ ∃ c q, change = some c ∧ g.seen = some q ∧ previous = q.id ∧
    r.version = c.version q.version
  | _ => True

structure Extends (g g' : Progress) : Prop where
  ids : ∀ x ∈ g.ids, x ∈ g'.ids
  seen : g'.seen = g.seen
  stored : g'.stored = g.stored

variable {g g' g'' : Progress}

theorem Extends.refl (g : Progress) : g.Extends g := ⟨fun _ h => h, rfl, rfl⟩

theorem Extends.trans (h : g.Extends g') (h' : g'.Extends g'') : g.Extends g'' :=
  ⟨fun x hx => h'.ids x (h.ids x hx), h'.seen.trans h.seen, h'.stored.trans h.stored⟩

end Progress

/-! ## Kinds of effects -/

namespace Effect

def isWrite : Effect → Bool
  | create _ | replace .. => true
  | _ => false

/-- Neither looks at the records nor changes them. -/
def isAside : Effect → Bool
  | readActive | create _ | replace .. => false
  | _ => true

def isSilent : Effect → Bool
  | stamp | readActive | create _ | replace .. => false
  | _ => true

end Effect

theorem Progress.note_of_silent {e : Effect} (he : e.isSilent = true) (g : Progress) (x : e.Answer) :
    g.note e x = g := by
  cases e <;> first | rfl | cases he

theorem Progress.extends_note {e : Effect} (he : e.isAside = true) (g : Progress) (x : e.Answer) :
    g.Extends (g.note e x) := by
  by_cases hs : e.isSilent = true
  · rw [g.note_of_silent hs x]
    exact .refl g
  · cases e with
    | stamp => exact ⟨fun _ h => .tail _ h, rfl, rfl⟩
    | _ => first | exact absurd rfl hs | cases he

theorem Progress.permits_of_not_write {e : Effect} (he : e.isWrite = false) (change : Option Change)
    (g : Progress) : g.Permits change e := by
  cases e <;> trivial

theorem Prog.Only.imp {kind kind' : Effect → Bool} (hk : ∀ e, kind e = true → kind' e = true) {p : Prog α}
    (h : p.Only kind) : p.Only kind' := by
  induction p with
  | done a => trivial
  | call e k ih => exact ⟨hk e h.1, fun x => ih x (h.2 x)⟩

/-! ## Programs -/

namespace Prog

/-- Whatever it is answered, the program does to the store what it may, and ends
like this. -/
def Follows (change : Option Change) (post : Progress → α → Prop) : Progress → Prog α → Prop
  | g, .done a => post g a
  | g, .call e k => g.Permits change e ∧ ∀ x, (k x).Follows change post (g.note e x)

variable {change : Option Change} {post : Progress → α → Prop} {g : Progress}

theorem Follows.bind {p : Prog β} {f : β → Prog α} {P : Progress → β → Prop} (hp : p.Follows change P g)
    (hf : ∀ g' b, P g' b → (f b).Follows change post g') : (p.bind f).Follows change post g := by
  induction p generalizing g with
  | done b => exact hf g b hp
  | call e k ih => exact ⟨hp.1, fun x => ih x (hp.2 x)⟩

theorem Follows.imp {p : Prog α} {post' : Progress → α → Prop} (hp : p.Follows change post' g)
    (h : ∀ g' a, post' g' a → post g' a) : p.Follows change post g := by
  have hb : (p.bind .done).Follows change post g := hp.bind h
  rwa [bind_done] at hb

theorem Follows.silent {e : Effect} {k : e.Answer → Prog α} (he : e.isSilent = true)
    (hk : ∀ x, (k x).Follows change post g) : (call e k).Follows change post g := by
  refine ⟨?_, fun x => ?_⟩
  · cases e <;> trivial
  · rw [g.note_of_silent he x]
    exact hk x

theorem follows_of_aside {p : Prog α} (hp : p.Only Effect.isAside) :
    p.Follows change (fun g' _ => g.Extends g') g := by
  induction p generalizing g with
  | done a => exact .refl g
  | call e k ih =>
    refine ⟨Progress.permits_of_not_write ?_ change g, fun x => ?_⟩
    · have he := hp.1
      cases e <;> first | rfl | cases he
    · exact (ih x (hp.2 x)).imp fun g' _ h => (g.extends_note hp.1 x).trans h

theorem follows_of_reading {p : Prog α} (hp : p.Only fun e => !e.isWrite) :
    p.Follows change (fun _ _ => True) g := by
  induction p generalizing g with
  | done a => trivial
  | call e k ih => exact ⟨Progress.permits_of_not_write (by simpa using hp.1) change g, fun x => ih x (hp.2 x)⟩

end Prog

/-! ## Actions -/

namespace Action

def Follows (change : Option Change) (post : Progress → Except ε α → Prop) (g : Progress) (a : Action ε α) : Prop :=
  a.run.Follows change post g

namespace Follows

variable {change : Option Change} {post : Progress → Except ε α → Prop} {g : Progress}

theorem bind {a : Action ε β} {f : β → Action ε α} {P : Progress → Except ε β → Prop}
    (ha : a.Follows change P g) (hok : ∀ g' x, P g' (.ok x) → (f x).Follows change post g')
    (herr : ∀ g' e, P g' (.error e) → post g' (.error e)) : (a >>= f).Follows change post g := by
  refine Prog.Follows.bind ha fun g' r hr => ?_
  cases r with
  | ok x => exact hok g' x hr
  | error e => exact herr g' e hr

theorem bind_mapError {l : ε' → ε} {a : Action ε' β} {f : β → Action ε α} {P : Progress → Except ε' β → Prop}
    (ha : a.Follows change P g) (hok : ∀ g' x, P g' (.ok x) → (f x).Follows change post g')
    (herr : ∀ g' e, P g' (.error e) → post g' (.error (l e))) :
    (Action.mapError l a >>= f).Follows change post g := by
  refine bind (P := fun g' r => (∀ x, r = .ok x → P g' (.ok x)) ∧
    ∀ e, r = .error e → post g' (.error e)) ?_ (fun g' x h => hok g' x (h.1 x rfl)) fun g' e h => h.2 e rfl
  refine Prog.Follows.bind ha fun g' r hr => ?_
  cases r with
  | ok x =>
    refine ⟨fun y hy => ?_, fun e he => (by cases he)⟩
    cases hy
    exact hr
  | error e =>
    refine ⟨fun y hy => (by cases hy), fun e' he => ?_⟩
    cases he
    exact herr g' e hr

theorem holding {a : Action ε α} (lock : Lock) (mode : LockMode) (h : a.Follows change post g) :
    (holding lock mode a).Follows change post g := by
  apply Prog.Follows.silent rfl
  intro _
  refine Prog.Follows.bind (p := a.run) h fun g' r hr => ?_
  exact Prog.Follows.silent (e := .release lock) rfl fun _ => hr

theorem create {r : KeyRecord} {f : (Effect.create r).Answer → Action ε α} (hp : g.Permits change (.create r))
    (hf : ∀ x, (f x).Only fun e => !e.isWrite) :
    (ask (.create r) >>= f).Follows change (fun _ _ => True) g :=
  ⟨hp, fun x => Prog.follows_of_reading (hf x)⟩

theorem aside {a : Action ε β} {f : β → Action ε α} (ha : a.Only Effect.isAside)
    (hf : ∀ g' x, g.Extends g' → (f x).Follows change post g')
    (herr : ∀ g' e, g.Extends g' → post g' (.error e)) : (a >>= f).Follows change post g :=
  bind (Prog.follows_of_aside ha) (fun g' x h => hf g' x h) fun g' e h => herr g' e h

end Follows

end Action

/-! ## Operations -/

theorem Prog.Only.aside {p : Prog α} (h : p.Only Effect.isLocal) : p.Only Effect.isAside :=
  h.imp fun e he => by cases e <;> first | rfl | cases he

theorem Prog.Only.reading {p : Prog α} (h : p.Only Effect.isQuiet) : p.Only fun e => !e.isWrite :=
  h.imp fun e he => by cases e <;> first | rfl | cases he

theorem wrapDek_local (dek : Dek) (key : MasterKey) (c : Option WrapContext) :
    (wrapDek dek key c).Only Effect.isLocal :=
  .bind (Action.draw_local 12) fun _ => .bind (.ask rfl) fun _ => .pure _

namespace KeyManager

open AttestedVault.Action

variable {change : Option Change} {g : Progress}

theorem currentMasterKey_aside : currentMasterKey.Only Effect.isAside :=
  .bind (.ask rfl) fun _ => .bind (.ofExcept _ _) fun _ => .ofExcept _ _

theorem sealRecord_follows (dek : Dek) (key : MasterKey) (version : String) :
    (sealRecord dek key version).Follows change (fun g' x => g.Extends g' ∧
      ∀ r, x = .ok r → r.active = true ∧ r.id ∈ g'.ids ∧ r.version = version) g := by
  refine .aside (wrapDek_local dek key _).aside (fun g' w hg => ⟨trivial, fun x => ?_⟩) fun _ _ hg =>
    ⟨hg, fun _ hr => by cases hr⟩
  refine ⟨hg.trans (g'.extends_note rfl x), fun r hr => ?_⟩
  cases hr
  exact ⟨rfl, .head _, rfl⟩

theorem activeRecord_follows : activeRecord.Follows change
    (fun g' x => g'.stored = g.stored ∧ ∀ r, x = .ok r → g'.seen = some r) g := by
  refine ⟨trivial, fun x => ?_⟩
  cases (x : Except StoreError (Option KeyRecord)) with
  | error e => exact ⟨rfl, fun _ hr => by cases hr⟩
  | ok o =>
    cases o with
    | none => exact ⟨rfl, fun _ hr => by cases hr⟩
    | some r =>
      refine ⟨rfl, fun r' hr => ?_⟩
      cases hr
      rfl

def Settles (g : Progress) (r : Except ε α) : Prop := Except.isOk r = g.stored

theorem settles_error (hg : g.stored = false) (e : ε) : Settles g (.error e : Except ε α) := hg.symm

theorem replace_follows {c : Change} {q r : KeyRecord} (hm : g.Mints r) (hs : g.seen = some q)
    (hv : r.version = c.version q.version) : (replace q.id r).Follows (some c) Settles g := by
  refine ⟨⟨hm, c, q, rfl, hs, rfl, hv⟩, fun x => ?_⟩
  cases (x : Except StoreError Unit) with
  | ok u => rfl
  | error e => exact settles_error hm.once _

theorem rotateWith_follows {lift : KeyError → ε} (c : Closure ε α) (hg : g.stored = false) :
    (rotateWith lift c.act).Follows (some .rotation) Settles g := by
  refine .holding _ _ (.holding _ _ ?_)
  refine .aside (.mapError _ currentMasterKey_aside) (fun g₁ key h₁ => ?_)
    fun _ _ h => settles_error (h.stored.trans hg) _
  have hg₁ := h₁.stored.trans hg
  refine .bind_mapError activeRecord_follows (fun g₂ current h₂ => ?_)
    fun _ _ h => settles_error (h.1.trans hg₁) _
  have hg₂ := h₂.1.trans hg₁
  refine .aside (.ofExcept _ _) (fun g₃ old h₃ => ?_) fun _ _ h => settles_error (h.stored.trans hg₂) _
  have hg₃ := h₃.stored.trans hg₂
  refine .aside (.mapError _ generateDek_local.aside) (fun g₄ dek h₄ => ?_)
    fun _ _ h => settles_error (h.stored.trans hg₃) _
  have hg₄ := h₄.stored.trans hg₃
  refine .bind_mapError (sealRecord_follows dek key _) (fun g₅ r h₅ => ?_)
    fun _ _ h => settles_error (h.1.stored.trans hg₄) _
  have hg₅ := h₅.1.stored.trans hg₄
  refine .aside (c.isLocal old dek).aside (fun g₆ result h₆ => ?_) fun _ _ h => settles_error (h.stored.trans hg₅) _
  obtain ⟨ha, hid, hv⟩ := h₅.2 r rfl
  have hm : g₆.Mints r := ⟨h₆.stored.trans hg₅, ha, h₆.ids _ hid⟩
  -- nothing has been read since the active record was
  have hseen : g₆.seen = some current :=
    (((h₃.trans h₄).trans h₅.1).trans h₆).seen.trans (h₂.2 current rfl)
  refine .bind_mapError (replace_follows hm hseen hv) (fun g₇ _ h₇ => ?_) fun _ _ h => h
  exact Prog.Follows.silent rfl fun _ => h₇

theorem rotate_follows (hg : g.stored = false) : rotate.Follows (some .rotation) Settles g :=
  .bind (rotateWith_follows (.ofExcept (.ok ())) hg) (fun _ _ h => h) fun _ _ h => h

theorem migrate_follows (oldKey : MasterKey) (hg : g.stored = false) :
    (migrate oldKey).Follows (some .migration) Settles g := by
  refine .holding _ _ ?_
  refine .aside currentMasterKey_aside (fun g₁ key h₁ => ?_) fun _ _ h => settles_error (h.stored.trans hg) _
  have hg₁ := h₁.stored.trans hg
  refine .bind activeRecord_follows (fun g₂ current h₂ => ?_) fun _ _ h => settles_error (h.1.trans hg₁) _
  have hg₂ := h₂.1.trans hg₁
  refine .aside (.ofExcept _ _) (fun g₃ stored h₃ => ?_) fun _ _ h => settles_error (h.stored.trans hg₂) _
  have hg₃ := h₃.stored.trans hg₂
  by_cases hs : stored = key.id
  · rw [if_pos hs]
    exact settles_error hg₃ _
  rw [if_neg hs]
  refine .aside (.ofExcept _ _) (fun g₄ dek h₄ => ?_) fun _ _ h => settles_error (h.stored.trans hg₃) _
  have hg₄ := h₄.stored.trans hg₃
  refine .bind_mapError (sealRecord_follows dek key _) (fun g₅ r h₅ => ?_)
    fun _ _ h => settles_error (h.1.stored.trans hg₄) _
  obtain ⟨ha, hid, hv⟩ := h₅.2 r rfl
  have hm : g₅.Mints r := ⟨h₅.1.stored.trans hg₄, ha, hid⟩
  have hseen : g₅.seen = some current := ((h₃.trans h₄).trans h₅.1).seen.trans (h₂.2 current rfl)
  refine .bind (replace_follows hm hseen hv) (fun g₆ _ h₆ => ?_) fun _ _ h => h
  exact Prog.Follows.silent rfl fun _ => h₆

theorem bootstrap_follows (key : MasterKey) (hg : g.stored = false) (hs : g.seen = none) :
    (bootstrap key).Follows none (fun _ _ => True) g := by
  refine .aside (.mapError _ generateDek_local.aside) (fun g₁ dek h₁ => ?_) fun _ _ _ => trivial
  refine .bind_mapError (sealRecord_follows dek key _) (fun g₂ r h₂ => ?_) fun _ _ _ => trivial
  obtain ⟨ha, hid, hv⟩ := h₂.2 r rfl
  have h := h₁.trans h₂.1
  refine .create ⟨⟨h.stored.trans hg, ha, hid⟩, rfl, h.seen.trans hs, hv⟩ fun x => ?_
  cases (x : Except StoreError Unit) with
  | ok u => exact .pure _
  | error e =>
    by_cases he : e = .activeRecordExists
    · subst he
      refine .bind readActive_quiet.reading fun o => ?_
      cases o with
      | none => exact .throw _
      | some r => exact .ofExcept _ _
    · cases e <;> first | exact absurd rfl he | exact .throw _

theorem loadDek_follows (hg : g.stored = false) : loadDek.Follows none (fun _ _ => True) g := by
  refine .aside currentMasterKey_aside (fun g₁ key h₁ => ⟨trivial, fun x => ?_⟩) fun _ _ _ => trivial
  cases (x : Except StoreError (Option KeyRecord)) with
  | error e => trivial
  | ok o =>
    cases o with
    | some r => trivial
    | none => exact bootstrap_follows key (h₁.stored.trans hg) rfl

theorem currentDek_follows (hg : g.stored = false) : currentDek.Follows none (fun _ _ => True) g := by
  refine Prog.Follows.silent (e := .cached) rfl fun c => ?_
  cases (c : Option Dek) with
  | some dek => trivial
  | none =>
    refine Action.Follows.holding _ _ (Prog.Follows.silent (e := .cached) rfl fun c => ?_)
    cases (c : Option Dek) with
    | some dek => trivial
    | none =>
      refine Action.Follows.bind (loadDek_follows hg) (fun g' dek _ => ?_) fun _ _ _ => trivial
      exact Prog.Follows.silent (e := .remember dek) rfl fun _ => trivial

theorem lease_follows (hg : g.stored = false) : lease.Follows none (fun _ _ => True) g := by
  refine Prog.Follows.silent (e := .acquire .gate .shared) rfl fun _ => ?_
  refine Prog.Follows.bind (p := currentDek.run) (currentDek_follows hg) fun g' r _ => ?_
  cases r with
  | ok dek => trivial
  | error e => exact Prog.Follows.silent (e := .release .gate) rfl fun _ => trivial

end KeyManager

namespace Operation

/-- The operation as a program, which returns whether it succeeded. -/
def attempt (op : Operation ε α) : Prog Bool := op.action.run.bind fun r => .done (Except.isOk r)

def Ends (op : Operation ε α) (g : Progress) (ok : Bool) : Prop := op.change? ≠ none → ok = g.stored

theorem attempt_follows (op : Operation ε α) : op.attempt.Follows op.change? op.Ends .start := by
  cases op with
  | currentDek => exact Prog.Follows.bind (KeyManager.currentDek_follows rfl) fun _ _ _ h => absurd rfl h
  | lease => exact Prog.Follows.bind (KeyManager.lease_follows rfl) fun _ _ _ h => absurd rfl h
  | rotate => exact Prog.Follows.bind (KeyManager.rotate_follows rfl) fun _ _ h _ => h
  | rotateWith lift c => exact Prog.Follows.bind (KeyManager.rotateWith_follows c rfl) fun _ _ h _ => h
  | migrate oldKey => exact Prog.Follows.bind (KeyManager.migrate_follows oldKey rfl) fun _ _ h _ => h
  | currentMasterKeyId =>
    exact Prog.Follows.bind (Prog.follows_of_reading KeyManager.currentMasterKeyId_quiet.reading)
      fun _ _ _ h => absurd rfl h
  | state =>
    exact Prog.Follows.bind (Prog.follows_of_reading KeyManager.state_quiet.reading) fun _ _ _ h => absurd rfl h

end Operation

end AttestedVault
