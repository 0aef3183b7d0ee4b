import AttestedVault.Proofs.Succession
import AttestedVault.Store.Basic

/-!
# The history of a store

Calls on a store, one after the other. Whatever the calls are, the records stay
in the order in which they were stored, the last one is the active one, and a
retired record stays retired.
-/

namespace AttestedVault

def KeyRecord.blank (id : String) : KeyRecord :=
  ⟨id, "", "", "", "", "", false, ⟨⟨.ofNat 1970, 1, 1⟩, ⟨0, 0, 0⟩, rfl, rfl⟩⟩

inductive StoreCall
  | create (r : KeyRecord)
  | replace (previous : String) (r : KeyRecord)
  | active
  | hasActive
  | list

inductive StoreAnswer
  | done
  | record (r : Option KeyRecord)
  | flag (b : Bool)
  | records (rs : List KeyRecord)
  deriving DecidableEq

namespace Store

def change (s : Store) (f : Store → Except StoreError Store) : Except StoreError StoreAnswer × Store :=
  ((s.settle f).1.map fun _ => .done, (s.settle f).2)

def call (s : Store) : StoreCall → Except StoreError StoreAnswer × Store
  | .create r => s.change (create r)
  | .replace previous r => s.change (replace previous r)
  | .active => (s.active?.map .record, s)
  | .hasActive => (s.hasActive.map .flag, s)
  | .list => (s.list.map .records, s)

def answers (s : Store) : List StoreCall → List (Except StoreError StoreAnswer)
  | [] => []
  | c :: cs => (s.call c).1 :: (s.call c).2.answers cs

def after (s : Store) : List StoreCall → Store
  | [] => s
  | c :: cs => (s.call c).2.after cs

theorem after_append (cs more : List StoreCall) : ∀ s : Store, s.after (cs ++ more) = (s.after cs).after more := by
  induction cs with
  | nil => intro s; rfl
  | cons c cs ih => intro s; exact ih (s.call c).2

/-- How a store gives a record back. A table cannot read the time of creation in
a year that takes more than four digits or a sign. -/
def readBack : Store → Option KeyRecord → Except StoreError (Option KeyRecord)
  | table _, some r =>
    if r.createdAt.FourDigitYear then .ok (some r) else .error (.corrupt (r.id ++ ": created_at"))
  | _, o => .ok o

end Store

inductive StoreCall.Changes : StoreCall → List KeyRecord → List KeyRecord → Prop
  | create (r : KeyRecord) : Changes (.create r) [] [r.activate]
  | replace (before : List KeyRecord) (q r : KeyRecord) (active : q.active = true) :
    Changes (.replace q.id r) (before ++ [q]) (before ++ [q.retire, r.activate])
  | active (rs : List KeyRecord) : Changes .active rs rs
  | hasActive (rs : List KeyRecord) : Changes .hasActive rs rs
  | list (rs : List KeyRecord) : Changes .list rs rs

/-- The last record is active, and no other one is. -/
def LastActive (rs : List KeyRecord) : Prop :=
  rs = [] ∨ ∃ before q, rs = before ++ [q] ∧ q.active = true ∧ ∀ p ∈ before, p.active = false

/-- Every record is where it was, the same or with its flag cleared. -/
def Extends (rs rs' : List KeyRecord) : Prop :=
  ∀ (i : Nat) (q : KeyRecord), rs[i]? = some q → rs'[i]? = some q ∨ rs'[i]? = some q.retire

namespace Extends

theorem refl (rs : List KeyRecord) : Extends rs rs := fun _ _ h => .inl h

theorem trans {rs₁ rs₂ rs₃ : List KeyRecord} (h₁ : Extends rs₁ rs₂) (h₂ : Extends rs₂ rs₃) :
    Extends rs₁ rs₃ := by
  intro i q hq
  rcases h₁ i q hq with h | h
  · exact h₂ i q h
  · rcases h₂ i q.retire h with h | h
    · exact .inr h
    · exact .inr h

end Extends

theorem StoreCall.Changes.extends {c : StoreCall} {rs rs' : List KeyRecord} (h : c.Changes rs rs') :
    Extends rs rs' := by
  cases h with
  | create r => intro i q hq; simp at hq
  | active | hasActive | list => exact .refl rs
  | replace before q r active =>
    intro i p hp
    rcases Nat.lt_trichotomy i before.length with hi | hi | hi
    · rw [List.getElem?_append_left hi] at hp ⊢
      exact .inl hp
    · subst hi
      have hq : q = p := by simpa using hp
      exact .inr (by simp [hq])
    · have hlen : (before ++ [q]).length ≤ i := by simp; omega
      rw [List.getElem?_eq_none hlen] at hp
      cases hp

/-! ## One call -/

theorem getLast?_succession (rs : List KeyRecord) : (succession rs).getLast? = rs.getLast?.map (·.activate) := by
  rcases List.eq_nil_or_concat rs with rfl | ⟨rs, r, rfl⟩
  · rfl
  · simp [List.concat_eq_append, succession_concat]

theorem lastActive_succession (rs : List KeyRecord) : LastActive (succession rs) := by
  rcases List.eq_nil_or_concat rs with rfl | ⟨rs, r, rfl⟩
  · exact .inl rfl
  · rw [List.concat_eq_append, succession_concat]
    exact .inr ⟨_, _, rfl, rfl, MemoryStore.active_retire⟩

theorem StoreCall.changes_replace {rs : List KeyRecord} {q : KeyRecord} (h : rs.getLast? = some q)
    (r : KeyRecord) : Changes (.replace q.id r) (succession rs) (succession (rs ++ [r])) := by
  obtain ⟨before, rfl⟩ := List.getLast?_eq_some_iff.mp h
  have hc := Changes.replace (before.map (·.retire)) q.activate r rfl
  rw [succession_concat, succession_concat, List.map_append, List.append_assoc]
  exact hc

namespace Store

variable {s : Store} {rs : List KeyRecord}

theorem Contains.active?_eq (h : s.Contains (succession rs)) :
    s.active? = s.readBack (succession rs).getLast? := by
  rw [getLast?_succession]
  cases s with
  | found s => exact h.elim
  | memory s =>
    cases h
    exact congrArg Except.ok (MemoryStore.active?_eq rs)
  | table s =>
    cases h
    change TableStore.active? _ = _
    rw [TableStore.active?_eq]
    cases rs.getLast? with
    | none => rfl
    | some r =>
      have hy : r.activate.createdAt = r.createdAt := rfl
      simp only [readBack, Option.map_some, TableRow.toRecord_stored, hy]
      split <;> rfl

theorem change_of_error {f : Store → Except StoreError Store} {e : StoreError} (h : f s = .error e) :
    s.change f = (.error e, s) := by
  simp [change, settle, h, Except.map]

theorem change_of_ok {f : Store → Except StoreError Store} {s' : Store} (h : f s = .ok s') :
    s.change f = (.ok .done, s') := by
  simp [change, settle, h, Except.map]

theorem Contains.call (h : s.Contains (succession rs)) (c : StoreCall) :
    (∃ e, s.call c = (.error e, s)) ∨
    ∃ a s' rs', s.call c = (.ok a, s') ∧ c.Changes (succession rs) (succession rs') ∧
      s'.Contains (succession rs') := by
  cases c with
  | create r =>
    cases hc : s.create r with
    | error e => exact .inl ⟨e, change_of_error hc⟩
    | ok s' =>
      obtain ⟨rfl, hs⟩ := h.create hc
      exact .inr ⟨.done, s', [r], change_of_ok hc, .create r, hs⟩
  | replace previous r =>
    cases hc : s.replace previous r with
    | error e => exact .inl ⟨e, change_of_error hc⟩
    | ok s' =>
      obtain ⟨⟨q, hq, rfl⟩, hs⟩ := h.replace hc
      exact .inr ⟨.done, s', rs ++ [r], change_of_ok hc,
        StoreCall.changes_replace hq r, hs⟩
  | active =>
    cases hc : s.active? with
    | error e => exact .inl ⟨e, by simp [Store.call, hc, Except.map]⟩
    | ok o => exact .inr ⟨.record o, s, rs, by simp [Store.call, hc, Except.map], .active _, h⟩
  | hasActive =>
    cases hc : s.hasActive with
    | error e => exact .inl ⟨e, by simp [Store.call, hc, Except.map]⟩
    | ok b => exact .inr ⟨.flag b, s, rs, by simp [Store.call, hc, Except.map], .hasActive _, h⟩
  | list =>
    cases hc : s.list with
    | error e => exact .inl ⟨e, by simp [Store.call, hc, Except.map]⟩
    | ok qs => exact .inr ⟨.records qs, s, rs, by simp [Store.call, hc, Except.map], .list _, h⟩

/-! ## A row of calls -/

theorem Contains.after (h : s.Contains (succession rs)) (cs : List StoreCall) :
    ∃ rs', (s.after cs).Contains (succession rs') ∧ Extends (succession rs) (succession rs') := by
  induction cs generalizing s rs with
  | nil => exact ⟨rs, h, .refl _⟩
  | cons c cs ih =>
    unfold Store.after
    rcases h.call c with ⟨e, he⟩ | ⟨a, s', rs', ha, hchg, hs⟩
    · rw [he]
      exact ih h
    · rw [ha]
      obtain ⟨rs'', hs'', hext⟩ := ih hs
      exact ⟨rs'', hs'', hchg.extends.trans hext⟩

theorem contains_empty (h : s = .memory .empty ∨ s = .table .empty) : s.Contains (succession []) := by
  rcases h with rfl | rfl
  · rfl
  · rfl

/-- Whatever is called on an empty store: the last record is the active one and
is what is read, a call that fails changes nothing, one that succeeds makes its
one change, and later calls only add records and clear flags. -/
theorem records_kept (h : s = .memory .empty ∨ s = .table .empty) (cs : List StoreCall) :
    ∃ rs, (s.after cs).Contains rs ∧ LastActive rs ∧
      (s.after cs).active? = (s.after cs).readBack rs.getLast? ∧
      (∀ c, match (s.after cs).call c with
        | (.error _, s') => s' = s.after cs
        | (.ok _, s') => ∃ rs', c.Changes rs rs' ∧ s'.Contains rs') ∧
      ∀ more, ∃ rs', (s.after (cs ++ more)).Contains rs' ∧ Extends rs rs' := by
  obtain ⟨rs, hs, -⟩ := (contains_empty h).after cs
  refine ⟨succession rs, hs, lastActive_succession rs, hs.active?_eq, fun c => ?_, fun more => ?_⟩
  · rcases hs.call c with ⟨e, he⟩ | ⟨a, s', rs', ha, hchg, hs'⟩
    · rw [he]
    · rw [ha]
      exact ⟨_, hchg, hs'⟩
  · rw [after_append]
    obtain ⟨rs', hs', hext⟩ := hs.after more
    exact ⟨_, hs', hext⟩

theorem records_kept_replaced :
    LastActive [(KeyRecord.blank "a").retire, (KeyRecord.blank "b").activate] ∧
    ((Store.memory .empty).after [.create (.blank "a"), .replace "a" (.blank "b")]).active? =
      .ok (some (KeyRecord.blank "b").activate) := by
  obtain ⟨rs, hc, hl, hr, -⟩ := records_kept (s := .memory .empty) (.inl rfl)
    [.create (.blank "a"), .replace "a" (.blank "b")]
  have hrs : rs = [(KeyRecord.blank "a").retire, (KeyRecord.blank "b").activate] :=
    (congrArg MemoryStore.records (show _ = MemoryStore.mk rs from hc)).symm
  subst hrs
  exact ⟨hl, hr⟩

end Store

theorem TableStore.create_unread (r : KeyRecord) (h : ¬ r.createdAt.FourDigitYear) :
    ∃ s, empty.create r = .ok s ∧ s.active? = .error (.corrupt (r.id ++ ": created_at")) := by
  refine ⟨.ofRecords (succession [r]), create_eq [] r, ?_⟩
  have hs : Store.Contains (succession [r]) (.table (.ofRecords (succession [r]))) := rfl
  exact hs.active?_eq.trans (if_neg h)

end AttestedVault
