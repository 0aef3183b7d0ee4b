import AttestedVault.Proofs.Completion
import AttestedVault.Proofs.FirstKey
import AttestedVault.Proofs.SharedStore

/-!
# Agreement on the first key

Any number of managers that start on one empty store, all at once. One of them
stores a record, and all of them come to the key that it wraps.
-/

namespace AttestedVault

/-! ## One lock -/

namespace KeyManager

open AttestedVault.Action

variable (u : Unwrapping)

theorem currentDekBy_borrows : (currentDekBy u).run.Borrows .lifecycle .exclusive := by
  refine (Prog.borrows_call (e := .cached) rfl).mpr fun x => ?_
  cases (x : Option Dek) with
  | some dek => trivial
  | none =>
    refine borrows_holding _ _ (.bind (.ask rfl) fun x => ?_)
    cases (x : Option Dek) with
    | some dek => exact .pure dek
    | none => exact .bind (loadDekBy_lockless u) fun dek => .bind (.ask rfl) fun _ => .pure dek

end KeyManager

/-! ## One record -/

theorem Store.Contains.eq_of_reads {s : Store} {r q : KeyRecord} (hr : s.Contains [r]) (hq : s.Contains [q])
    (ht : s.Reads r.createdAt) : q = r := by
  cases s with
  | found s => exact hr.elim
  | memory s => exact (List.cons.inj (MemoryStore.mk.inj (hq.symm.trans hr))).1
  | table s =>
    have hy : r.createdAt.FourDigitYear := by
      rcases ht with ⟨m, hm⟩ | hy
      · cases hm
      · exact hy
    have hrow : TableRow.stored q = TableRow.stored r := (List.cons.inj (TableStore.mk.inj (hq.symm.trans hr))).1
    have hread : (TableRow.stored q).toRecord = .ok r := by
      rw [hrow, TableRow.toRecord_stored, if_pos hy]
    exact (TableRow.eq_of_toRecord_stored hread).symm

namespace Fleet

variable {α : Type} {key : Nat → MasterKey} {u : Nat → Unwrapping}

/-- The manager that stores a first record with this effect of this task. -/
def creator? (i : Nat) (s : Schedule Fleet α) : Option Nat :=
  match s.tasks[i]? with
  | some ⟨node, .call (.create r) _⟩ =>
    match (perform node (.create r) s.contended.state).1 with
    | Except.ok _ => some node
    | Except.error _ => none
  | _ => none

/-- What managers of an empty store come to that have nothing cached and look for
the key, any number of times each. The list has the managers that have stored a
record. -/
inductive Booting (key : Nat → MasterKey) (u : Nat → Unwrapping) :
    List Nat → Schedule Fleet (Except KeyError Dek) → Prop
  | start {f : Fleet} (empty : f.shared.store = .memory .empty ∨ f.shared.store = .table .empty)
      (clock : ∀ n, f.shared.store.Reads (f.shared.stamps n).2) (cold : ∀ n, (f.nodes n).cache = none)
      (answering : ∀ n, (f.nodes n).faults = .none)
      (attested : ∀ n, (f.nodes n).attestor.Within (.only (key n))) : Booting key u [] (.start f)
  | call {made : List Nat} {s : Schedule Fleet (Except KeyError Dek)} (n : Nat) (before : Booting key u made s) :
      Booting key u made { s with tasks := s.tasks ++ [⟨n, (KeyManager.currentDekBy (u n)).run⟩] }
  | step {made : List Nat} {s : Schedule Fleet (Except KeyError Dek)} (i : Nat) (before : Booting key u made s) :
      Booting key u (made ++ (creator? i s).toList) (s.step perform i)

theorem creator?_eq_some {i n : Nat} {s : Schedule Fleet α} (hs : Agrees key u s.contended.state)
    (h : creator? i s = some n) : s.contended.state.shared.store.Contains [] ∧
      ¬ (s.step perform i).contended.state.shared.store.Contains [] := by
  unfold creator? at h
  split at h
  · rename_i node r k ht
    split at h
    · rename_i hx
      have hstep : (s.step perform i).contended.state = (perform node (.create r) s.contended.state).2 := by
        unfold Schedule.step
        rw [ht]
        rfl
      rw [perform_create hs] at hstep hx
      cases hc : s.contended.state.shared.store.create r with
      | error e => simp [Store.settle, hc] at hx
      | ok s' =>
        simp only [Store.settle, hc] at hstep
        rw [hstep]
        rcases hs.records with he | ⟨q, m, d, hq, hseals, -⟩
        · have he' : s.contended.state.shared.store.Contains (succession []) := he
          obtain ⟨-, hs'⟩ := he'.create hc
          exact ⟨he, fun hn => hs'.not_both hn⟩
        · obtain ⟨he, -⟩ := (hq.single hseals.active).create hc
          cases he
    · cases h
  · cases h

structure Agreed (key : Nat → MasterKey) (u : Nat → Unwrapping) (made : List Nat)
    (s : Schedule Fleet (Except KeyError Dek)) : Prop where
  settled : s.Settled (evolution key u) (Ends key u)
  orderly : s.Orderly .lifecycle .exclusive
  once : made.length ≤ 1
  none : s.contended.state.shared.store.Contains [] → made = []

variable {made : List Nat} {s : Schedule Fleet (Except KeyError Dek)}

theorem Agreed.step (h : Agreed key u made s) (i : Nat) : Agreed key u (made ++ (creator? i s).toList) (s.step perform i) := by
  obtain ⟨hbec, hsettled⟩ := h.settled.step i
  have hempty : (s.step perform i).contended.state.shared.store.Contains [] →
      s.contended.state.shared.store.Contains [] := by
    intro hn
    rcases h.settled.invariant.records with he | ⟨r, m, d, hr, -⟩
    · exact he
    · exact ((hbec.2.records r hr).not_both hn).elim
  cases hc : creator? i s with
  | none => exact ⟨hsettled, h.orderly.step i, by simpa using h.once, fun hn => by simpa using h.none (hempty hn)⟩
  | some n =>
    obtain ⟨he, hne⟩ := creator?_eq_some h.settled.invariant hc
    exact ⟨hsettled, h.orderly.step i, by simp [h.none he], fun hn => absurd hn hne⟩

namespace Booting

theorem agreed (h : Booting key u made s) : Agreed key u made s := by
  induction h with
  | start empty clock cold answering attested =>
    refine ⟨.start ⟨.inl ?_, clock, answering, attested, fun n d hd => ?_⟩, .start _, Nat.zero_le 1, fun _ => rfl⟩
    · exact Store.contains_empty empty
    · cases (cold n).symm.trans hd
  | call n _ ih =>
    exact ⟨ih.settled.spawn KeyManager.currentDekBy_steady, ih.orderly.spawn (KeyManager.currentDekBy_borrows _),
      ih.once, ih.none⟩
  | step i _ ih => exact ih.step i

theorem advance (stop : Effect → Bool) (i : Nat) (h : ∃ made, Booting key u made s) :
    ∃ made, Booting key u made (s.advance perform stop i) :=
  Schedule.advance_of_step (P := fun s => ∃ made, Booting key u made s) (fun _ ⟨_, h⟩ => ⟨_, h.step i⟩) stop h

theorem finish (h : Booting key u made s) : ∃ made', Booting key u made' (s.finish perform) := by
  let P := fun t => ∃ made', Booting key u made' t
  exact List.foldlRecOn (motive := P) _ _ ⟨made, h⟩ fun t ht _ _ =>
    Schedule.round_induct (P := P) (fun i _ ht => advance _ i ht) ht

theorem ends (h : Booting key u made s) {i n : Nat} {x : Except KeyError Dek}
    (ht : s.tasks[i]? = some ⟨n, .done x⟩) : Ends key u n x s.contended.state :=
  h.agreed.settled.steady i _ ht _ (.refl h.agreed.settled.invariant)

end Booting

theorem Gets.opened {s : Store} {r : KeyRecord} {n : Nat} {x : Except KeyError Dek} (h : Gets key u s n x)
    (hr : s.Contains [r]) (ht : s.Reads r.createdAt) (hu : u n = KeyRecord.unwrap) : x = r.openWith (key n) := by
  obtain ⟨q, hq, hx⟩ := h
  obtain rfl := hr.eq_of_reads hq ht
  rcases hx with rfl | ⟨d, rfl, hseals⟩
  · rw [hu]
    rfl
  · exact (KeyRecord.openWith_eq_ok.mpr ⟨hseals.keyId, hseals.unwrap⟩).symm

theorem Gets.refused {s : Store} {r : KeyRecord} {n : Nat} {x : Except KeyError Dek} {id : MasterKeyId}
    (h : Gets key u s n x) (hr : s.Contains [r]) (ht : s.Reads r.createdAt) (hid : r.keyId = .ok id)
    (hne : (key n).id ≠ id) : x = .error (.migrationRequired id (key n).id) := by
  obtain ⟨q, hq, hx⟩ := h
  obtain rfl := hr.eq_of_reads hq ht
  rcases hx with rfl | ⟨d, rfl, hseals⟩
  · rw [KeyRecord.openBy_of_keyId hid, if_neg (Ne.symm hne)]
  · exact absurd (Except.ok.inj (hseals.keyId.symm.trans hid)) hne

/-- At most one record is ever created. Once there is one, every call on a manager
with its master key returns its key, and one on a manager with another master
key is refused whatever unwrapping does there, unless attestation or the random
source fails first. The calls on one manager return one key, and all of them return.
Over a table, the clock is one that shows years of four digits: the record could not
be read again otherwise. -/
theorem Booting.agrees (h : Booting key u made s) :
    made.length ≤ 1 ∧
    ((s.contended.state.shared.store.Contains [] ∧
        ∀ (i n : Nat) (x : Except KeyError Dek), s.tasks[i]? = some ⟨n, .done x⟩ → ∃ e, x = .error e ∧ e.Outside) ∨
      ∃ r m d, s.contended.state.shared.store.Contains [r] ∧ r.active = true ∧ r.version = "v1" ∧
        r.keyId = .ok (key m).id ∧ r.unwrap (key m) = .ok d ∧
        ∀ (i n : Nat) (x : Except KeyError Dek), s.tasks[i]? = some ⟨n, .done x⟩ →
          (∃ e, x = .error e ∧ e.Outside) ∨
          (key n = key m → u n = KeyRecord.unwrap → x = .ok d) ∧
          ((key n).id ≠ (key m).id → x = .error (.migrationRequired (key m).id (key n).id))) ∧
    (∀ (i j n : Nat) (d d' : Dek), u n = KeyRecord.unwrap → s.tasks[i]? = some ⟨n, .done (.ok d)⟩ →
      s.tasks[j]? = some ⟨n, .done (.ok d')⟩ → d = d') ∧
    (∃ made', Booting key u made' (s.finish perform)) ∧
    ∀ i < s.tasks.length, ∃ x, (s.finish perform).result? i = some x := by
  have hk := h.agreed
  refine ⟨hk.once, ?_, ?_, h.finish, fun i hi => hk.orderly.result?_finish hi⟩
  · rcases hk.settled.invariant.records with he | ⟨r, m, d, hr, hseals, ht⟩
    · refine .inl ⟨he, fun i n x hx => ?_⟩
      rcases h.ends hx with hout | ⟨q, hq, -⟩
      · exact hout
      · exact (hq.not_both he).elim
    · refine .inr ⟨r, m, d, hr, hseals.active, hseals.version_eq, hseals.keyId, hseals.unwrap, fun i n x hx => ?_⟩
      refine (h.ends hx).imp_right fun hgets => ⟨fun hkey hu => ?_, hgets.refused hr ht hseals.keyId⟩
      rw [hgets.opened hr ht hu, hkey]
      exact KeyRecord.openWith_eq_ok.mpr ⟨hseals.keyId, hseals.unwrap⟩
  · intro i j n d d' hu hd hd'
    obtain ⟨e, he, -⟩ | hgets := h.ends hd
    · cases he
    obtain ⟨e, he, -⟩ | hgets' := h.ends hd'
    · cases he
    rcases hk.settled.invariant.records with he | ⟨r, m, d₀, hr, -, ht⟩
    · obtain ⟨q, hq, -⟩ := hgets
      exact (hq.not_both he).elim
    · exact Except.ok.inj ((hgets.opened hr ht hu).trans (hgets'.opened hr ht hu).symm)

/-- The second caller of a manager waits for the first one, which is about to store
its record, and gets the same key. -/
theorem Booting.agrees_queued : ∃ key made s d, Booting key (fun _ => KeyRecord.unwrap) made s ∧
    s.tasks[0]? = some ⟨0, .done (.ok d)⟩ ∧ s.tasks[1]? = some ⟨0, .done (.ok d)⟩ := by
  let returned (t : Task (Except KeyError Dek)) : Bool := t.node == 0 && t.prog.result?.any (·.isOk)
  obtain ⟨k, hk⟩ : ∃ k, AttestationReport.blank.masterKey = .ok k := ⟨_, rfl⟩
  obtain ⟨made, s, h, h₀, h₁⟩ : ∃ made s, Booting (fun _ => k) (fun _ => KeyRecord.unwrap) made s ∧
      s.tasks[0]?.any returned = true ∧ s.tasks[1]?.any returned = true := by
    have hwithin : (Attestor.scripted fun _ => .ok .blank).Within (.only k) := by
      intro ns n r k' hr hk'
      exact Except.ok.inj ((Attestor.within_ofReport .blank ns n r k' hr hk').symm.trans hk)
    have hstart : Booting (fun _ => k) (fun _ => KeyRecord.unwrap) [] (.start (.attested .blank)) :=
      .start (.inl rfl) (fun _ => .inl ⟨_, rfl⟩) (fun _ => rfl) (fun _ => rfl) fun _ => hwithin
    obtain ⟨_, h₀⟩ := Booting.advance Effect.isWrite 0 ⟨_, hstart.call 0⟩
    obtain ⟨_, h₁⟩ := Booting.advance (fun _ => false) 1 ⟨_, h₀.call 0⟩
    obtain ⟨_, h₂⟩ := Booting.advance (fun _ => false) 0 ⟨_, h₁⟩
    obtain ⟨made, h⟩ := Booting.advance (fun _ => false) 1 ⟨_, h₂⟩
    exact ⟨made, _, h, by decide +kernel, by decide +kernel⟩
  have hdone : ∀ i : Nat, s.tasks[i]?.any returned = true → ∃ d, s.tasks[i]? = some ⟨0, .done (.ok d)⟩ := by
    intro i hi
    obtain ⟨⟨node, p⟩, ht, hr⟩ := Option.any_eq_true _ _ |>.mp hi
    simp only [returned, Bool.and_eq_true, beq_iff_eq] at hr
    obtain ⟨rfl, hr⟩ := hr
    cases p with
    | call e k => cases hr
    | done x =>
      cases x with
      | error e => cases hr
      | ok d => exact ⟨d, ht⟩
  obtain ⟨-, -, hsame, -⟩ := h.agrees
  obtain ⟨d, h₀⟩ := hdone 0 h₀
  obtain ⟨d', h₁⟩ := hdone 1 h₁
  obtain rfl := hsame 0 1 0 d d' rfl h₀ h₁
  exact ⟨_, made, s, d, h, h₀, h₁⟩

end Fleet

end AttestedVault
