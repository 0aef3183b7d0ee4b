import AttestedVault.Host.Fleet
import AttestedVault.Host.Schedule
import AttestedVault.Proofs.Labels
import AttestedVault.Proofs.Progress
import AttestedVault.Proofs.Succession
import AttestedVault.Proofs.Turns

/-!
# The records of a shared store

Managers with locks and caches of their own bootstrap, rotate and migrate over
one store. A journal notes what each task has read and stored: the records form
one line, each stored by a task that had read the one before.
-/

namespace AttestedVault

/-! ## Lines of records -/

structure Commit where
  task : Nat
  /-- What the task had read as the active record. -/
  seen : Option KeyRecord
  record : KeyRecord

/-- Each record was stored by a task that had read the one before, and has the
version that this task's kind of change gives it. -/
inductive Lineage (change : Nat → Option Change) : List Commit → Prop
  | empty : Lineage change []
  | bootstrap {c : Commit} (kind : change c.task = none) (seen : c.seen = none)
      (version : c.record.version = KeyVersion.first) : Lineage change [c]
  | succeed {cs : List Commit} {p c : Commit} {k : Change} (before : Lineage change (cs ++ [p]))
      (kind : change c.task = some k) (seen : c.seen = some p.record)
      (version : c.record.version = k.version p.record.version) : Lineage change (cs ++ [p] ++ [c])

namespace Lineage

variable {change : Nat → Option Change}

def rotations (change : Nat → Option Change) (cs : List Commit) : Nat :=
  cs.countP fun c => change c.task = some .rotation

theorem rotations_concat (cs : List Commit) (c : Commit) : rotations change (cs ++ [c]) =
    rotations change cs + if change c.task = some .rotation then 1 else 0 := by
  rw [rotations, List.countP_append, List.countP_singleton]
  simp [rotations]

theorem version_eq_iterate {cs : List Commit} {c : Commit} (h : Lineage change cs) (hc : cs.getLast? = some c) :
    c.record.version = KeyVersion.next^[rotations change cs] KeyVersion.first := by
  induction h generalizing c with
  | empty => cases hc
  | @bootstrap p kind seen version =>
    obtain rfl : p = c := Option.some.inj hc
    have hn : rotations change [p] = 0 := by simp [rotations, kind]
    rw [version, hn]
    rfl
  | @succeed cs p q k before kind seen version ih =>
    rw [List.getLast?_concat] at hc
    obtain rfl : q = c := Option.some.inj hc
    rw [version, ih List.getLast?_concat, rotations_concat (cs ++ [p]), kind]
    cases k with
    | rotation =>
      rw [if_pos rfl, Function.iterate_succ_apply']
      rfl
    | migration =>
      rw [if_neg (by decide)]
      rfl

theorem version {cs : List Commit} {c : Commit} (h : Lineage change cs) (hc : cs.getLast? = some c)
    (hr : rotations change cs < 0xffffffffffffffff) :
    c.record.version = "v" ++ toString (1 + rotations change cs) := by
  rw [h.version_eq_iterate hc, KeyVersion.iterate_next, Nat.min_eq_left (by omega), Nat.add_comm]

end Lineage

/-! ## Journals -/

structure Journal where
  progress : Nat → Progress
  commits : List Commit

namespace Journal

def blank : Journal := ⟨fun _ => .start, []⟩

def records (l : Journal) : List KeyRecord := l.commits.map (·.record)

def put (l : Journal) (i : Nat) (g : Progress) : Journal :=
  { l with progress := fun j => if j = i then g else l.progress j }

def commit (l : Journal) (i : Nat) (r : KeyRecord) : Journal :=
  { l.put i { l.progress i with stored := true } with commits := l.commits ++ [⟨i, (l.progress i).seen, r⟩] }

def note (l : Journal) (i : Nat) (e : Effect) (x : e.Answer) : Journal :=
  match e.stored? x with
  | some r => l.commit i r
  | none => l.put i ((l.progress i).note e x)

variable {l : Journal} {i : Nat}

@[simp] theorem progress_put (g : Progress) : (l.put i g).progress i = g := if_pos rfl

theorem progress_put_of_ne {j : Nat} (h : j ≠ i) (g : Progress) : (l.put i g).progress j = l.progress j := if_neg h

theorem forall_put {P : Nat → Progress → Prop} {g : Progress} (hi : P i g) (h : ∀ j ≠ i, P j (l.progress j)) :
    ∀ j, P j ((l.put i g).progress j) := by
  intro j
  by_cases hj : j = i
  · rw [hj, progress_put]
    exact hi
  · rw [progress_put_of_ne hj]
    exact h j hj

theorem ids_put {g : Progress} (hg : g.ids = (l.progress i).ids) (j : Nat) :
    ((l.put i g).progress j).ids = (l.progress j).ids :=
  forall_put (P := fun j g => g.ids = (l.progress j).ids) hg (fun _ _ => rfl) j

theorem put_self (l : Journal) (i : Nat) : l.put i (l.progress i) = l := by
  have hp : (l.put i (l.progress i)).progress = l.progress := by
    funext j
    by_cases hj : j = i
    · rw [hj, progress_put]
    · exact progress_put_of_ne hj _
  cases l
  exact congrArg (Journal.mk · _) hp

theorem progress_note (e : Effect) (x : e.Answer) : (l.note i e x).progress i = (l.progress i).note e x := by
  unfold note Progress.note
  cases e.stored? x with
  | some r => exact progress_put _
  | none => exact progress_put _

theorem progress_note_of_ne {j : Nat} (h : j ≠ i) (e : Effect) (x : e.Answer) :
    (l.note i e x).progress j = l.progress j := by
  unfold note
  cases e.stored? x with
  | some r => exact progress_put_of_ne h _
  | none => exact progress_put_of_ne h _

theorem note_of_silent {e : Effect} (he : e.isSilent = true) (x : e.Answer) : l.note i e x = l := by
  have hs : e.stored? x = none := by cases e <;> first | rfl | cases he
  unfold note
  rw [hs, Progress.note_of_silent he]
  exact l.put_self i

theorem note_create (r : KeyRecord) (x : Except StoreError Unit) :
    l.note i (.create r) x = match x with | .ok _ => l.commit i r | .error _ => l := by
  cases x with
  | ok u => rfl
  | error e => exact l.put_self i

theorem note_replace (previous : String) (r : KeyRecord) (x : Except StoreError Unit) :
    l.note i (.replace previous r) x = match x with | .ok _ => l.commit i r | .error _ => l := by
  cases x with
  | ok u => rfl
  | error e => exact l.put_self i

end Journal

/-! ## Sound journals -/

/-- What a journal says about the store, and what keeps tasks from storing records
out of line: ids are not drawn twice, and no task stores twice. -/
structure Journal.Sound (change : Nat → Option Change) (l : Journal) (s : Shared) : Prop where
  contains : s.store.Contains (succession l.records)
  lineage : Lineage change l.commits
  active : ∀ c ∈ l.commits, c.record.active = true
  once : ∀ c ∈ l.commits, ∀ d ∈ l.commits, c.task = d.task → c = d
  stored : ∀ i, (l.progress i).stored = true ↔ ∃ c ∈ l.commits, c.task = i
  seen : ∀ i q, (l.progress i).seen = some q → ∃ c ∈ l.commits, c.record = q
  named : ∀ c ∈ l.commits, c.record.id ∈ (l.progress c.task).ids
  drawn : ∀ i, ∀ x ∈ (l.progress i).ids, ∃ n < s.stamped, (s.stamps n).1 = x
  apart : ∀ i j x, x ∈ (l.progress i).ids → x ∈ (l.progress j).ids → i = j
  fresh : Function.Injective fun n => (s.stamps n).1

namespace Journal.Sound

variable {change : Nat → Option Change} {l : Journal} {s s' : Shared} {i : Nat} {r : KeyRecord}

theorem active_records (h : l.Sound change s) : ∀ r ∈ l.records, r.active = true := by
  intro r hr
  obtain ⟨c, hc, rfl⟩ := List.mem_map.mp hr
  exact h.active c hc

theorem of_shared (h : l.Sound change s) (hst : s'.store = s.store) (hs : s'.stamps = s.stamps)
    (hn : s'.stamped = s.stamped) : l.Sound change s' := by
  refine { h with contains := ?_, drawn := ?_, fresh := ?_ }
  · rw [hst]
    exact h.contains
  · rw [hs, hn]
    exact h.drawn
  · rw [hs]
    exact h.fresh

theorem stored_put (h : l.Sound change s) {g : Progress} (hg : g.stored = (l.progress i).stored) :
    ∀ j, ((l.put i g).progress j).stored = true ↔ ∃ c ∈ l.commits, c.task = j := by
  refine forall_put (P := fun j g => g.stored = true ↔ ∃ c ∈ l.commits, c.task = j) ?_ fun j _ => h.stored j
  rw [hg]
  exact h.stored i

theorem seen_put (h : l.Sound change s) {g : Progress} (hg : ∀ q, g.seen = some q → ∃ c ∈ l.commits, c.record = q) :
    ∀ j q, ((l.put i g).progress j).seen = some q → ∃ c ∈ l.commits, c.record = q :=
  forall_put (P := fun _ g => ∀ q, g.seen = some q → ∃ c ∈ l.commits, c.record = q) hg fun j _ => h.seen j

theorem read (h : l.Sound change s) {o : Option KeyRecord} (ho : o = none ∨ s.store.active? = .ok o) :
    (l.put i { l.progress i with seen := o }).Sound change s := by
  let g : Progress := { l.progress i with seen := o }
  have hids := ids_put (l := l) (i := i) (g := g) rfl
  have hseen : ∀ q, o = some q → ∃ c ∈ l.commits, c.record = q := by
    intro q hq
    rcases ho with rfl | ho
    · cases hq
    · rw [h.contains.active? h.active_records ho] at hq
      exact List.mem_map.mp (List.mem_of_getLast? hq)
  refine { h with stored := h.stored_put rfl, seen := h.seen_put hseen, named := ?_, drawn := ?_, apart := ?_ }
  · intro c hc
    rw [hids]
    exact h.named c hc
  · intro j x hx
    rw [hids] at hx
    exact h.drawn j x hx
  · intro j k x hj hk
    rw [hids] at hj hk
    exact h.apart j k x hj hk

theorem draw (h : l.Sound change s) :
    (l.put i { l.progress i with ids := (s.stamps s.stamped).1 :: (l.progress i).ids }).Sound change
      { s with stamped := s.stamped + 1 } := by
  let x := (s.stamps s.stamped).1
  let g : Progress := { l.progress i with ids := x :: (l.progress i).ids }
  -- an id drawn before has a smaller number
  have hnew : ∀ j, x ∉ (l.progress j).ids := by
    intro j hj
    obtain ⟨n, hn, he⟩ := h.drawn j x hj
    exact absurd (h.fresh he) (Nat.ne_of_lt hn)
  have hids : ∀ j y, y ∈ ((l.put i g).progress j).ids ↔ y ∈ (l.progress j).ids ∨ j = i ∧ y = x := by
    intro j
    by_cases hj : j = i
    · rw [hj, progress_put]
      simp [g, or_comm]
    · rw [progress_put_of_ne hj]
      simp [hj]
  refine { h with stored := h.stored_put rfl, seen := h.seen_put (h.seen i), named := ?_, drawn := ?_, apart := ?_ }
  · exact fun c hc => (hids _ _).mpr (.inl (h.named c hc))
  · intro j y hy
    rcases (hids j y).mp hy with hy | ⟨-, rfl⟩
    · obtain ⟨n, hn, he⟩ := h.drawn j y hy
      exact ⟨n, Nat.lt_succ_of_lt hn, he⟩
    · exact ⟨s.stamped, Nat.lt_succ_self _, rfl⟩
  · intro j k y hj hk
    rcases (hids j y).mp hj with hj' | ⟨hji, hyj⟩
    · rcases (hids k y).mp hk with hk' | ⟨-, hyk⟩
      · exact h.apart j k y hj' hk'
      · exact absurd (hyk ▸ hj') (hnew j)
    · rcases (hids k y).mp hk with hk' | ⟨hki, -⟩
      · exact absurd (hyj ▸ hk') (hnew k)
      · rw [hji, hki]

theorem commit (h : l.Sound change s) (hm : (l.progress i).Mints r) {store : Store}
    (hl : Lineage change (l.commit i r).commits) (hc : store.Contains (succession (l.records ++ [r]))) :
    (l.commit i r).Sound change { s with store := store } := by
  have hids := ids_put (l := l) (i := i) (g := { l.progress i with stored := true }) rfl
  have hi : ∀ c ∈ l.commits, c.task ≠ i := by
    intro c hc he
    have := (h.stored i).mpr ⟨c, hc, he⟩
    rw [hm.once] at this
    cases this
  let d : Commit := ⟨i, (l.progress i).seen, r⟩
  have hmem : ∀ {c}, c ∈ (l.commit i r).commits ↔ c ∈ l.commits ∨ c = d :=
    List.mem_append.trans (or_congr_right List.mem_singleton)
  have hrecords : (l.commit i r).records = l.records ++ [r] := List.map_append
  have hstored : ∀ j, ((l.commit i r).progress j).stored = true ↔ ∃ c ∈ (l.commit i r).commits, c.task = j := by
    refine forall_put (P := fun j g => g.stored = true ↔ ∃ c ∈ (l.commit i r).commits, c.task = j) ?_ fun j hj => ?_
    · exact iff_of_true rfl ⟨d, hmem.mpr (.inr rfl), rfl⟩
    · rw [h.stored j]
      refine ⟨fun ⟨c, hc, ht⟩ => ⟨c, hmem.mpr (.inl hc), ht⟩, fun ⟨c, hc, ht⟩ => ?_⟩
      rcases hmem.mp hc with hc | rfl
      · exact ⟨c, hc, ht⟩
      · exact absurd ht.symm hj
  refine ⟨?_, hl, ?_, ?_, hstored, ?_, ?_, ?_, ?_, h.fresh⟩
  · rw [hrecords]
    exact hc
  · intro c hc
    rcases hmem.mp hc with hc | rfl
    · exact h.active c hc
    · exact hm.active
  · intro c hc c' hc' ht
    rcases hmem.mp hc with hc | rfl <;> rcases hmem.mp hc' with hc' | rfl
    · exact h.once c hc c' hc' ht
    · exact absurd ht (hi c hc)
    · exact absurd ht.symm (hi c' hc')
    · rfl
  · have hseen : ∀ j q, (l.progress j).seen = some q → ∃ c ∈ (l.commit i r).commits, c.record = q := by
      intro j q hq
      obtain ⟨c, hc, hcq⟩ := h.seen j q hq
      exact ⟨c, hmem.mpr (.inl hc), hcq⟩
    exact forall_put (P := fun _ g => ∀ q, g.seen = some q → ∃ c ∈ (l.commit i r).commits, c.record = q)
      (hseen i) fun j _ => hseen j
  · intro c hc
    refine (hids c.task).symm ▸ ?_
    rcases hmem.mp hc with hc | rfl
    · exact h.named c hc
    · exact hm.drawn
  · intro j x hx
    exact h.drawn j x (hids j ▸ hx)
  · intro j k x hj hk
    exact h.apart j k x (hids j ▸ hj) (hids k ▸ hk)

theorem write {h : Host} {fault : Option StoreError} {call : Store → Except StoreError Store}
    (hl : l.Sound change h.shared)
    (hc : ∀ store, call h.shared.store = .ok store → (l.commit i r).Sound change { h.shared with store := store }) :
    (match (Host.write fault call h).1 with | .ok _ => l.commit i r | .error _ => l).Sound change
      (Host.write fault call h).2.shared := by
  unfold Host.write
  cases fault with
  | some e => exact hl
  | none =>
    simp only [Store.settle]
    cases hx : call h.shared.store with
    | ok store => exact hc store hx
    | error e => exact hl

theorem bootstrap (h : l.Sound change s) (hm : (l.progress i).Mints r) (hk : change i = none)
    (hs : (l.progress i).seen = none) (hv : r.version = KeyVersion.first) {store : Store}
    (hc : s.store.create r = .ok store) : (l.commit i r).Sound change { s with store := store } := by
  obtain ⟨hn, hc⟩ := h.contains.create hc
  have hcs : l.commits = [] := List.map_eq_nil_iff.mp hn
  refine h.commit hm ?_ ?_
  · change Lineage change (l.commits ++ [_])
    rw [hcs]
    exact .bootstrap hk hs hv
  · rw [hn]
    exact hc

theorem eq_of_id (h : l.Sound change s) {c d : Commit} (hc : c ∈ l.commits) (hd : d ∈ l.commits)
    (hid : c.record.id = d.record.id) : c = d :=
  h.once c hc d hd (h.apart _ _ _ (h.named c hc) (hid ▸ h.named d hd))

theorem succeed (h : l.Sound change s) (hm : (l.progress i).Mints r) {k : Change} (hk : change i = some k)
    {q : KeyRecord} (hs : (l.progress i).seen = some q) (hv : r.version = k.version q.version) {store : Store}
    (hc : s.store.replace q.id r = .ok store) : (l.commit i r).Sound change { s with store := store } := by
  -- the record that was seen is the last one, which is the only one with its id
  obtain ⟨⟨p, hp, hid⟩, hstore⟩ := h.contains.replace hc
  obtain ⟨d, hd, rfl⟩ : ∃ d, l.commits.getLast? = some d ∧ d.record = p := by
    rw [records, List.getLast?_map] at hp
    exact Option.map_eq_some_iff.mp hp
  obtain ⟨c, hcm, rfl⟩ := h.seen i q hs
  -- the record that was seen has the id of the last one
  obtain rfl : c = d := h.eq_of_id hcm (List.mem_of_getLast? hd) hid.symm
  obtain ⟨cs, hcs⟩ := List.getLast?_eq_some_iff.mp hd
  refine h.commit hm ?_ hstore
  change Lineage change (l.commits ++ [_])
  have hl := h.lineage
  rw [hcs] at hl ⊢
  exact .succeed hl hk hs hv

theorem perform {f : Fleet} (h : l.Sound change f.shared) (n : Nat) (e : Effect)
    (hp : (l.progress i).Permits (change i) e) :
    (l.note i e (Fleet.perform n e f).1).Sound change (Fleet.perform n e f).2.shared := by
  by_cases he : e.isSilent = true
  · rw [note_of_silent he]
    refine h.of_shared ?_ ?_ ?_ <;> cases e <;> first | rfl | cases he
  cases e with
  | stamp => exact h.draw
  | readActive =>
    change (l.note i .readActive (Host.perform .readActive (f.host n)).1).Sound change f.shared
    cases hx : (Host.perform .readActive (f.host n)).1 with
    | error e => exact h.read (.inl rfl)
    | ok o => exact h.read (.inr (Host.read_ok hx))
  | create r =>
    obtain ⟨hm, hk, hs, hv⟩ := hp
    change (l.note i (.create r) (Host.write _ (Store.create r) (f.host n)).1).Sound change
      (Host.write _ (Store.create r) (f.host n)).2.shared
    rw [note_create]
    exact write h fun store hc => h.bootstrap hm hk hs hv hc
  | replace previous r =>
    obtain ⟨hm, k, q, hk, hs, rfl, hv⟩ := hp
    change (l.note i (.replace q.id r) (Host.write _ (Store.replace q.id r) (f.host n)).1).Sound change
      (Host.write _ (Store.replace q.id r) (f.host n)).2.shared
    rw [note_replace]
    exact write h fun store hc => h.succeed hm hk hs hv hc
  | _ => exact absurd rfl he

end Journal.Sound

end AttestedVault
