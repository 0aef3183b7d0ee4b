import AttestedVault.Host.Node
import AttestedVault.Manager.Lifecycle
import AttestedVault.Proofs.Opening
import AttestedVault.Proofs.Solo

/-!
# The key that a store holds

A successful write leaves exactly the new record active, in memory and in a
table. So a store holds one key: the one that its active record unwraps to
under the master key that the record names.
-/

namespace AttestedVault

/-! ## Writes -/

theorem find?_append_single {α : Type} {p : α → Bool} {l : List α} {a : α} (hl : ∀ b ∈ l, p b = false)
    (ha : p a = true) : (l ++ [a]).find? p = some a := by
  have hn : l.find? p = none := List.find?_eq_none.mpr fun b hb => by simp [hl b hb]
  simp [List.find?_append, hn, ha]

namespace MemoryStore

theorem retire?_active {id : String} : ∀ {rs rs' : List KeyRecord}, retire? id rs = some rs' →
    (rs'.filter (·.active)).length + 1 = (rs.filter (·.active)).length
  | [], _, h => by cases h
  | r :: rs, rs', h => by
    unfold retire? at h
    split at h
    · rename_i hr
      cases h
      simp [hr.1]
    · obtain ⟨t, ht, rfl⟩ := Option.map_eq_some_iff.mp h
      have ih := retire?_active ht
      by_cases ha : r.active = true
      · rw [List.filter_cons_of_pos ha, List.filter_cons_of_pos ha, List.length_cons, List.length_cons, ih]
      · rw [List.filter_cons_of_neg ha, List.filter_cons_of_neg ha, ih]

end MemoryStore

def KeyRecord.Like (r q : KeyRecord) : Prop := ∃ t, q = { r with createdAt := t }

theorem KeyRecord.Like.keyId_unwrap {r q : KeyRecord} (h : r.Like q) (k : MasterKey) :
    q.keyId = r.keyId ∧ q.unwrap k = r.unwrap k := by
  obtain ⟨_, rfl⟩ := h
  exact ⟨rfl, rfl⟩

namespace TableRow

def IsOf (r : KeyRecord) (q : TableRow) : Prop := ∃ time, q = { ofRecord r with createdAt := time }

theorem isOf_of_toRecord {r : KeyRecord} {q : TableRow} (hq : q.isActive = true) (h : q.toRecord = .ok r) :
    q.IsOf r ∧ r.active = true := by
  have ha : q.active = some 1 := by simpa [isActive] using hq
  unfold toRecord at h
  split at h
  · cases h
  · cases h
  · rename_i n time hn ht
    cases ha.symm.trans hn
    cases h
    refine ⟨⟨q.createdAt, ?_⟩, rfl⟩
    rw [ofRecord, ← ha]

theorem IsOf.like {r r' : KeyRecord} {q : TableRow} (h : q.IsOf r) (h' : q.IsOf r') (hr : r.active = true)
    (hr' : r'.active = true) : r.Like r' := by
  obtain ⟨_, rfl⟩ := h
  obtain ⟨_, h'⟩ := h'
  cases r
  cases r'
  cases hr
  cases hr'
  obtain ⟨rfl, rfl, rfl, rfl, rfl, rfl, -, -⟩ := TableRow.mk.inj h'
  exact ⟨_, rfl⟩

end TableRow

namespace Store

/-- At most one record is active. An index sees to it in a table. -/
def Sound : Store → Prop
  | memory s => (s.records.filter (·.active)).length ≤ 1
  | table _ => True
  | found _ => False

/-- The active record is `r`, but perhaps for the time in a table. -/
def Keeps (r : KeyRecord) : Store → Prop
  | memory s => s.active? = some r
  | table s => ∃ q, s.rows.find? (·.isActive) = some q ∧ q.IsOf r
  | found _ => False

def Installed (r : KeyRecord) (s : Store) : Prop := s.Sound ∧ s.Keeps r

theorem keeps_of_active? {s : Store} {r : KeyRecord} (hs : s.Sound) (h : s.active? = .ok (some r)) :
    s.Keeps r ∧ r.active = true := by
  cases s with
  | found s => exact hs.elim
  | memory s =>
    have h' : s.records.find? (·.active) = some r := Except.ok.inj h
    exact ⟨h', List.find?_some h'⟩
  | table s =>
    unfold active? TableStore.active? at h
    simp only at h
    split at h
    · cases h
    · rename_i q hq
      cases hr : q.toRecord with
      | error e => rw [hr] at h; cases h
      | ok r' =>
        rw [hr] at h
        cases h
        obtain ⟨ho, ha⟩ := TableRow.isOf_of_toRecord (List.find?_some hq) hr
        exact ⟨⟨q, hq, ho⟩, ha⟩

theorem Keeps.active?_ne_none {s : Store} {r : KeyRecord} (h : s.Keeps r) : s.active? ≠ .ok none := by
  intro hn
  cases s with
  | found s => exact h.elim
  | memory s => cases (Except.ok.inj hn).symm.trans h
  | table s =>
    obtain ⟨q, hq, -⟩ := h
    unfold active? TableStore.active? at hn
    simp only [hq] at hn
    cases hr : q.toRecord <;> rw [hr] at hn <;> cases hn

theorem Keeps.like {r q : KeyRecord} {s : Store} (h : s.Keeps r) (h' : s.Keeps q) (hr : r.active = true)
    (hq : q.active = true) : r.Like q := by
  cases s with
  | found s => exact h.elim
  | memory s => exact ⟨r.createdAt, Option.some.inj (h'.symm.trans h)⟩
  | table s =>
    obtain ⟨t, ht, hi⟩ := h
    obtain ⟨t', ht', hi'⟩ := h'
    cases ht.symm.trans ht'
    exact hi.like hi' hr hq

theorem memory_installed {s : MemoryStore} {r : KeyRecord} (hs : ∀ q ∈ s.records, q.active = false)
    (ha : r.active = true) : Installed r (.memory (s.insert r)) := by
  have hr : ({ r with active := true } : KeyRecord) = r := by rw [← ha]
  have hf : s.records.filter (·.active) = [] := List.filter_eq_nil_iff.mpr fun q hq => by simp [hs q hq]
  constructor
  · simp [Sound, MemoryStore.insert, hf]
  · simp only [Keeps, MemoryStore.active?, MemoryStore.insert, hr]
    exact find?_append_single hs ha

theorem table_installed {s s' : TableStore} {r : KeyRecord} (h : s.create r = .ok s') :
    Installed r (.table s') := by
  unfold TableStore.create at h
  split at h
  · cases h
  · rename_i hn
    cases h
    have hs : ∀ q ∈ s.rows, q.isActive = false := by
      intro q hq
      have : ¬ (q.isActive = true ∨ q.id = r.id) := by
        simp only [List.any_eq_true, not_exists, not_and, Bool.or_eq_true, beq_iff_eq] at hn
        exact hn q hq
      simpa using fun ha => this (Or.inl ha)
    exact ⟨trivial, _, find?_append_single hs rfl, _, rfl⟩

theorem create_ok {s s' : Store} {r : KeyRecord} (hs : s.Sound) (ha : r.active = true)
    (h : s.create r = .ok s') : Installed r s' := by
  cases s with
  | found s => exact hs.elim
  | table s =>
    simp only [create] at h
    cases hc : s.create r with
    | error e => rw [hc] at h; cases h
    | ok t => rw [hc] at h; cases h; exact table_installed hc
  | memory s =>
    simp only [create, MemoryStore.create] at h
    split at h
    · cases h
    · rename_i hn
      cases h
      refine memory_installed (fun q hq => ?_) ha
      simp only [List.any_eq_true, not_exists, not_and] at hn
      simpa using hn q hq

theorem active?_of_create {s s' : Store} {r : KeyRecord} (hs : s.Sound) (h : s.create r = .ok s') :
    s.active? = .ok none := by
  cases s with
  | found s => exact hs.elim
  | table s =>
    simp only [create, TableStore.create] at h
    split at h
    · cases h
    · rename_i hn
      have hf : s.rows.find? (·.isActive) = none := by
        refine List.find?_eq_none.mpr fun q hq => ?_
        simp only [List.any_eq_true, not_exists, not_and, Bool.or_eq_true] at hn
        exact fun ha => hn q hq (.inl ha)
      unfold active? TableStore.active?
      simp only [hf]
  | memory s =>
    simp only [create, MemoryStore.create] at h
    split at h
    · cases h
    · rename_i hn
      refine congrArg Except.ok (List.find?_eq_none.mpr fun q hq => ?_)
      simp only [List.any_eq_true, not_exists, not_and] at hn
      exact hn q hq

theorem replace_ok {s s' : Store} {previous : String} {r : KeyRecord} (hs : s.Sound) (ha : r.active = true)
    (h : s.replace previous r = .ok s') : Installed r s' := by
  cases s with
  | found s => exact hs.elim
  | table s =>
    simp only [replace, TableStore.replace] at h
    split at h
    · generalize hc : TableStore.create _ r = c at h
      cases c with
      | error e => cases h
      | ok t => cases h; exact table_installed hc
    · cases h
  | memory s =>
    simp only [replace, MemoryStore.replace] at h
    cases hr : MemoryStore.retire? previous s.records with
    | none => rw [hr] at h; cases h
    | some rs =>
      rw [hr] at h
      cases h
      -- one active record less, of at most one
      have hl : (rs.filter (·.active)).length = 0 := by
        have := MemoryStore.retire?_active hr
        simp only [Sound] at hs
        omega
      have hf := List.filter_eq_nil_iff.mp (List.length_eq_zero_iff.mp hl)
      exact memory_installed (s := ⟨rs⟩) (fun q hq => by simpa using hf q hq) ha

end Store

/-! ## The key held -/

/-- The master keys of a run. Their ids tell them apart. -/
structure KeyRing where
  mem : MasterKey → Prop
  distinct : ∀ {k k' : MasterKey}, mem k → mem k' → k.id = k'.id → k = k'

def KeyRing.ofReport (r : AttestationReport) : KeyRing where
  mem k := r.masterKey = .ok k
  distinct h h' _ := Except.ok.inj (h.symm.trans h')

namespace Store

variable {K : KeyRing}

/-- The active record unwraps to `d` under the master key that it names. -/
def Holds (K : KeyRing) (s : Store) (d : Dek) : Prop :=
  ∃ r k, s.Keeps r ∧ r.active = true ∧ K.mem k ∧ r.keyId = .ok k.id ∧ r.unwrap k = .ok d

theorem Holds.of_keeps {s : Store} {d : Dek} {r : KeyRecord} {k : MasterKey} (h : s.Holds K d)
    (hr : s.Keeps r) (ha : r.active = true) (hk : K.mem k) (hid : r.keyId = .ok k.id) :
    r.unwrap k = .ok d := by
  obtain ⟨r', k', hr', ha', hk', hid', hu⟩ := h
  have hl := hr'.like hr ha' ha
  rw [(hl.keyId_unwrap k).1] at hid
  rw [(hl.keyId_unwrap k).2, K.distinct hk hk' (Except.ok.inj (hid.symm.trans hid'))]
  exact hu

theorem Holds.unwrap {s : Store} {d : Dek} {r : KeyRecord} {k : MasterKey} (h : s.Holds K d) (hs : s.Sound)
    (hr : s.active? = .ok (some r)) (hk : K.mem k) (hid : r.keyId = .ok k.id) : r.unwrap k = .ok d := by
  obtain ⟨hr, ha⟩ := keeps_of_active? hs hr
  exact h.of_keeps hr ha hk hid

theorem Holds.key {s : Store} {d : Dek} {r : KeyRecord} (h : s.Holds K d) (hs : s.Sound)
    (hr : s.active? = .ok (some r)) : ∃ k, K.mem k ∧ r.keyId = .ok k.id := by
  obtain ⟨r', k, hr', ha', hk, hid, -⟩ := h
  obtain ⟨hr, ha⟩ := keeps_of_active? hs hr
  exact ⟨k, hk, ((hr'.like hr ha' ha).keyId_unwrap k).1.trans hid⟩

theorem Holds.unique {s : Store} {d d' : Dek} (h : s.Holds K d) (h' : s.Holds K d') : d = d' := by
  obtain ⟨r, k, hr, ha, hk, hid, hu⟩ := h
  exact Except.ok.inj (hu.symm.trans (h'.of_keeps hr ha hk hid))

theorem Holds.of_read {s : Store} {r : KeyRecord} {k : MasterKey} {d : Dek} (hs : s.Sound)
    (hr : s.active? = .ok (some r)) (hk : K.mem k) (hid : r.keyId = .ok k.id) (hu : r.unwrap k = .ok d) :
    s.Holds K d := by
  obtain ⟨hr, ha⟩ := keeps_of_active? hs hr
  exact ⟨r, k, hr, ha, hk, hid, hu⟩

theorem Holds.of_openWith {s : Store} {r : KeyRecord} {k : MasterKey} {d : Dek} (hs : s.Sound)
    (hr : s.active? = .ok (some r)) (hk : K.mem k) (h : r.openWith k = .ok d) : s.Holds K d :=
  of_read hs hr hk (KeyRecord.openWith_eq_ok.mp h).1 (KeyRecord.openWith_eq_ok.mp h).2

theorem Holds.active?_ne_none {s : Store} {d : Dek} (h : s.Holds K d) : s.active? ≠ .ok none := by
  obtain ⟨r, k, hr, -⟩ := h
  exact hr.active?_ne_none

end Store

/-- A record of `d` under `k`, as every operation makes it. -/
def KeyRecord.Seals (k : MasterKey) (d : Dek) (version : String) (r : KeyRecord) : Prop :=
  ∃ id time iv, r = .make id time (.wrap d k iv (some ⟨k.id, version⟩)) k.id version

namespace KeyRecord.Seals

variable {k : MasterKey} {d : Dek} {version : String} {r : KeyRecord}

theorem active (h : r.Seals k d version) : r.active = true := by
  obtain ⟨_, _, _, rfl⟩ := h; rfl

theorem holds (h : r.Seals k d version) {K : KeyRing} (hk : K.mem k) {s : Store} (hs : s.Keeps r) :
    s.Holds K d := by
  obtain ⟨_, _, _, rfl⟩ := h
  exact ⟨_, k, hs, rfl, hk, KeyRecord.keyId_make .., KeyRecord.unwrap_make ..⟩

end KeyRecord.Seals

theorem sealRecord_yields (dek : Dek) (key : MasterKey) (version : String) :
    (sealRecord dek key version).Yields (·.Seals key dek version) := by
  have hw : (wrapDek dek key (some ⟨key.id, version⟩)).Yields
      fun w => ∃ iv, w = .wrap dek key iv (some ⟨key.id, version⟩) := by
    refine .andThen fun iv => ?_
    exact .bind (P := fun x => x = Sealed.make key.bytes iv.val dek.bytes.val _) (.ask fun _ hx => hx)
      fun _ hx => .pure ⟨iv, by rw [hx]; rfl⟩
  refine .bind hw fun w hw => ?_
  obtain ⟨iv, rfl⟩ := hw
  intro stamp _ r hr
  cases hr
  exact ⟨stamp.1, stamp.2, iv, rfl⟩

/-! ## Attested keys -/

namespace Attestor

def after (a : Attestor) : List Nat → Attestor
  | [] => a
  | n :: ns => (a.report n).2.after ns

/-- Whatever was asked before, a report of `a` stands for a key of `K`. -/
def Within (K : KeyRing) (a : Attestor) : Prop :=
  ∀ ns n r k, ((a.after ns).report n).1 = .ok r → r.masterKey = .ok k → K.mem k

theorem Within.report {K : KeyRing} {a : Attestor} (h : a.Within K) (n : Nat) : (a.report n).2.Within K :=
  fun ns => h (n :: ns)

theorem Within.mem {K : KeyRing} {a : Attestor} (h : a.Within K) {n : Nat} {r : AttestationReport}
    {k : MasterKey} (hr : (a.report n).1 = .ok r) (hk : r.masterKey = .ok k) : K.mem k :=
  h [] n r k hr hk

theorem after_scripted (reply : Nat → Except AttestationError AttestationReport) : ∀ ns,
    (scripted reply).after ns = scripted reply
  | [] => rfl
  | _ :: ns => after_scripted reply ns

theorem within_ofReport (r : AttestationReport) : (scripted fun _ => .ok r).Within (.ofReport r) := by
  intro ns n r' k hr hk
  rw [after_scripted] at hr
  cases hr
  exact hk

end Attestor

/-! ## Hosts -/

namespace Host

variable {K : KeyRing} {s t : Host}

def Coherent (K : KeyRing) (h : Host) : Prop := ∀ d, h.node.cache = some d → h.shared.store.Holds K d

theorem within_perform {e : Effect} {x : e.Answer} (hs : s.node.attestor.Within K)
    (hx : perform e s = (x, t)) : t.node.attestor.Within K := by
  obtain rfl : (perform e s).2 = t := congrArg Prod.snd hx
  cases e with
  | attest => exact hs.report _
  | create r => exact (congrArg Node.attestor (node_write _ _ s)).symm ▸ hs
  | replace previous r => exact (congrArg Node.attestor (node_write _ _ s)).symm ▸ hs
  | _ => exact hs

structure Stored (r : KeyRecord) (s t : Host) : Prop where
  installed : t.shared.store.Installed r
  cache : t.node.cache = s.node.cache

theorem Stored.holds {r : KeyRecord} {k : MasterKey} {d : Dek} {v : String} (h : Stored r s t)
    (hr : r.Seals k d v) (hk : K.mem k) : t.shared.store.Holds K d := hr.holds hk h.installed.2

theorem stored_of_create {r : KeyRecord} (hs : s.shared.store.Sound) (ha : r.active = true)
    (hx : perform (.create r) s = (Except.ok (), t)) : Stored r s t ∧ s.shared.store.active? = .ok none := by
  obtain rfl : (perform (.create r) s).2 = t := congrArg Prod.snd hx
  obtain ⟨hc, hn⟩ := write_ok (congrArg Prod.fst hx)
  exact ⟨⟨Store.create_ok hs ha hc, hn⟩, Store.active?_of_create hs hc⟩

theorem stored_of_replace {previous : String} {r : KeyRecord} (hs : s.shared.store.Sound)
    (ha : r.active = true) (hx : perform (.replace previous r) s = (Except.ok (), t)) : Stored r s t := by
  obtain rfl : (perform (.replace previous r) s).2 = t := congrArg Prod.snd hx
  obtain ⟨hc, hn⟩ := write_ok (congrArg Prod.fst hx)
  exact ⟨Store.replace_ok hs ha hc, hn⟩

end Host

def AttestationReport.blank : AttestationReport :=
  ⟨.ofBytes 48 [], none, .ofBytes 64 [], .ofBytes 96 [], true⟩

/-- A manager of an empty store, whose attestor replies with the same report each time. -/
def Host.attested (r : AttestationReport) : Host where
  shared := {
    store := .memory .empty
    random := ⟨fun n _ => .ofBytes n [], fun _ => none, 0, []⟩
    stamps := fun _ => ("", ⟨⟨1970, 1, 1⟩, ⟨0, 0, 0⟩, by decide⟩)
    stamped := 0
    seals := [] }
  node := .fresh (.scripted fun _ => .ok r)

end AttestedVault
