import AttestedVault.Proofs.FirstKey
import AttestedVault.Proofs.Wrapping

/-!
# Replacing the active record

What a store with at most one active record comes to when another record takes
the place of that one: the old records as they were, but for the flag of the one
that was active, and the new one behind them.
-/

namespace AttestedVault

theorem find?_split {α : Type} {p : α → Bool} {l : List α} {a : α} (hl : (l.filter p).length ≤ 1)
    (h : l.find? p = some a) : ∃ as bs, l = as ++ a :: bs ∧ p a = true ∧ ∀ b ∈ as ++ bs, p b = false := by
  obtain ⟨ha, as, bs, rfl, has⟩ := List.find?_eq_some_iff_append.mp h
  have has : ∀ b ∈ as, p b = false := by
    intro b hb
    simpa using has b hb
  have hnone : as.filter p = [] := List.filter_eq_nil_iff.mpr fun b hb => by simp [has b hb]
  rw [List.filter_append, List.filter_cons_of_pos ha, hnone, List.nil_append, List.length_cons] at hl
  have hbs : bs.filter p = [] := List.length_eq_zero_iff.mp (by omega)
  refine ⟨as, bs, rfl, ha, fun b hb => ?_⟩
  rcases List.mem_append.mp hb with hb | hb
  · exact has b hb
  · simpa using List.filter_eq_nil_iff.mp hbs b hb

theorem split_of_false {α : Type} {p : α → Bool} {as bs : List α} {a : α} (ha : p a = false)
    (h : ∀ b ∈ as ++ bs, p b = false) : ∀ b ∈ as ++ a :: bs, p b = false := by
  intro b hb
  rcases List.mem_append.mp hb with hb | hb
  · exact h b (List.mem_append_left bs hb)
  · rcases List.mem_cons.mp hb with rfl | hb
    · exact ha
    · exact h b (List.mem_append_right as hb)

theorem filter_append_single_le {α : Type} {p : α → Bool} {l : List α} (hl : ∀ b ∈ l, p b = false) (a : α) :
    ((l ++ [a]).filter p).length ≤ 1 := by
  have hnone : l.filter p = [] := List.filter_eq_nil_iff.mpr fun b hb => by simp [hl b hb]
  rw [List.filter_append, hnone, List.nil_append]
  exact List.length_filter_le p [a]

/-! ## In memory -/

theorem MemoryStore.retire?_split {r : KeyRecord} (hr : r.active = true) (bs : List KeyRecord) :
    ∀ as : List KeyRecord, (∀ q ∈ as, q.active = false) →
      retire? r.id (as ++ r :: bs) = some (as ++ r.retire :: bs)
  | [], _ => by
    rw [List.nil_append, retire?, if_pos ⟨hr, rfl⟩]
    rfl
  | q :: as, h => by
    have hq := h q List.mem_cons_self
    rw [List.cons_append, retire?, if_neg (by simp [hq]),
      retire?_split hr bs as fun p hp => h p (List.mem_cons_of_mem q hp)]
    rfl

/-! ## In a table -/

namespace TableRow

def retire (q : TableRow) : TableRow := { q with active := some 0 }

theorem id_of_toRecord {q : TableRow} {r : KeyRecord} (h : q.toRecord = .ok r) : r.id = q.id := by
  unfold toRecord at h
  split at h
  · cases h
  · cases h
  · cases h
    rfl

end TableRow

theorem TableStore.replace_split {row : TableRow} (hrow : row.isActive = true) {as bs : List TableRow}
    (h : ∀ q ∈ as ++ bs, q.isActive = false) (r : KeyRecord) :
    replace ⟨as ++ row :: bs⟩ row.id r =
      if r.id ∈ (as ++ row :: bs).map (·.id) then .error .activeRecordExists
      else .ok ⟨as ++ row.retire :: bs ++ [TableRow.ofRecord r]⟩ := by
  have hnamed : named row.id row = true := by simp [named, hrow]
  have hothers : ∀ qs : List TableRow, (∀ q ∈ qs, q.isActive = false) →
      qs.map (fun q => if named row.id q then { q with active := some 0 } else q) = qs := by
    intro qs hqs
    refine (List.map_congr_left fun q hq => ?_).trans (List.map_id' qs)
    rw [if_neg (by simp [named, hqs q hq])]
  have hmap : (as ++ row :: bs).map (fun q => if named row.id q then { q with active := some 0 } else q) =
      as ++ row.retire :: bs := by
    rw [List.map_append, List.map_cons, hothers as fun q hq => h q (List.mem_append_left bs hq),
      hothers bs fun q hq => h q (List.mem_append_right as hq), if_pos hnamed]
    rfl
  -- no row is active any more, so only a taken id is in the way
  have hany : (as ++ row.retire :: bs).any (fun q => q.isActive || q.id == r.id) =
      decide (r.id ∈ (as ++ row :: bs).map (·.id)) := by
    have hnone : ∀ q ∈ as ++ row.retire :: bs, q.isActive = false := split_of_false rfl h
    have hids : (as ++ row :: bs).map (·.id) = (as ++ row.retire :: bs).map (·.id) := by
      rw [List.map_append, List.map_append]
      rfl
    rw [hids, Bool.eq_iff_iff, List.any_eq_true, decide_eq_true_iff, List.mem_map]
    constructor
    · rintro ⟨q, hq, hid⟩
      rw [hnone q hq, Bool.false_or, beq_iff_eq] at hid
      exact ⟨q, hq, hid⟩
    · rintro ⟨q, hq, hid⟩
      exact ⟨q, hq, by rw [hid]; simp⟩
  rw [replace, if_pos (List.any_eq_true.mpr ⟨row, by simp, hnamed⟩), create, hmap, hany]
  simp

/-! ## In a store -/

namespace Store

def AtMostOneActive : Store → Prop
  | memory s => (s.records.filter (·.active)).length ≤ 1
  | table s => (s.rows.filter (·.isActive)).length ≤ 1
  | found _ => False

/-- No row has this id. In memory, any number of records may have it. -/
def Free (id : String) : Store → Prop
  | table s => id ∉ s.rows.map (·.id)
  | _ => True

/-- The store `s` holds `r` as its active record, and `t` holds what `s` does, but
`r` as a retired one, and the active record `q` besides. -/
inductive Replaced (r q : KeyRecord) : (s t : Store) → Prop
  | memory {as bs : List KeyRecord} (active : r.active = true) (others : ∀ p ∈ as ++ bs, p.active = false) :
      Replaced r q (.memory ⟨as ++ r :: bs⟩) (.memory ⟨as ++ r.retire :: bs ++ [q]⟩)
  | table {as bs : List TableRow} (row : TableRow) (reads : row.toRecord = .ok r) (active : row.isActive = true)
      (others : ∀ p ∈ as ++ bs, p.isActive = false) :
      Replaced r q (.table ⟨as ++ row :: bs⟩) (.table ⟨as ++ row.retire :: bs ++ [TableRow.ofRecord q]⟩)

variable {s t : Store} {r q : KeyRecord}

theorem AtMostOneActive.sound (h : s.AtMostOneActive) : s.Sound := by
  cases s with
  | memory s => exact h
  | table s => trivial
  | found s => exact h

/-- The record that is read is replaced, unless the new one's id is taken. -/
theorem replace_active (hs : s.AtMostOneActive) (hr : s.active? = .ok (some r)) (hq : q.active = true) :
    ∃ t, Replaced r q s t ∧ (s.Free q.id → s.replace r.id q = .ok t) ∧ ∀ u, s.replace r.id q = .ok u → u = t := by
  cases s with
  | found s => exact hs.elim
  | memory s =>
    obtain ⟨records⟩ := s
    obtain ⟨as, bs, rfl, ha, hothers⟩ := find?_split hs (Except.ok.inj hr)
    have hreplace : replace r.id q (.memory ⟨as ++ r :: bs⟩) = .ok (.memory ⟨as ++ r.retire :: bs ++ [q]⟩) := by
      rw [replace, MemoryStore.replace, MemoryStore.retire?_split ha bs as fun p hp => hothers p (List.mem_append_left bs hp)]
      simp only [MemoryStore.insert, ← hq]
      rfl
    exact ⟨_, .memory ha hothers, fun _ => hreplace, fun u hu => Except.ok.inj (hu.symm.trans hreplace)⟩
  | table s =>
    obtain ⟨rows⟩ := s
    unfold active? TableStore.active? at hr
    simp only at hr
    cases hf : rows.find? (·.isActive) with
    | none => rw [hf] at hr; cases hr
    | some row =>
      rw [hf] at hr
      obtain ⟨r', hread, hr'⟩ := Except.map_eq_ok hr
      cases hr'
      obtain ⟨as, bs, rfl, ha, hothers⟩ := find?_split hs hf
      have hreplace := TableStore.replace_split ha hothers q
      rw [← TableRow.id_of_toRecord hread] at hreplace
      refine ⟨_, .table row hread ha hothers, fun hfree => ?_, fun u hu => ?_⟩
      · rw [replace, hreplace, if_neg hfree]
        rfl
      · rw [replace, hreplace] at hu
        split at hu
        · cases hu
        · exact (Except.ok.inj hu).symm

namespace Replaced

theorem atMostOneActive (h : Replaced r q s t) : t.AtMostOneActive := by
  cases h with
  | memory active others => exact filter_append_single_le (split_of_false rfl others) q
  | table row reads active others => exact filter_append_single_le (split_of_false (a := row.retire) rfl others) _

theorem active? (h : Replaced r q s t) (hq : q.active = true) (ht : s.Reads q.createdAt) :
    t.active? = .ok (some q) := by
  cases h with
  | memory active others => exact congrArg Except.ok (find?_append_single (split_of_false rfl others) hq)
  | table row reads active others =>
    have hy : q.createdAt.FourDigitYear := ht.resolve_left nofun
    have hrow : TableRow.ofRecord q = TableRow.stored q := by simp [TableRow.stored, hq, TableRow.ofRecord]
    have hread : (TableRow.ofRecord q).toRecord = .ok q := by rw [hrow, TableRow.toRecord_stored, if_pos hy]
    have hf := find?_append_single (split_of_false (p := TableRow.isActive) (a := row.retire) rfl others)
      (rfl : (TableRow.ofRecord q).isActive = true)
    unfold Store.active? TableStore.active?
    simp only [hf, hread]
    rfl

end Replaced

end Store

end AttestedVault
