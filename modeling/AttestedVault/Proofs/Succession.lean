import AttestedVault.Proofs.ActiveRecord
import AttestedVault.Proofs.Clock

/-!
# Records that succeed each other

What a store holds if each record took the place of the one before: all of
them, the last one active. A record is created in an empty store only, and
replaced only by naming the last one.
-/

namespace AttestedVault

namespace KeyRecord

def retire (r : KeyRecord) : KeyRecord := { r with active := false }

def activate (r : KeyRecord) : KeyRecord := { r with active := true }

theorem activate_of_active {r : KeyRecord} (h : r.active = true) : r.activate = r := by
  unfold activate
  rw [← h]

end KeyRecord

/-- The records with their flags after each has taken the place of the one before. -/
def succession : List KeyRecord → List KeyRecord
  | [] => []
  | [r] => [r.activate]
  | r :: rest => r.retire :: succession rest

theorem succession_concat (r : KeyRecord) : ∀ rs, succession (rs ++ [r]) = rs.map (·.retire) ++ [r.activate]
  | [] => rfl
  | [_] => rfl
  | q :: p :: rs => congrArg (q.retire :: ·) (succession_concat r (p :: rs))

/-! ## In memory -/

namespace MemoryStore

theorem active_retire {rs : List KeyRecord} : ∀ q ∈ rs.map (·.retire), q.active = false := by
  intro q hq
  obtain ⟨r, -, rfl⟩ := List.mem_map.mp hq
  rfl

theorem active?_eq (rs : List KeyRecord) : active? ⟨succession rs⟩ = rs.getLast?.map (·.activate) := by
  rcases List.eq_nil_or_concat rs with rfl | ⟨rs, r, rfl⟩
  · rfl
  · rw [List.concat_eq_append, active?, succession_concat, List.getLast?_concat]
    exact find?_append_single active_retire rfl

theorem active?_succession {rs : List KeyRecord} (ha : ∀ r ∈ rs, r.active = true) :
    active? ⟨succession rs⟩ = rs.getLast? := by
  rw [active?_eq]
  cases h : rs.getLast? with
  | none => rfl
  | some r => exact congrArg some (KeyRecord.activate_of_active (ha r (List.mem_of_getLast? h)))

theorem create_eq (rs : List KeyRecord) (r : KeyRecord) : create ⟨succession rs⟩ r =
    if rs = [] then .ok ⟨succession [r]⟩ else .error .activeRecordExists := by
  rcases List.eq_nil_or_concat rs with rfl | ⟨rs, q, rfl⟩
  · rfl
  · rw [List.concat_eq_append, create, succession_concat]
    simp [KeyRecord.activate]

theorem retire?_append (id : String) (r : KeyRecord) : ∀ rs : List KeyRecord,
    retire? id (rs.map (·.retire) ++ [r.activate]) =
      if r.id = id then some ((rs ++ [r]).map (·.retire)) else none
  | [] => by
    by_cases h : r.id = id <;> simp [retire?, KeyRecord.activate, KeyRecord.retire, h]
  | q :: rs => by
    have ih := retire?_append id r rs
    rw [List.map_cons, List.cons_append, retire?, if_neg (by simp [KeyRecord.retire]), ih]
    split <;> rfl

theorem replace_eq (rs : List KeyRecord) (previous : String) (r : KeyRecord) :
    replace ⟨succession rs⟩ previous r =
      if rs.getLast?.map (·.id) = some previous then .ok ⟨succession (rs ++ [r])⟩
      else .error (.activeRecordChanged previous) := by
  rcases List.eq_nil_or_concat rs with rfl | ⟨rs, q, rfl⟩
  · rfl
  · rw [List.concat_eq_append, replace, succession_concat, retire?_append, List.getLast?_concat]
    by_cases hq : q.id = previous
    · rw [if_pos hq, if_pos (by rw [Option.map_some, hq]), succession_concat]
      rfl
    · simp [hq]

end MemoryStore

/-! ## In a table -/

namespace TableRow

def stored (r : KeyRecord) : TableRow := { ofRecord r with active := some (if r.active then 1 else 0) }

theorem isActive_stored (r : KeyRecord) : (stored r).isActive = r.active := by
  cases h : r.active <;> simp [isActive, stored, h]

/-- The time of creation is written in a form that is read back in years of four
digits only. -/
theorem toRecord_stored (r : KeyRecord) : (stored r).toRecord =
    if r.createdAt.FourDigitYear then .ok r else .error (.corrupt (r.id ++ ": created_at")) := by
  unfold toRecord
  by_cases h : r.createdAt.FourDigitYear
  · have ht : Rfc3339.ofTextStrict? (stored r).createdAt = some r.createdAt :=
      Rfc3339.ofTextStrict?_toTextNumeric h
    rw [ht, if_pos h]
    cases r with
    | mk _ _ _ _ _ _ a _ => cases a <;> rfl
  · have ht : Rfc3339.ofTextStrict? (stored r).createdAt = none :=
      Rfc3339.ofTextStrict?_toTextNumeric_none h
    rw [ht, if_neg h]
    rfl

theorem eq_of_toRecord_stored {r q : KeyRecord} (h : (stored r).toRecord = .ok q) : q = r := by
  rw [toRecord_stored] at h
  split at h
  · exact (Except.ok.inj h).symm
  · cases h

end TableRow

namespace TableStore

def ofRecords (rs : List KeyRecord) : TableStore := ⟨rs.map TableRow.stored⟩

theorem rows_concat (rs : List KeyRecord) (r : KeyRecord) : (ofRecords (succession (rs ++ [r]))).rows =
    rs.map (fun q => TableRow.stored q.retire) ++ [TableRow.ofRecord r] := by
  rw [ofRecords, succession_concat, List.map_append, List.map_map]
  rfl

theorem isActive_retire {rs : List KeyRecord} :
    ∀ q ∈ rs.map (fun r => TableRow.stored r.retire), q.isActive = false := by
  intro q hq
  obtain ⟨r, -, rfl⟩ := List.mem_map.mp hq
  exact TableRow.isActive_stored r.retire

theorem active?_eq (rs : List KeyRecord) : active? (ofRecords (succession rs)) =
    match rs.getLast? with
    | none => .ok none
    | some r => (TableRow.stored r.activate).toRecord.map some := by
  rcases List.eq_nil_or_concat rs with rfl | ⟨rs, r, rfl⟩
  · rfl
  · rw [List.concat_eq_append, active?, rows_concat, find?_append_single isActive_retire rfl,
      List.getLast?_concat]
    rfl

theorem active?_succession {rs : List KeyRecord} (ha : ∀ r ∈ rs, r.active = true) {o : Option KeyRecord}
    (ho : active? (ofRecords (succession rs)) = .ok o) : o = rs.getLast? := by
  rw [active?_eq] at ho
  cases h : rs.getLast? with
  | none =>
    rw [h] at ho
    cases ho
    rfl
  | some r =>
    rw [h] at ho
    simp only [KeyRecord.activate_of_active (ha r (List.mem_of_getLast? h))] at ho
    cases ht : (TableRow.stored r).toRecord with
    | error e => rw [ht] at ho; cases ho
    | ok q =>
      rw [ht] at ho
      cases ho
      rw [TableRow.eq_of_toRecord_stored ht]

theorem create_eq (rs : List KeyRecord) (r : KeyRecord) : create (ofRecords (succession rs)) r =
    if rs = [] then .ok (ofRecords (succession [r])) else .error .activeRecordExists := by
  rcases List.eq_nil_or_concat rs with rfl | ⟨rs, q, rfl⟩
  · rfl
  · rw [List.concat_eq_append, create, rows_concat]
    simp [TableRow.isActive, TableRow.ofRecord]

theorem create_retired (rs : List KeyRecord) (r : KeyRecord) :
    create ⟨rs.map fun q => TableRow.stored q.retire⟩ r =
      if r.id ∈ rs.map (·.id) then .error .activeRecordExists
      else .ok (ofRecords (succession (rs ++ [r]))) := by
  have hr : ofRecords (succession (rs ++ [r])) =
      ⟨(rs.map fun q => TableRow.stored q.retire) ++ [TableRow.ofRecord r]⟩ := by
    rw [← rows_concat]
  have hany : ((rs.map fun q => TableRow.stored q.retire).any fun q => q.isActive || q.id == r.id) =
      decide (r.id ∈ rs.map (·.id)) := by
    have hid : ∀ q : KeyRecord, (TableRow.stored q.retire).id = q.id := fun _ => rfl
    have hact : ∀ q : KeyRecord, (TableRow.stored q.retire).isActive = false :=
      fun q => TableRow.isActive_stored q.retire
    rw [Bool.eq_iff_iff]
    simp [hid, hact]
  rw [create, hany, hr]
  simp

theorem map_retire (rs : List KeyRecord) (q : KeyRecord) :
    (rs.map (fun r => TableRow.stored r.retire) ++ [TableRow.ofRecord q]).map
        (fun p => if named q.id p then { p with active := some 0 } else p) =
      (rs ++ [q]).map fun r => TableRow.stored r.retire := by
  -- only the last row is active, so no other one is retired
  have hrs : ∀ p ∈ rs.map (fun r => TableRow.stored r.retire),
      (if named q.id p then { p with active := some 0 } else p) = p := by
    intro p hp
    rw [if_neg]
    simp [named, isActive_retire p hp]
  rw [List.map_append, List.map_congr_left hrs, List.map_id', List.map_append, List.map_singleton,
    if_pos (by simp [named, TableRow.isActive, TableRow.ofRecord])]
  rfl

theorem any_named (rs : List KeyRecord) (previous : String) :
    (ofRecords (succession rs)).rows.any (named previous) = decide (rs.getLast?.map (·.id) = some previous) := by
  rcases List.eq_nil_or_concat rs with rfl | ⟨rs, q, rfl⟩
  · rfl
  · have hrs : (rs.map fun r => TableRow.stored r.retire).any (named previous) = false := by
      rw [List.any_eq_false]
      intro p hp
      simp [named, isActive_retire p hp]
    rw [List.concat_eq_append, rows_concat, List.any_append, hrs, List.getLast?_concat]
    simp [named, TableRow.isActive, TableRow.ofRecord, Bool.beq_eq_decide_eq]

theorem replace_eq (rs : List KeyRecord) (previous : String) (r : KeyRecord) :
    replace (ofRecords (succession rs)) previous r =
      if rs.getLast?.map (·.id) = some previous then
        if r.id ∈ rs.map (·.id) then .error .activeRecordExists
        else .ok (ofRecords (succession (rs ++ [r])))
      else .error (.activeRecordChanged previous) := by
  rw [replace, any_named]
  by_cases h : rs.getLast?.map (·.id) = some previous
  · obtain ⟨q, hq, rfl⟩ := Option.map_eq_some_iff.mp h
    obtain ⟨rs, rfl⟩ := List.getLast?_eq_some_iff.mp hq
    rw [if_pos (decide_eq_true h), if_pos h, rows_concat, map_retire, create_retired]
  · simp [h]

end TableStore

/-! ## In a store -/

theorem Except.map_eq_ok {ε α β : Type} {f : α → β} {x : Except ε α} {b : β} (h : x.map f = .ok b) :
    ∃ a, x = .ok a ∧ f a = b := by
  cases x with
  | error e => cases h
  | ok a => exact ⟨a, rfl, Except.ok.inj h⟩

namespace Store

/-- The store has exactly these records, in this order. -/
def Contains (rs : List KeyRecord) : Store → Prop
  | memory s => s = ⟨rs⟩
  | table s => s = .ofRecords rs
  | found _ => False

variable {s s' : Store} {rs : List KeyRecord} {r : KeyRecord}

/-- What is read as the active record is the last one that was stored. -/
theorem Contains.active? (h : s.Contains (succession rs)) (ha : ∀ r ∈ rs, r.active = true)
    {o : Option KeyRecord} (ho : s.active? = .ok o) : o = rs.getLast? := by
  cases s with
  | found s => exact h.elim
  | memory s =>
    cases h
    rw [← MemoryStore.active?_succession ha]
    exact (Except.ok.inj ho).symm
  | table s =>
    cases h
    exact TableStore.active?_succession ha ho

theorem Contains.create (h : s.Contains (succession rs)) (hc : s.create r = .ok s') :
    rs = [] ∧ s'.Contains (succession [r]) := by
  cases s with
  | found s => exact h.elim
  | memory s =>
    cases h
    obtain ⟨t, ht, rfl⟩ := Except.map_eq_ok hc
    rw [MemoryStore.create_eq] at ht
    split at ht
    · exact ⟨‹_›, (Except.ok.inj ht).symm⟩
    · cases ht
  | table s =>
    cases h
    obtain ⟨t, ht, rfl⟩ := Except.map_eq_ok hc
    rw [TableStore.create_eq] at ht
    split at ht
    · exact ⟨‹_›, (Except.ok.inj ht).symm⟩
    · cases ht

theorem Contains.replace {previous : String} (h : s.Contains (succession rs))
    (hc : s.replace previous r = .ok s') :
    (∃ q, rs.getLast? = some q ∧ q.id = previous) ∧ s'.Contains (succession (rs ++ [r])) := by
  cases s with
  | found s => exact h.elim
  | memory s =>
    cases h
    obtain ⟨t, ht, rfl⟩ := Except.map_eq_ok hc
    rw [MemoryStore.replace_eq] at ht
    split at ht
    · exact ⟨Option.map_eq_some_iff.mp ‹_›, (Except.ok.inj ht).symm⟩
    · cases ht
  | table s =>
    cases h
    obtain ⟨t, ht, rfl⟩ := Except.map_eq_ok hc
    rw [TableStore.replace_eq] at ht
    split at ht
    · split at ht
      · cases ht
      · exact ⟨Option.map_eq_some_iff.mp ‹_›, (Except.ok.inj ht).symm⟩
    · cases ht

end Store

end AttestedVault
