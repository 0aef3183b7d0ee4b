import AttestedVault.Proofs.History

/-!
# One store in place of the other

The store in memory and the table give the same answers to the same calls, as
long as the records that are stored have ids of their own and times of creation
that a table can read.
-/

namespace AttestedVault

def StoreCall.record? : StoreCall → Option KeyRecord
  | .create r => some r
  | .replace _ r => some r
  | _ => none

namespace Store

/-- The record is told apart from the stored ones and can be read from a table. -/
def Admits (s : Store) (r : KeyRecord) : Prop :=
  r.createdAt.FourDigitYear ∧ ∀ rs, s.list = .ok rs → ∀ q ∈ rs, q.id ≠ r.id

def AdmitsAll (s : Store) : List StoreCall → Prop
  | [] => True
  | c :: cs => (∀ r a, c.record? = some r → (s.call c).1 = .ok a → s.Admits r) ∧ (s.call c).2.AdmitsAll cs

end Store

theorem map_succession {α : Type} (f : KeyRecord → α) (hr : ∀ r, f r.retire = f r)
    (ha : ∀ r, f r.activate = f r) (rs : List KeyRecord) : (succession rs).map f = rs.map f := by
  rcases List.eq_nil_or_concat rs with rfl | ⟨rs, r, rfl⟩
  · rfl
  · simp [List.concat_eq_append, succession_concat, hr, ha]

theorem map_id_succession (rs : List KeyRecord) : (succession rs).map (·.id) = rs.map (·.id) :=
  map_succession _ (fun _ => rfl) (fun _ => rfl) rs

theorem readable_succession {rs : List KeyRecord} (h : ∀ r ∈ rs, r.createdAt.FourDigitYear) :
    ∀ r ∈ succession rs, r.createdAt.FourDigitYear := by
  intro r hr
  have hmap := map_succession (·.createdAt) (fun _ => rfl) (fun _ => rfl) rs
  obtain ⟨q, hq, he⟩ := List.mem_map.mp (hmap ▸ List.mem_map_of_mem hr)
  exact he ▸ h q hq

namespace TableStore

theorem list_ofRecords (rs : List KeyRecord) (hy : ∀ r ∈ rs, r.createdAt.FourDigitYear) :
    (ofRecords rs).list = .ok rs := by
  unfold list ofRecords
  induction rs with
  | nil => rfl
  | cons r rs ih =>
    have hr : (TableRow.stored r).toRecord = .ok r := by
      rw [TableRow.toRecord_stored, if_pos (hy r List.mem_cons_self)]
    have hrs := ih fun q hq => hy q (List.mem_cons_of_mem r hq)
    rw [List.map_cons, List.mapM_cons, hr, hrs]
    rfl

end TableStore

namespace Store

def inMemory (rs : List KeyRecord) : Store := memory ⟨succession rs⟩

def inTable (rs : List KeyRecord) : Store := table (.ofRecords (succession rs))

variable {rs : List KeyRecord}

theorem active?_inTable (hy : ∀ r ∈ rs, r.createdAt.FourDigitYear) :
    (inTable rs).active? = (inMemory rs).active? := by
  have hm : (inMemory rs).Contains (succession rs) := rfl
  have ht : (inTable rs).Contains (succession rs) := rfl
  rw [hm.active?_eq, ht.active?_eq]
  cases hl : (succession rs).getLast? with
  | none => rfl
  | some r => exact if_pos (readable_succession hy r (List.mem_of_getLast? hl))

theorem call_agree (hy : ∀ r ∈ rs, r.createdAt.FourDigitYear) (c : StoreCall)
    (hc : ∀ r a, c.record? = some r → ((inMemory rs).call c).1 = .ok a → (inMemory rs).Admits r) :
    ∃ a rs', (inMemory rs).call c = (a, inMemory rs') ∧ (inTable rs).call c = (a, inTable rs') ∧
      (∀ r ∈ rs', r.createdAt.FourDigitYear) ∧ rs'.Sublist (rs ++ c.record?.toList) := by
  have hkeep : ∀ qs : List KeyRecord, rs.Sublist (rs ++ qs) := fun qs => List.sublist_append_left rs qs
  cases c with
  | create r =>
    have hm := MemoryStore.create_eq rs r
    have ht := TableStore.create_eq rs r
    by_cases hn : rs = []
    · rw [if_pos hn] at hm ht
      have ha : (inMemory rs).call (.create r) = (.ok .done, inMemory [r]) :=
        change_of_ok (congrArg (Except.map memory) hm)
      obtain ⟨hyr, -⟩ := hc r .done rfl (congrArg Prod.fst ha)
      exact ⟨_, [r], ha, change_of_ok (congrArg (Except.map table) ht), by simpa using hyr,
        by simp [hn, StoreCall.record?]⟩
    · rw [if_neg hn] at hm ht
      exact ⟨_, rs, change_of_error (congrArg (Except.map memory) hm),
        change_of_error (congrArg (Except.map table) ht), hy, hkeep _⟩
  | replace previous r =>
    have hm := MemoryStore.replace_eq rs previous r
    have ht := TableStore.replace_eq rs previous r
    by_cases hn : rs.getLast?.map (·.id) = some previous
    · rw [if_pos hn] at hm ht
      have ha : (inMemory rs).call (.replace previous r) = (.ok .done, inMemory (rs ++ [r])) :=
        change_of_ok (congrArg (Except.map memory) hm)
      obtain ⟨hyr, hid⟩ := hc r .done rfl (congrArg Prod.fst ha)
      -- the table looks at the ids of the retired records too
      have hnew : r.id ∉ rs.map (·.id) := by
        rw [← map_id_succession]
        intro hmem
        obtain ⟨q, hq, he⟩ := List.mem_map.mp hmem
        exact hid _ rfl q hq he
      rw [if_neg hnew] at ht
      refine ⟨_, rs ++ [r], ha, change_of_ok (congrArg (Except.map table) ht), ?_, .refl _⟩
      intro q hq
      rcases List.mem_append.mp hq with hq | hq
      · exact hy q hq
      · obtain rfl := List.mem_singleton.mp hq
        exact hyr
    · rw [if_neg hn] at hm ht
      exact ⟨_, rs, change_of_error (congrArg (Except.map memory) hm),
        change_of_error (congrArg (Except.map table) ht), hy, hkeep _⟩
  | active => exact ⟨_, rs, rfl, by simp only [call, active?_inTable hy], hy, hkeep _⟩
  | hasActive => exact ⟨_, rs, rfl, by simp only [call, hasActive, active?_inTable hy], hy, hkeep _⟩
  | list =>
    have ht : (inTable rs).list = (inMemory rs).list := TableStore.list_ofRecords _ (readable_succession hy)
    exact ⟨_, rs, rfl, by simp only [call, ht], hy, hkeep _⟩

theorem answers_inTable (cs : List StoreCall) (hy : ∀ r ∈ rs, r.createdAt.FourDigitYear)
    (h : (inMemory rs).AdmitsAll cs) : (inMemory rs).answers cs = (inTable rs).answers cs := by
  induction cs generalizing rs with
  | nil => rfl
  | cons c cs ih =>
    obtain ⟨hc, hcs⟩ := h
    obtain ⟨a, rs', hm, ht, hy', -⟩ := call_agree hy c hc
    rw [hm] at hcs
    simp only [answers, hm, ht]
    rw [ih hy' hcs]

/-- The two stores answer alike, whatever the calls are. -/
theorem answers_agree (cs : List StoreCall) (h : (memory .empty).AdmitsAll cs) :
    (memory .empty).answers cs = (table .empty).answers cs :=
  answers_inTable cs (fun _ hr => absurd hr List.not_mem_nil) h

theorem admitsAll_of_nodup (cs : List StoreCall) (hrs : ∀ r ∈ rs, r.createdAt.FourDigitYear)
    (hcs : ∀ r ∈ cs.filterMap (·.record?), r.createdAt.FourDigitYear)
    (hn : ((rs ++ cs.filterMap (·.record?)).map (·.id)).Nodup) : (inMemory rs).AdmitsAll cs := by
  induction cs generalizing rs with
  | nil => trivial
  | cons c cs ih =>
    have hcons : (c :: cs).filterMap (·.record?) = c.record?.toList ++ cs.filterMap (·.record?) := by
      cases hr : c.record? <;> simp [hr]
    rw [hcons] at hcs hn
    have hc : ∀ r a, c.record? = some r → ((inMemory rs).call c).1 = .ok a → (inMemory rs).Admits r := by
      intro r a hr ha
      rw [hr] at hcs hn
      refine ⟨hcs r (by simp), ?_⟩
      rintro qs ⟨⟩ q hq he
      have hid : q.id ∈ rs.map (·.id) := by
        rw [← map_id_succession]
        exact List.mem_map_of_mem hq
      rw [List.map_append, List.nodup_append] at hn
      exact hn.2.2 _ hid r.id (by simp) he
    refine ⟨hc, ?_⟩
    obtain ⟨a, rs', ha, -, hrs', hsub⟩ := call_agree hrs c hc
    rw [ha]
    apply ih hrs'
    · exact fun r hr => hcs r (List.mem_append_right _ hr)
    · rw [← List.append_assoc] at hn
      exact hn.sublist ((hsub.append_right _).map _)

theorem answers_agree_replaced :
    (memory .empty).answers [.create (.blank "a"), .replace "a" (.blank "b"), .replace "a" (.blank "c"), .list] =
    (table .empty).answers [.create (.blank "a"), .replace "a" (.blank "b"), .replace "a" (.blank "c"), .list] :=
  answers_agree _ (@admitsAll_of_nodup [] _ (by decide) (by decide) (by decide))

end Store

end AttestedVault
