import AttestedVault.Proofs.Interchange

/-!
# Accepted records

A store holds the records that it has accepted, in order, and a table gives
them back, as long as it can read the times at which they were created.
-/

namespace AttestedVault

namespace Store

def gained (c : StoreCall) (answer : Except StoreError StoreAnswer) : List KeyRecord :=
  match answer with
  | .ok _ => c.record?.toList
  | .error _ => []

/-- The records that a store accepts in a row of calls. -/
def accepted (s : Store) : List StoreCall → List KeyRecord
  | [] => []
  | c :: cs => gained c (s.call c).1 ++ (s.call c).2.accepted cs

theorem gained_ok {c : StoreCall} {r : KeyRecord} {a : StoreAnswer} (h : c.record? = some r) :
    gained c (.ok a) = [r] := by
  simp [gained, h]

theorem call_inTable (rs : List KeyRecord) (c : StoreCall) :
    ((inTable rs).call c).2 = inTable (rs ++ gained c ((inTable rs).call c).1) := by
  have hkeep : inTable rs = inTable (rs ++ []) := by rw [List.append_nil]
  cases c with
  | create r =>
    cases hc : (inTable rs).create r with
    | error e =>
      rw [call, change_of_error hc]
      exact hkeep
    | ok s =>
      rw [call, change_of_ok hc]
      obtain ⟨t, ht, rfl⟩ := Except.map_eq_ok hc
      rw [TableStore.create_eq] at ht
      split at ht
      · subst rs
        cases ht
        rfl
      · cases ht
  | replace previous r =>
    cases hc : (inTable rs).replace previous r with
    | error e =>
      rw [call, change_of_error hc]
      exact hkeep
    | ok s =>
      rw [call, change_of_ok hc]
      obtain ⟨t, ht, rfl⟩ := Except.map_eq_ok hc
      rw [TableStore.replace_eq] at ht
      split at ht
      · split at ht
        · cases ht
        · cases ht
          rfl
      · cases ht
  | active =>
    rw [call]
    cases (inTable rs).active? <;> exact hkeep
  | hasActive =>
    rw [call]
    cases (inTable rs).hasActive <;> exact hkeep
  | list =>
    rw [call]
    cases (inTable rs).list <;> exact hkeep

theorem after_inTable (rs : List KeyRecord) (cs : List StoreCall) :
    (inTable rs).after cs = inTable (rs ++ (inTable rs).accepted cs) := by
  induction cs generalizing rs with
  | nil => rw [accepted, List.append_nil, after]
  | cons c cs ih => rw [after, accepted, call_inTable, ih, ← call_inTable, List.append_assoc]

end Store

theorem getElem?_succession (olds : List KeyRecord) (r : KeyRecord) (news : List KeyRecord) :
    (succession (olds ++ r :: news))[olds.length]? = some (if news = [] then r.activate else r.retire) := by
  rcases List.eq_nil_or_concat news with rfl | ⟨news, q, rfl⟩
  · rw [succession_concat, if_pos rfl]
    simp
  · rw [List.concat_eq_append, ← List.cons_append, ← List.append_assoc, succession_concat,
      if_neg (by simp)]
    simp

namespace TableStore

/-- The first record with a time that cannot be read spoils the listing. -/
theorem list_unread {rs : List KeyRecord} (h : ¬ ∀ r ∈ rs, r.createdAt.FourDigitYear) :
    ∃ q ∈ rs, ¬ q.createdAt.FourDigitYear ∧ (ofRecords rs).list = .error (.corrupt (q.id ++ ": created_at")) := by
  induction rs with
  | nil => exact absurd (fun _ hr => absurd hr List.not_mem_nil) h
  | cons r rs ih =>
    have hlist : (ofRecords (r :: rs)).list =
        (TableRow.stored r).toRecord.bind fun q => (ofRecords rs).list.map (q :: ·) := by
      rw [list, ofRecords, List.map_cons, List.mapM_cons]
      rfl
    rw [TableRow.toRecord_stored] at hlist
    by_cases hr : r.createdAt.FourDigitYear
    · obtain ⟨q, hq, hqy, hl⟩ := ih fun hrs => h (List.forall_mem_cons.mpr ⟨hr, hrs⟩)
      rw [if_pos hr, hl] at hlist
      exact ⟨q, List.mem_cons_of_mem r hq, hqy, hlist⟩
    · rw [if_neg hr] at hlist
      exact ⟨r, List.mem_cons_self, hr, hlist⟩

end TableStore

namespace Store

theorem list_succession {t : Store} {rs : List KeyRecord} (h : t = inTable rs) :
    ((∀ r ∈ rs, r.createdAt.FourDigitYear) → t.list = .ok (succession rs)) ∧
    ((¬ ∀ r ∈ rs, r.createdAt.FourDigitYear) →
      ∃ q ∈ rs, ¬ q.createdAt.FourDigitYear ∧ t.list = .error (.corrupt (q.id ++ ": created_at"))) := by
  subst h
  refine ⟨fun hy => TableStore.list_ofRecords _ (readable_succession hy), fun hn => ?_⟩
  have hmap := map_succession (fun r => (r.id, r.createdAt)) (fun _ => rfl) (fun _ => rfl) rs
  have hstored : ¬ ∀ r ∈ succession rs, r.createdAt.FourDigitYear := by
    intro hy
    refine hn fun r hr => ?_
    obtain ⟨q, hq, he⟩ := List.mem_map.mp (hmap ▸ List.mem_map_of_mem hr)
    have ht : q.createdAt = r.createdAt := congrArg Prod.snd he
    exact ht ▸ hy q hq
  obtain ⟨q, hq, hqy, hl⟩ := TableStore.list_unread hstored
  obtain ⟨r, hr, he⟩ := List.mem_map.mp (hmap ▸ List.mem_map_of_mem hq)
  obtain ⟨hid, ht⟩ := Prod.mk.inj he
  exact ⟨r, hr, ht ▸ hqy, hid ▸ hl⟩

/-- A table gives back what it has accepted: as the active record until the next
one is accepted, and in the listing from then on. Times of creation in years of
other than four digits are accepted, but cannot be read. -/
theorem accepted_given_back (before later : List StoreCall) (c : StoreCall) (r : KeyRecord)
    (hr : c.record? = some r) {a : StoreAnswer} (ha : (((table .empty).after before).call c).1 = .ok a) :
    let olds := (table .empty).accepted before
    let next := (((table .empty).after before).call c).2
    let news := next.accepted later
    let all := olds ++ r :: news
    (news = [] → (next.after later).active? =
      if r.createdAt.FourDigitYear then .ok (some r.activate) else .error (.corrupt (r.id ++ ": created_at"))) ∧
    ((∀ q ∈ all, q.createdAt.FourDigitYear) → (next.after later).list = .ok (succession all) ∧
      (succession all)[olds.length]? = some (if news = [] then r.activate else r.retire)) ∧
    ((¬ ∀ q ∈ all, q.createdAt.FourDigitYear) → ∃ q ∈ all, ¬ q.createdAt.FourDigitYear ∧
      (next.after later).list = .error (.corrupt (q.id ++ ": created_at"))) := by
  intro olds next news all
  have hbefore : (table .empty).after before = inTable olds := after_inTable [] before
  have hnext : next = inTable (olds ++ [r]) := by
    have hc := call_inTable olds c
    rw [hbefore] at ha
    rwa [ha, gained_ok hr, ← hbefore] at hc
  have hlater : next.after later = inTable all := by
    have hl := after_inTable (olds ++ [r]) later
    rwa [← hnext, List.append_assoc] at hl
  obtain ⟨hread, hunread⟩ := list_succession hlater
  refine ⟨fun hn => ?_, fun hy => ⟨hread hy, getElem?_succession olds r news⟩, hunread⟩
  have hc : (inTable all).Contains (succession all) := rfl
  rw [hlater, hc.active?_eq, getLast?_succession]
  have hlast : all.getLast? = some r := by simp [all, hn]
  rw [hlast]
  rfl

theorem accepted_given_back_replaced :
    ((table .empty).after [.create (.blank "a"), .replace "a" (.blank "b")]).active? =
        .ok (some (KeyRecord.blank "b").activate) ∧
      ((table .empty).after [.create (.blank "a"), .replace "a" (.blank "b"), .replace "b" (.blank "c")]).list =
        .ok [(KeyRecord.blank "a").retire, (KeyRecord.blank "b").retire, (KeyRecord.blank "c").activate] :=
  ⟨(accepted_given_back [.create (.blank "a")] [] (.replace "a" (.blank "b")) (.blank "b") rfl (a := .done) rfl).1 rfl,
    ((accepted_given_back [.create (.blank "a")] [.replace "b" (.blank "c")] (.replace "a" (.blank "b"))
      (.blank "b") rfl (a := .done) rfl).2.1 (by decide)).1⟩

end Store

end AttestedVault
