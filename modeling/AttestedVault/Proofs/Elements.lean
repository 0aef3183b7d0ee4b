import Mathlib.Data.List.Forall2
import AttestedVault.Der.Basic

/-!
# What a reader has read

A reader of elements that succeeds has taken a prefix of its input, and the
prefix is the written form of what it read. Only where a reader leaves
something out of account is that another value than the one it gives.
-/

namespace AttestedVault.Der

section
variable {α β ω : Type} {p : Parser α} {b rest : Bytes}

theorem bind_eq_some {q : α → Parser β} {r : β × Bytes} :
    (p >>= q) b = some r ↔ ∃ a mid, p b = some (a, mid) ∧ q a mid = some r := by
  change (p b).bind (fun x => q x.1 x.2) = some r ↔ _
  simp [Option.bind_eq_some_iff]

theorem pure_eq_some {a c : α} : (pure c : Parser α) b = some (a, rest) ↔ c = a ∧ b = rest := by
  change some (c, b) = some (a, rest) ↔ _
  simp

theorem map_eq_some {f : α → β} {r : β × Bytes} :
    (StateT.map f p) b = some r ↔ ∃ a mid, p b = some (a, mid) ∧ (f a, mid) = r := by
  change (p b).bind (fun x => some (f x.1, x.2)) = some r ↔ _
  simp [Option.bind_eq_some_iff]

theorem lift_eq_some {o : Option α} {a : α} :
    (StateT.lift o : Parser α) b = some (a, rest) ↔ o = some a ∧ b = rest := by
  cases o with
  | none => simp [StateT.lift]
  | some c => simp [StateT.lift]

end

/-! ## Lengths -/

theorem length_digits_mono {m n : Nat} (h : m ≤ n) : (digits m).length ≤ (digits n).length := by
  induction m using digits.induct generalizing n with
  | case1 =>
    rw [digits, dif_pos rfl]
    exact Nat.zero_le _
  | case2 m hm ih =>
    have hd := ih (Nat.div_le_div_right (c := 256) h)
    rw [digits, digits.eq_1 n, dif_neg hm, dif_neg (by omega), List.length_append, List.length_append]
    exact Nat.add_le_add_right hd 1

theorem length_lengthOctets_mono {m n : Nat} (h : m ≤ n) :
    (lengthOctets m).length ≤ (lengthOctets n).length := by
  have hd := length_digits_mono h
  unfold lengthOctets
  split <;> split <;> simp <;> omega

theorem readLength_spelled {b rest : Bytes} {n : Nat} (h : readLength b = some (n, rest)) :
    b = lengthOctets n ++ rest ∧ ∀ more, readLength (lengthOctets n ++ more) = some (n, more) := by
  cases b with
  | nil => cases h
  | cons x b =>
    by_cases hx : x < 0x80
    · rw [readLength, if_pos hx] at h
      obtain ⟨rfl, rfl⟩ := by simpa using h
      have hn : x.toNat < 128 := hx
      rw [lengthOctets, if_pos hn, UInt8.ofNat_toNat]
      refine ⟨rfl, fun more => ?_⟩
      rw [List.singleton_append, readLength, if_pos hx]
    · rw [readLength, if_neg hx] at h
      split at h
      · rename_i hl
        dsimp only at h
        split at h
        · rename_i hk
          obtain ⟨hlen, hmax, ho⟩ := hk
          obtain ⟨rfl, rfl⟩ := by simpa using h
          refine ⟨by rw [ho, List.cons_append, List.take_append_drop], fun more => ?_⟩
          have ht : (b.take (x.toNat - 128)).length = x.toNat - 128 := List.length_take_of_le hlen
          rw [ho, List.cons_append, readLength, if_neg hx, if_pos hl]
          simp [ht, hmax, ho]
        · cases h
      · cases h

/-! ## Elements -/

theorem readElement_spelled {b rest : Bytes} {e : Element} (h : readElement b = some (e, rest)) :
    b = e.toDer ++ rest ∧ (∀ more, readElement (e.toDer ++ more) = some (e, more)) ∧
      size? b = some e.toDer.length := by
  cases b with
  | nil => cases h
  | cons t b =>
    rw [readElement] at h
    split at h
    · rename_i ht
      cases hl : readLength b with
      | none => simp [hl] at h
      | some l =>
        obtain ⟨n, body⟩ := l
        obtain ⟨rfl, again⟩ := readLength_spelled hl
        simp only [hl] at h
        split at h
        · rename_i hn
          obtain ⟨rfl, rfl⟩ := by simpa using h
          have hc : (body.take n).length = n := List.length_take_of_le hn
          simp only [Element.toDer, hc]
          refine ⟨by simp, fun more => ?_, ?_⟩
          · simp [readElement, ht, again, hn]
          · simp [size?, ht, again]
            omega
        · cases h
    · cases h

theorem length_write (tag : UInt8) (content : Bytes) :
    (write tag content).length = 1 + (lengthOctets content.length).length + content.length := by
  simp only [write, Element.toDer, List.length_append, List.length_cons]
  omega

theorem read_spelled {b rest content : Bytes} {tag : UInt8} (h : Der.read tag b = some (content, rest)) :
    b = write tag content ++ rest ∧ ∀ more, Der.read tag (write tag content ++ more) = some (content, more) := by
  obtain ⟨e, mid, he, h⟩ := bind_eq_some.mp h
  obtain ⟨hb, again, -⟩ := readElement_spelled he
  split at h
  · rename_i ht
    obtain ⟨rfl, rfl⟩ := pure_eq_some.mp h
    have he : (⟨tag, e.content⟩ : Element) = e := by rw [← ht]
    rw [write, he]
    refine ⟨hb, fun more => bind_eq_some.mpr ⟨e, more, again more, ?_⟩⟩
    rw [if_pos ht]
    rfl
  · cases h

/-! ## Readers -/

/-- What `p` reads is spelled as the form `wire` of something that means it. -/
def Spelled {α ω : Type} (p : Parser α) (wire : ω → Bytes) (means : α → ω → Prop) : Prop :=
  ∀ ⦃b a rest⦄, p b = some (a, rest) → ∃ w, b = wire w ++ rest ∧ means a w

abbrev Exact {α : Type} (p : Parser α) (toDer : α → Bytes) : Prop := Spelled p toDer Eq

section
variable {α ω : Type} {p : Parser α} {wire : ω → Bytes} {means : α → ω → Prop}

theorem Exact.eq {toDer : α → Bytes} (hp : Exact p toDer) {b rest : Bytes} {a : α}
    (h : p b = some (a, rest)) : b = toDer a ++ rest := by
  obtain ⟨_, hb, rfl⟩ := hp h
  exact hb

theorem whole_eq_some {b : Bytes} {a : α} : whole p b = some a ↔ p b = some (a, []) := by
  unfold whole
  split
  · rename_i h
    simp [h]
  · rename_i h
    refine ⟨fun ha => ?_, fun ha => absurd ha (h a)⟩
    cases ha

theorem inside_eq_some {tag : UInt8} {b rest : Bytes} {a : α} :
    inside tag p b = some (a, rest) ↔ ∃ content, Der.read tag b = some (content, rest) ∧ p content = some (a, []) := by
  constructor
  · intro h
    obtain ⟨content, mid, hr, h⟩ := bind_eq_some.mp h
    obtain ⟨hw, rfl⟩ := lift_eq_some.mp h
    exact ⟨content, hr, whole_eq_some.mp hw⟩
  · rintro ⟨content, hr, hp⟩
    exact bind_eq_some.mpr ⟨content, rest, hr, lift_eq_some.mpr ⟨whole_eq_some.mpr hp, rfl⟩⟩

theorem size?_inside {tag : UInt8} {b rest : Bytes} {a : α} (h : inside tag p b = some (a, rest)) :
    size? b = some (b.length - rest.length) := by
  obtain ⟨content, hr, -⟩ := inside_eq_some.mp h
  obtain ⟨e, mid, he, ht⟩ := bind_eq_some.mp hr
  obtain ⟨hb, -, hsize⟩ := readElement_spelled he
  split at ht
  · obtain ⟨-, rfl⟩ := pure_eq_some.mp ht
    rw [hsize, hb, List.length_append, Nat.add_sub_cancel]
  · cases ht

theorem Spelled.inside (hp : Spelled p wire means) (tag : UInt8) :
    Spelled (inside tag p) (fun w => write tag (wire w)) means := by
  intro b a rest h
  obtain ⟨content, hr, h⟩ := inside_eq_some.mp h
  obtain ⟨w, hw, hm⟩ := hp h
  rw [List.append_nil] at hw
  subst hw
  exact ⟨w, (read_spelled hr).1, hm⟩

theorem Spelled.items (hp : Spelled p wire means) {fuel : Nat} {b : Bytes} {as : List α}
    (h : items p fuel b = some as) : ∃ ws, b = ws.flatMap wire ∧ List.Forall₂ means as ws := by
  induction fuel generalizing b as with
  | zero =>
    cases b with
    | nil =>
      cases h
      exact ⟨[], rfl, .nil⟩
    | cons x b => cases h
  | succ fuel ih =>
    cases b with
    | nil =>
      cases h
      exact ⟨[], rfl, .nil⟩
    | cons x b =>
      rw [Der.items] at h
      cases hx : p (x :: b) with
      | none => simp [hx] at h
      | some r =>
        obtain ⟨a, rest⟩ := r
        simp only [hx] at h
        obtain ⟨as', hs, rfl⟩ := Option.map_eq_some_iff.mp h
        obtain ⟨w, hw, hm⟩ := hp hx
        obtain ⟨ws, rfl, hms⟩ := ih hs
        exact ⟨w :: ws, hw, .cons hm hms⟩

theorem Spelled.list (hp : Spelled p wire means) (tag : UInt8) :
    Spelled (list tag p) (fun ws => write tag (ws.flatMap wire)) (List.Forall₂ means) := by
  intro b as rest h
  obtain ⟨content, mid, hr, h⟩ := bind_eq_some.mp h
  obtain ⟨hi, rfl⟩ := lift_eq_some.mp h
  obtain ⟨ws, rfl, hm⟩ := hp.items hi
  exact ⟨ws, (read_spelled hr).1, hm⟩

theorem optional_spelled (hp : Spelled p wire means) {tag : UInt8} :
    Spelled (optional tag p) (fun w : Option ω => (w.map wire).getD []) (Option.Rel means) := by
  intro b o rest h
  cases b with
  | nil =>
    cases h
    exact ⟨none, rfl, .none⟩
  | cons x b =>
    rw [optional] at h
    split at h
    · obtain ⟨a, mid, ha, he⟩ := map_eq_some.mp h
      cases he
      obtain ⟨w, hw, hm⟩ := hp ha
      exact ⟨some w, hw, .some hm⟩
    · cases h
      exact ⟨none, rfl, .none⟩

theorem map_of_rel {f : ω → α} {o : Option α} {w : Option ω} (h : Option.Rel (fun a w => a = f w) o w) :
    o = w.map f := by
  cases h with
  | some h => exact congrArg some h
  | none => rfl

/-! ## Tagged fields -/

/-- A tagged field as it stands in the input, with the elements before it that
the reader passes over. -/
structure TaggedField (α : Type) where
  passed : List Element
  value : Option α

def TaggedField.toDer (wire : ω → Bytes) (f : TaggedField ω) : Bytes :=
  f.passed.flatMap Element.toDer ++ (f.value.map wire).getD []

theorem skipTo_spelled (hp : Spelled p wire means) {number : UInt8} {fuel : Nat} :
    Spelled (skipTo number p fuel) (TaggedField.toDer wire)
      (fun o f => Option.Rel means o f.value ∧ ∀ e ∈ f.passed, e.tag % 32 < number) := by
  intro b o rest h
  fun_induction skipTo number p fuel b with
  | case1 =>
    cases h
    exact ⟨⟨[], none⟩, rfl, .none, by simp⟩
  | case2 => cases h
  | case3 =>
    cases h
    exact ⟨⟨[], none⟩, rfl, .none, by simp⟩
  | case4 =>
    obtain ⟨a, mid, ha, he⟩ := map_eq_some.mp h
    cases he
    obtain ⟨w, hw, hm⟩ := hp ha
    exact ⟨⟨[], some w⟩, hw, .some hm, by simp⟩
  | case5 x b _ hc hn _ e mid he ih =>
    obtain ⟨hb, -, -⟩ := readElement_spelled he
    obtain ⟨f, rfl, hm, hf⟩ := ih h
    have ht : e.tag = x := (List.cons.inj hb).1.symm
    have hlt : e.tag % 32 < number := by
      rw [ht]
      simp only [Bool.or_eq_true, decide_eq_true_eq, not_or] at hc
      exact UInt8.lt_of_le_of_ne (UInt8.not_lt.mp hc.2) hn
    refine ⟨⟨e :: f.passed, f.value⟩, ?_, hm, List.forall_mem_cons.mpr ⟨hlt, hf⟩⟩
    rw [hb, TaggedField.toDer, TaggedField.toDer, List.flatMap_cons, List.append_assoc, List.append_assoc, List.append_assoc]
  | case6 => cases h

theorem context_spelled (hp : Spelled p wire means) {passOver : Bool} {number : UInt8} :
    Spelled (context passOver number p) (TaggedField.toDer wire)
      (fun o f => Option.Rel means o f.value ∧ ∀ e ∈ f.passed, e.tag % 32 < number) :=
  fun _ _ _ h => skipTo_spelled hp h

end

/-! ## Written forms compared -/

/-- A form that is written instead of another: it is not longer, and it is the
same just where the other is plain. -/
structure Shortens (written spelled : Bytes) (plain : Prop) : Prop where
  length_le : written.length ≤ spelled.length
  eq_iff : written = spelled ↔ plain

namespace Shortens

variable {α ω : Type} {b c b' c' : Bytes} {P Q : Prop}

theorem refl (b : Bytes) : Shortens b b True := ⟨Nat.le_refl _, by simp⟩

theorem congr (h : Shortens b c P) (hPQ : P ↔ Q) : Shortens b c Q := ⟨h.length_le, h.eq_iff.trans hPQ⟩

theorem nil (b : Bytes) : Shortens [] b (b = []) := ⟨Nat.zero_le _, eq_comm⟩

theorem append (h : Shortens b c P) (h' : Shortens b' c' Q) : Shortens (b ++ b') (c ++ c') (P ∧ Q) := by
  have hl := h.length_le
  have hl' := h'.length_le
  refine ⟨by simp only [List.length_append]; omega, ?_⟩
  rw [← h.eq_iff, ← h'.eq_iff]
  constructor
  · intro he
    have hlen := congrArg List.length he
    simp only [List.length_append] at hlen
    exact List.append_inj he (by omega)
  · rintro ⟨rfl, rfl⟩
    rfl

theorem write (h : Shortens b c P) (tag : UInt8) : Shortens (write tag b) (write tag c) P := by
  have hl := h.length_le
  have ho := length_lengthOctets_mono hl
  refine ⟨?_, ?_⟩
  · rw [length_write, length_write]
    omega
  · rw [← h.eq_iff]
    constructor
    · intro he
      have hlen := congrArg List.length he
      rw [length_write, length_write] at hlen
      have hc : b.length = c.length := by omega
      exact (List.append_inj' he hc).2
    · rintro rfl
      rfl

theorem flatMap {written : α → Bytes} {spelled : ω → Bytes} {plain : ω → Prop} {as : List α}
    {ws : List ω} (h : List.Forall₂ (fun a w => Shortens (written a) (spelled w) (plain w)) as ws) :
    Shortens (as.flatMap written) (ws.flatMap spelled) (∀ w ∈ ws, plain w) := by
  induction h with
  | nil => exact (refl []).congr (by simp)
  | cons h _ ih =>
    rw [List.flatMap_cons, List.flatMap_cons]
    exact (h.append ih).congr (by simp)

theorem field {written spelled : ω → Bytes} {plain : ω → Prop}
    (h : ∀ w, Shortens (written w) (spelled w) (plain w)) (f : TaggedField ω) :
    Shortens ((f.value.map written).getD []) (f.toDer spelled) (f.passed = [] ∧ ∀ w ∈ f.value, plain w) := by
  have hpassed : Shortens [] (f.passed.flatMap Element.toDer) (f.passed = []) := by
    refine (nil _).congr ?_
    cases f.passed with
    | nil => simp
    | cons e es => simp [Element.toDer]
  refine hpassed.append ?_
  cases f.value with
  | none => exact (refl []).congr (by simp)
  | some w => exact (h w).congr (by simp)

end Shortens

end AttestedVault.Der
