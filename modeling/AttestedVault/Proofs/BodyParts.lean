import AttestedVault.Certificate.Basic
import AttestedVault.Proofs.Elements

/-!
# Parts of a certificate

Keys, algorithms and times are written as they were read. The attributes of a
name are too if they already stand in ascending order.
-/

namespace AttestedVault.Der

theorem Oid.read_exact : Exact Oid.read Oid.toDer := by
  intro b o rest h
  obtain ⟨octets, mid, hr, h⟩ := bind_eq_some.mp h
  split at h
  · obtain ⟨rfl, rfl⟩ := pure_eq_some.mp h
    exact ⟨_, (read_spelled hr).1, rfl⟩
  · cases h

theorem BitString.readAs_exact (tag : UInt8) : Exact (BitString.readAs tag) fun s => write tag s.content := by
  intro b s rest h
  obtain ⟨content, mid, hr, h⟩ := bind_eq_some.mp h
  obtain ⟨hs, rfl⟩ := lift_eq_some.mp h
  have hc : s.content = content := by
    cases content with
    | nil => cases hs
    | cons x octets =>
      rw [ofContent] at hs
      split at hs
      · cases hs
      · cases hs
        rfl
  subst hc
  exact ⟨s, (read_spelled hr).1, rfl⟩

end AttestedVault.Der

namespace AttestedVault.Certificate

open Der

theorem Algorithm.read_exact : Exact Algorithm.read Algorithm.toDer := by
  refine Spelled.inside ?_ 0x30
  intro b a rest h
  obtain ⟨oid, mid, ho, h⟩ := bind_eq_some.mp h
  obtain ⟨r, mid', hg, h⟩ := bind_eq_some.mp h
  cases hg
  have ho := Oid.read_exact.eq ho
  split at h
  · obtain ⟨rfl, rfl⟩ := pure_eq_some.mp h
    exact ⟨_, by simpa using ho, rfl⟩
  · obtain ⟨e, mid', he, h⟩ := bind_eq_some.mp h
    obtain ⟨rfl, rfl⟩ := pure_eq_some.mp h
    obtain ⟨rfl, -, -⟩ := readElement_spelled he
    exact ⟨_, by simpa using ho, rfl⟩

theorem PublicKey.read_exact : Exact PublicKey.read PublicKey.toDer := by
  refine Spelled.inside ?_ 0x30
  intro b k rest h
  obtain ⟨algorithm, mid, ha, h⟩ := bind_eq_some.mp h
  obtain ⟨key, mid', hk, h⟩ := bind_eq_some.mp h
  obtain ⟨rfl, rfl⟩ := pure_eq_some.mp h
  refine ⟨_, ?_, rfl⟩
  rw [Algorithm.read_exact.eq ha, (BitString.readAs_exact 0x03).eq hk, ← List.append_assoc]
  rfl

theorem Time.read_exact : Exact Time.read Time.toDer := by
  intro b t rest h
  obtain ⟨e, mid, he, h⟩ := bind_eq_some.mp h
  obtain ⟨ht, rfl⟩ := lift_eq_some.mp h
  obtain ⟨rfl, -, -⟩ := readElement_spelled he
  refine ⟨t, ?_, rfl⟩
  have he : t.toDer = e.toDer := by
    unfold ofElement at ht
    split at ht
    · split at ht
      · cases ht
        rw [toDer, write, ← ‹e.tag = 0x17›]
      · cases ht
    · split at ht
      · split at ht
        · cases ht
          rw [toDer, write, ← ‹e.tag = 0x18›]
        · cases ht
      · cases ht
  rw [he]

theorem Validity.read_exact : Exact Validity.read Validity.toDer := by
  refine Spelled.inside ?_ 0x30
  intro b v rest h
  obtain ⟨notBefore, mid, hb, h⟩ := bind_eq_some.mp h
  obtain ⟨notAfter, mid', ha, h⟩ := bind_eq_some.mp h
  obtain ⟨rfl, rfl⟩ := pure_eq_some.mp h
  refine ⟨_, ?_, rfl⟩
  rw [Time.read_exact.eq hb, Time.read_exact.eq ha, ← List.append_assoc]

theorem Version.read_exact : Exact Version.read fun v => write 0x02 [v.number] := by
  intro b v rest h
  obtain ⟨content, mid, hr, h⟩ := bind_eq_some.mp h
  have hb := (read_spelled hr).1
  split at h
  · obtain ⟨rfl, rfl⟩ := pure_eq_some.mp h
    exact ⟨.v1, hb, rfl⟩
  · obtain ⟨rfl, rfl⟩ := pure_eq_some.mp h
    exact ⟨.v2, hb, rfl⟩
  · obtain ⟨rfl, rfl⟩ := pure_eq_some.mp h
    exact ⟨.v3, hb, rfl⟩
  · cases h

theorem readSerial_exact : Exact readSerial (write 0x02) := by
  intro b octets rest h
  obtain ⟨_, mid, hr, h⟩ := bind_eq_some.mp h
  split at h
  · obtain ⟨rfl, rfl⟩ := pure_eq_some.mp h
    exact ⟨_, (read_spelled hr).1, rfl⟩
  · cases h

theorem readBool_exact : Exact readBool fun b => write 0x01 [if b then 0xff else 0x00] := by
  intro b v rest h
  obtain ⟨content, mid, hr, h⟩ := bind_eq_some.mp h
  have hb := (read_spelled hr).1
  split at h
  · obtain ⟨rfl, rfl⟩ := pure_eq_some.mp h
    exact ⟨false, hb, rfl⟩
  · obtain ⟨rfl, rfl⟩ := pure_eq_some.mp h
    exact ⟨true, hb, rfl⟩
  · cases h

/-! ## Names -/

/-- What stands behind the attribute is no part of it. -/
def Attribute.Legible (a : Attribute) : Prop := ∀ more, Attribute.read (a.toDer ++ more) = some (a, more)

theorem Attribute.read_spelled : Spelled Attribute.read Attribute.toDer fun a w => a.Legible ∧ a = w := by
  intro b a rest h
  obtain ⟨content, hr, h⟩ := inside_eq_some.mp h
  have hc : content = a.content := by
    obtain ⟨type, mid, ht, h⟩ := bind_eq_some.mp h
    obtain ⟨value, mid', hv, h⟩ := bind_eq_some.mp h
    obtain ⟨rfl, rfl⟩ := pure_eq_some.mp h
    obtain ⟨rfl, -, -⟩ := readElement_spelled hv
    rw [Oid.read_exact.eq ht, List.append_nil]
    rfl
  obtain ⟨hb, again⟩ := Der.read_spelled hr
  rw [hc] at hb again h
  exact ⟨a, hb, fun more => inside_eq_some.mpr ⟨a.content, again more, h⟩, rfl⟩

theorem Attribute.Legible.inj {a c : Attribute} (ha : a.Legible) (hc : c.Legible) {more more' : Bytes}
    (h : a.toDer ++ more = c.toDer ++ more') : a = c ∧ more = more' := by
  have hr := ha more
  rw [h, hc more'] at hr
  cases hr
  exact ⟨rfl, rfl⟩

theorem flatMap_toDer_inj {as cs : List Attribute} (ha : ∀ a ∈ as, a.Legible) (hc : ∀ c ∈ cs, c.Legible)
    (h : as.flatMap Attribute.toDer = cs.flatMap Attribute.toDer) : as = cs := by
  induction as generalizing cs with
  | nil =>
    cases cs with
    | nil => rfl
    | cons c cs => cases h
  | cons a as ih =>
    cases cs with
    | nil => cases h
    | cons c cs =>
      obtain ⟨ha, has⟩ := List.forall_mem_cons.mp ha
      obtain ⟨hc, hcs⟩ := List.forall_mem_cons.mp hc
      obtain ⟨rfl, hs⟩ := ha.inj hc h
      rw [ih has hcs hs]

def Ascending (as : List Attribute) : Prop := as.Pairwise fun a c => a.toDer < c.toDer

theorem insertAttribute_perm {a : Attribute} {as cs : List Attribute} (h : insertAttribute a as = some cs) :
    cs.Perm (a :: as) := by
  induction as generalizing cs with
  | nil =>
    cases h
    rfl
  | cons c as ih =>
    rw [insertAttribute] at h
    split at h
    · cases h
    · split at h
      · cases h
        rfl
      · obtain ⟨ds, hd, rfl⟩ := Option.map_eq_some_iff.mp h
        exact ((ih hd).cons c).trans (.swap a c as)

theorem insertAttribute_ascending {a : Attribute} {as cs : List Attribute} (h : insertAttribute a as = some cs)
    (ha : a.Legible) (has : ∀ c ∈ as, c.Legible) (hs : Ascending as) : Ascending cs := by
  induction as generalizing cs with
  | nil =>
    cases h
    exact List.pairwise_singleton _ _
  | cons c as ih =>
    obtain ⟨hc, has⟩ := List.forall_mem_cons.mp has
    obtain ⟨hlt, hs⟩ := List.pairwise_cons.mp hs
    rw [insertAttribute] at h
    split at h
    · cases h
    · rename_i hne
      split at h
      · rename_i hac
        cases h
        refine List.pairwise_cons.mpr ⟨List.forall_mem_cons.mpr ⟨hac, fun d hd => ?_⟩, List.pairwise_cons.mpr ⟨hlt, hs⟩⟩
        exact List.lt_trans hac (hlt d hd)
      · rename_i hac
        obtain ⟨ds, hd, rfl⟩ := Option.map_eq_some_iff.mp h
        refine List.pairwise_cons.mpr ⟨?_, ih hd has hs⟩
        have hca : c.toDer < a.toDer := by
          have hform : c.toDer ≠ a.toDer := by
            intro he
            exact hne (ha.inj hc (congrArg (· ++ []) he.symm)).1
          exact Std.lt_of_le_of_ne (List.not_lt.mp hac) hform
        intro d hmem
        rcases List.mem_cons.mp ((insertAttribute_perm hd).mem_iff.mp hmem) with rfl | hmem
        · exact hca
        · exact hlt d hmem

theorem insertAttribute_of_lt {a : Attribute} {as : List Attribute} (h : ∀ c ∈ as, a.toDer < c.toDer) :
    insertAttribute a as = some (a :: as) := by
  cases as with
  | nil => rfl
  | cons c as =>
    have hlt : a.toDer < c.toDer := h c List.mem_cons_self
    have hne : a ≠ c := by
      rintro rfl
      exact List.lt_irrefl _ hlt
    rw [insertAttribute, if_neg hne, if_pos hlt]

theorem sortAttributes_of_ascending {as : List Attribute} (h : Ascending as) : sortAttributes as = some as := by
  induction as with
  | nil => rfl
  | cons a as ih =>
    obtain ⟨hlt, hs⟩ := List.pairwise_cons.mp h
    rw [sortAttributes, ih hs, Option.bind_some, insertAttribute_of_lt hlt]

theorem sortAttributes_spec {as cs : List Attribute} (h : sortAttributes as = some cs) (ha : ∀ a ∈ as, a.Legible) :
    cs.Perm as ∧ Ascending cs := by
  induction as generalizing cs with
  | nil =>
    cases h
    exact ⟨.nil, .nil⟩
  | cons a as ih =>
    obtain ⟨ha, has⟩ := List.forall_mem_cons.mp ha
    rw [sortAttributes] at h
    obtain ⟨ds, hd, h⟩ := Option.bind_eq_some_iff.mp h
    obtain ⟨hp, hs⟩ := ih hd has
    have hds : ∀ d ∈ ds, d.Legible := fun d hd => has d (hp.mem_iff.mp hd)
    exact ⟨(insertAttribute_perm h).trans (hp.cons a), insertAttribute_ascending h ha hds hs⟩

theorem rdn_shortens {as cs : List Attribute} (h : sortAttributes as = some cs) (ha : ∀ a ∈ as, a.Legible) :
    Shortens (rdnToDer cs) (rdnToDer as) (Ascending as) := by
  obtain ⟨hp, hs⟩ := sortAttributes_spec h ha
  have hc : ∀ c ∈ cs, c.Legible := fun c hc => ha c (hp.mem_iff.mp hc)
  refine Shortens.write ⟨Nat.le_of_eq (hp.flatMap_right _).length_eq, ?_⟩ 0x31
  constructor
  · intro he
    rwa [← flatMap_toDer_inj hc ha he]
  · intro has
    rw [sortAttributes_of_ascending has] at h
    cases h
    rfl

theorem readRdn_spelled :
    Spelled readRdn rdnToDer fun cs as =>
      sortAttributes as = some cs ∧ Shortens (rdnToDer cs) (rdnToDer as) (Ascending as) := by
  intro b cs rest h
  obtain ⟨as, mid, hl, h⟩ := bind_eq_some.mp h
  obtain ⟨hs, rfl⟩ := lift_eq_some.mp h
  obtain ⟨ws, hb, hm⟩ := Attribute.read_spelled.list 0x31 hl
  obtain ⟨ha, he⟩ := (List.forall₂_and_left as ws).mp hm
  rw [List.forall₂_eq_eq_eq] at he
  subst he
  exact ⟨as, hb, hs, rdn_shortens hs ha⟩

theorem mapM_eq_some {α ω : Type} {f : ω → Option α} {as : List α} {ws : List ω}
    (h : List.Forall₂ (fun a w => f w = some a) as ws) : ws.mapM f = some as := by
  induction h with
  | nil => rfl
  | cons ha _ ih =>
    rw [List.mapM_cons, ha, ih]
    rfl

theorem readName_spelled :
    Spelled readName nameToDer fun n w =>
      w.mapM sortAttributes = some n ∧ Shortens (nameToDer n) (nameToDer w) (∀ rdn ∈ w, Ascending rdn) := by
  intro b n rest h
  obtain ⟨w, hb, hm⟩ := readRdn_spelled.list 0x30 h
  have hs := Shortens.flatMap (hm.imp fun _ _ h => h.2)
  exact ⟨w, hb, mapM_eq_some (hm.imp fun _ _ h => h.1), hs.write 0x30⟩

end AttestedVault.Certificate
