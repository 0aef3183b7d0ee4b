import AttestedVault.Proofs.Written

/-!
# Hexadecimal in either case

A text spells a byte string if it has two digits for each byte, the high half
first, in either case. These texts are read, and no others.
-/

namespace AttestedVault

namespace Hex

def Denotes (c : Char) (n : Nat) : Prop := c = digit n ∨ c = (digit n).toUpper

instance (c : Char) (n : Nat) : Decidable (Denotes c n) := inferInstanceAs (Decidable (_ ∨ _))

inductive Spells : List Char → Bytes → Prop
  | nil : Spells [] []
  | cons {hi lo : Char} {x : UInt8} {cs : List Char} {b : Bytes} (high : Denotes hi (x.toNat / 16))
      (low : Denotes lo (x.toNat % 16)) (rest : Spells cs b) : Spells (hi :: lo :: cs) (x :: b)

/-! ## Digits -/

theorem denotes_of_value? : ∀ n < 256, ∀ v ∈ value? (UInt8.ofNat n),
    n < 128 ∧ v.toNat < 16 ∧ Denotes (Char.ofNat n) v.toNat := by
  decide +kernel

theorem value?_upper : ∀ n < 16, value? (UInt8.ofNat (digit n).toUpper.toNat) = some (UInt8.ofNat n) := by
  decide

theorem upper_lt : ∀ n < 16, (digit n).toUpper.toNat < 128 := by decide

theorem Denotes.value? {c : Char} {n : Nat} (h : Denotes c n) (hn : n < 16) :
    value? (UInt8.ofNat c.toNat) = some (UInt8.ofNat n) := by
  rcases h with rfl | rfl
  · exact value?_digit n hn
  · exact value?_upper n hn

theorem Denotes.ascii {c : Char} {n : Nat} (h : Denotes c n) (hn : n < 16) : c.toNat < 128 := by
  rcases h with rfl | rfl
  · exact digit_lt n hn
  · exact upper_lt n hn

theorem halves {h l : UInt8} (hh : h.toNat < 16) (hl : l.toNat < 16) :
    (16 * h + l).toNat / 16 = h.toNat ∧ (16 * h + l).toNat % 16 = l.toNat := by
  simp only [UInt8.toNat_add, UInt8.toNat_mul, UInt8.reduceToNat]
  omega

theorem join_halves (x : UInt8) : 16 * UInt8.ofNat (x.toNat / 16) + UInt8.ofNat (x.toNat % 16) = x := by
  have hx := x.toNat_lt
  apply UInt8.toNat_inj.mp
  simp only [UInt8.toNat_add, UInt8.toNat_mul, UInt8.toNat_ofNat', UInt8.reduceToNat]
  omega

/-! ## Texts -/

theorem Spells.length {cs : List Char} {b : Bytes} (h : Spells cs b) : cs.length = 2 * b.length := by
  induction h with
  | nil => rfl
  | cons _ _ _ ih => simp only [List.length_cons, ih]; omega

theorem Spells.ascii {cs : List Char} {b : Bytes} (h : Spells cs b) : ∀ c ∈ cs, c.toNat < 128 := by
  induction h with
  | nil => intro c hc; cases hc
  | @cons hi lo x cs b high low _ ih =>
    have hx := x.toNat_lt
    intro c hc
    rcases List.mem_cons.mp hc with rfl | hc
    · exact high.ascii (by omega)
    rcases List.mem_cons.mp hc with rfl | hc
    · exact low.ascii (by omega)
    · exact ih c hc

theorem Spells.pairs {cs : List Char} {b : Bytes} (h : Spells cs b) :
    ∀ i, pairs i (cs.map fun c => UInt8.ofNat c.toNat) = .ok b := by
  induction h with
  | nil => intro i; rfl
  | @cons hi lo x cs b high low _ ih =>
    intro i
    have hx := x.toNat_lt
    simp only [List.map_cons, Hex.pairs, high.value? (show x.toNat / 16 < 16 by omega),
      low.value? (show x.toNat % 16 < 16 by omega), ih, join_halves]

theorem spells_of_pairs {t b : Bytes} {i : Nat} (he : t.length % 2 = 0) (h : pairs i t = .ok b) :
    (∀ x ∈ t, x.toNat < 128) ∧ Spells (t.map fun x => Char.ofNat x.toNat) b := by
  induction i, t using pairs.induct generalizing b with
  | case1 i hi lo rest hv => simp [pairs, hv] at h
  | case2 i hi lo rest u hv hu => simp [pairs, hu, hv] at h
  | case3 i hi lo rest u v hv hu tail ht ih =>
    simp only [pairs, hu, hv, ht, Except.ok.injEq] at h
    subst h
    rw [List.length_cons, List.length_cons] at he
    obtain ⟨ha, hs⟩ := ih (by omega) ht
    have hh := denotes_of_value? hi.toNat hi.toNat_lt u (by rw [UInt8.ofNat_toNat]; exact hu)
    have hl := denotes_of_value? lo.toNat lo.toNat_lt v (by rw [UInt8.ofNat_toNat]; exact hv)
    obtain ⟨hd, hm⟩ := halves hh.2.1 hl.2.1
    refine ⟨?_, .cons ?_ ?_ hs⟩
    · simp only [List.mem_cons, forall_eq_or_imp]
      exact ⟨hh.1, hl.1, ha⟩
    · rw [hd]
      exact hh.2.2
    · rw [hm]
      exact hl.2.2
  | case4 i hi lo rest u v hv hu e ht => simp [pairs, hu, hv, ht] at h
  | case5 t i hne =>
    -- of even length and no pair: empty
    rcases t with _ | ⟨x, _ | ⟨y, rest⟩⟩
    · cases h
      exact ⟨fun _ hx => absurd hx List.not_mem_nil, .nil⟩
    · simp at he
    · exact absurd rfl (hne x y rest)

def codes (cs : List Char) : Bytes := cs.map fun c => UInt8.ofNat c.toNat

theorem decode_eq_ok_iff_codes {t b : Bytes} : decode t = .ok b ↔ ∃ cs, Spells cs b ∧ t = codes cs := by
  unfold decode
  constructor
  · intro h
    split at h
    · cases h
    · obtain ⟨ha, hs⟩ := spells_of_pairs (by omega) h
      refine ⟨_, hs, ?_⟩
      rw [codes, List.map_map]
      refine ((List.map_congr_left fun x hx => ?_).trans (List.map_id _)).symm
      simp [ascii_code (ha x hx)]
  · rintro ⟨cs, hs, rfl⟩
    rw [codes, List.length_map, hs.length, if_neg (by omega), hs.pairs]

theorem decode_eq_ok_iff {s : String} {b : Bytes} :
    decode (Bytes.ofText s) = .ok b ↔ Spells s.toList b := by
  rw [decode_eq_ok_iff_codes]
  constructor
  · rintro ⟨cs, hs, h⟩
    rw [codes, ← ofText_ofList hs.ascii] at h
    rwa [Bytes.ofText_injective h, String.toList_ofList]
  · intro h
    exact ⟨s.toList, h, by rw [codes, ← ofText_ofList h.ascii, String.ofList_toList]⟩

theorem spells_encode (b : Bytes) : Spells (encode b).toList b := decode_eq_ok_iff.mp (decode_encode b)

end Hex

end AttestedVault
