import AttestedVault.Proofs.BlockField
import AttestedVault.Proofs.BlockPermutation
import AttestedVault.Proofs.CredentialFormat

/-!
# Corrupted credentials

A credential that was changed within its tag, its initial value or one block of
its ciphertext is not opened: the tag that the key asks for is then another one.
-/

namespace AttestedVault

/-! ## Bytes as numbers -/

namespace Bytes

theorem ofNatLE_toNatLE : ∀ {width n : Nat} {b : Bytes}, b.length = width →
    n % 256 ^ width = toNatLE b % 256 ^ width → ofNatLE width n = b
  | 0, _, [], _, _ => rfl
  | width + 1, n, x :: b, hl, hn => by
    have hb : b.length = width := by simpa using hl
    have hcons : toNatLE (x :: b) = x.toNat + 256 * toNatLE b := rfl
    have hx := x.toNat_lt
    rw [hcons, Nat.pow_succ, Nat.mul_comm, Nat.mod_mul, Nat.mod_mul] at hn
    have hdigit : n % 256 = x.toNat := by omega
    have hrest : n / 256 % 256 ^ width = toNatLE b % 256 ^ width := by
      have hdiv : (x.toNat + 256 * toNatLE b) / 256 = toNatLE b := by omega
      rw [hdiv] at hn
      omega
    rw [ofNatLE, ofNatLE_toNatLE hb hrest]
    congr 1
    exact UInt8.toNat_inj.mp (by rw [UInt8.toNat_ofNat', hdigit])

theorem ofNat_toNat (o : Octets 16) (n : Nat) (h : n % 256 ^ 16 = toNat o.val % 256 ^ 16) : ofNat 16 n = o.val := by
  rw [← List.reverse_reverse o.val, toNat_reverse] at h
  rw [ofNat, ofNatLE_toNatLE ((List.length_reverse ..).trans o.property) h, List.reverse_reverse]

end Bytes

theorem Octets.ofBytes_inj {n : Nat} {a b : Bytes} (ha : a.length ≤ n) (hl : a.length = b.length)
    (h : ofBytes n a = ofBytes n b) : a = b := by
  have hv := congrArg (List.take a.length) (congrArg Subtype.val h)
  simp only [ofBytes, List.take_take, Nat.min_eq_left ha] at hv
  rwa [List.take_left' rfl, List.take_left' hl.symm] at hv

namespace Gcm

namespace Poly

theorem ofBytes_toBytes (p : Poly) : ofBytes p.toBytes.val = p := by
  refine BitVec.eq_of_toNat_eq ?_
  rw [ofBytes, toBytes, BitVec.toNat_ofNat, Bytes.toNat_ofNat]
  have := p.isLt
  omega

theorem toBytes_ofBytes (o : Octets 16) : toBytes (ofBytes o.val) = o := by
  refine Subtype.ext (Bytes.ofNat_toNat o _ ?_)
  rw [ofBytes, BitVec.toNat_ofNat]
  omega

theorem toBytes_injective : Function.Injective toBytes :=
  Function.LeftInverse.injective (g := fun o : Octets 16 => ofBytes o.val) ofBytes_toBytes

theorem ofBytes_inj {o o' : Octets 16} (h : ofBytes o.val = ofBytes o'.val) : o = o' := by
  rw [← toBytes_ofBytes o, h, toBytes_ofBytes]

end Poly

/-! ## Hashing -/

section
variable {h : Poly}

theorem foldl_mul_injective (hh : h ≠ 0) : ∀ (bs : List Poly) {y y' : Poly},
    bs.foldl (fun y b => (y ^^^ b).mul h) y = bs.foldl (fun y b => (y ^^^ b).mul h) y' → y = y'
  | [], _, _, he => he
  | _ :: bs, _, _, he => (BitVec.xor_left_inj _).mp (Poly.mul_injective hh (foldl_mul_injective hh bs he))

theorem ghash_inj (hh : h ≠ 0) (as bs : List Poly) {x x' : Poly}
    (he : ghash h (as ++ x :: bs) = ghash h (as ++ x' :: bs)) : x = x' := by
  simp only [ghash, List.foldl_append, List.foldl_cons] at he
  exact (BitVec.xor_right_inj _).mp (Poly.mul_injective hh (foldl_mul_injective hh bs he))

end

@[simp] theorem blocks_nil : blocks [] = [] := by
  rw [blocks, Bytes.chunks_nil]
  rfl

theorem blocks_of_ne_nil {b : Bytes} (hb : b ≠ []) :
    blocks b = Poly.ofBytes (Octets.ofBytes 16 (b.take 16)).val :: blocks (b.drop 16) := by
  rw [blocks, Bytes.chunks_of_ne_nil 15 hb]
  rfl

theorem blocks_append (b : Bytes) : ∀ (i : Nat) {a : Bytes}, a.length = 16 * i → blocks (a ++ b) = blocks a ++ blocks b
  | 0, a, ha => by
    obtain rfl : a = [] := List.length_eq_zero_iff.mp ha
    rw [blocks_nil]
    rfl
  | i + 1, a, ha => by
    have hne : ∀ c, a ++ c ≠ [] := by
      intro c hc
      have := congrArg List.length hc
      simp [ha] at this
    have h16 : 16 ≤ a.length := by omega
    rw [blocks_of_ne_nil (hne b), List.take_append_of_le_length h16, List.drop_append_of_le_length h16,
      blocks_append b i (by rw [List.length_drop]; omega), ← List.append_nil a, blocks_of_ne_nil (hne [])]
    simp

theorem blocks_single {b : Bytes} (hb : b.length = 16) : blocks b = [Poly.ofBytes b] := by
  have hne : b ≠ [] := List.ne_nil_of_length_eq_add_one hb
  have hd : b.drop 16 = [] := List.drop_eq_nil_of_le (Nat.le_of_eq hb)
  have ht : b.take 16 = b := List.take_of_length_le (Nat.le_of_eq hb)
  rw [blocks_of_ne_nil hne, hd, ht, Octets.ofBytes_val ⟨b, hb⟩, blocks_nil]

theorem blocks_split {b : Bytes} {i : Nat} (h : 16 * i < b.length) : blocks b = blocks (b.take (16 * i)) ++
    Poly.ofBytes (Octets.ofBytes 16 ((b.drop (16 * i)).take 16)).val :: blocks (b.drop (16 * i + 16)) := by
  have htake : (b.take (16 * i)).length = 16 * i := by rw [List.length_take]; omega
  have hne : b.drop (16 * i) ≠ [] := fun hnil => absurd (List.drop_eq_nil_iff.mp hnil) (Nat.not_le.mpr h)
  rw [← List.drop_drop, ← blocks_of_ne_nil hne, ← blocks_append _ i htake, List.take_append_drop]

/-! ## Tags -/

theorem Session.tag_inj_ciphertext {s : Session} (hh : s.h ≠ 0) {aad c c' : Bytes} (i : Nat)
    (hl : c.length = c'.length) (ht : c.take (16 * i) = c'.take (16 * i))
    (hd : c.drop (16 * i + 16) = c'.drop (16 * i + 16)) (he : s.tag aad c = s.tag aad c') : c = c' := by
  by_cases hi : 16 * i < c.length
  · have hmask := (BitVec.xor_left_inj _).mp (Poly.toBytes_injective he)
    rw [blocks_split (b := c) hi, blocks_split (b := c') (hl ▸ hi), ht, hd, hl] at hmask
    simp only [List.append_assoc, List.cons_append] at hmask
    rw [← List.append_assoc, ← List.append_assoc] at hmask
    have hblock := Octets.ofBytes_inj (List.length_take_le ..)
      (by rw [List.length_take, List.length_take, List.length_drop, List.length_drop, hl])
      (Poly.ofBytes_inj (ghash_inj hh _ _ hmask))
    have hparts : ∀ b : Bytes, b = b.take (16 * i) ++ ((b.drop (16 * i)).take 16 ++ b.drop (16 * i + 16)) := by
      intro b
      rw [← List.drop_drop, List.take_append_drop, List.take_append_drop]
    rw [hparts c, ht, hblock, hd, ← hparts c']
  · rw [← List.take_of_length_le (Nat.le_of_not_lt hi), ht, List.take_of_length_le (by omega)]

theorem firstCounter_of_sixteen (h : Poly) (iv : Octets 16) :
    firstCounter h iv.val = ghash h ([] ++ Poly.ofBytes iv.val :: [BitVec.ofNat 128 128]) := by
  rw [firstCounter, iv.property, if_neg (by decide), blocks_single iv.property]
  rfl

theorem tag_inj_iv {key : Octets 32} {iv iv' : Octets 16} {aad c : Bytes} (hh : (session key iv.val).h ≠ 0)
    (he : (session key iv.val).tag aad c = (session key iv'.val).tag aad c) : iv = iv' := by
  -- the counters are hashes of the initial values, and a permutation enciphers them
  have hmask := (BitVec.xor_right_inj _).mp (Poly.toBytes_injective he)
  have hstart : firstCounter (session key iv.val).h iv.val = firstCounter (session key iv.val).h iv'.val :=
    Poly.toBytes_injective (Aes.encryptWith_injective _ (Poly.ofBytes_inj hmask))
  rw [firstCounter_of_sixteen, firstCounter_of_sixteen] at hstart
  exact Poly.ofBytes_inj (ghash_inj hh _ _ hstart)

theorem session_h_ne_zero {key : Octets 32} {iv : Bytes} (hk : Aes.encrypt key (.ofBytes 16 []) ≠ .ofBytes 16 []) :
    (session key iv).h ≠ 0 := by
  intro h
  have hzero : Poly.ofBytes (Octets.ofBytes 16 []).val = 0 := by decide
  exact hk (Poly.ofBytes_inj (h.trans hzero.symm))

end Gcm

/-! ## Changed places -/

/-- `b'` is as long as `b` and another text, but only among the `n` bytes from
place `i` on. -/
structure Bytes.Corrupted (i n : Nat) (b b' : Bytes) : Prop where
  length : b'.length = b.length
  ne : b' ≠ b
  before : b'.take i = b.take i
  after : b'.drop (i + n) = b.drop (i + n)

theorem Bytes.corrupted_set {b : Bytes} {i n j : Nat} (hi : i ≤ j) (hj : j < i + n) (hb : j < b.length) :
    Corrupted i n b (b.set j (b[j] + 1)) where
  length := List.length_set
  ne := by
    intro h
    have hx := List.getElem_of_eq h (by rwa [List.length_set])
    rw [List.getElem_set_self] at hx
    have hstep : ∀ x : UInt8, x + 1 ≠ x := by
      intro x
      rw [ne_eq, ← UInt8.toNat_inj, UInt8.toNat_add]
      have := x.toNat_lt
      change ¬ (x.toNat + 1) % 256 = x.toNat
      omega
    exact hstep _ hx
  before := List.take_set_of_le hi
  after := List.drop_set_of_lt hj

namespace Sealed

/-! ## Changed parts -/

variable {iv iv' tag tag' : Octets 16} {c c' : Bytes}

theorem parts (iv tag : Octets 16) (c : Bytes) : (mk iv.val tag c).toBytes.take 16 = iv.val ∧
    ((mk iv.val tag c).toBytes.drop 16).take 16 = tag.val ∧ (mk iv.val tag c).toBytes.drop 32 = c := by
  obtain ⟨hiv, htag, hc, -⟩ := (mk iv.val tag c).toBytes_parts iv.property
  exact ⟨hiv, htag, hc⟩

theorem corrupted_tag (h : Bytes.Corrupted 16 16 (mk iv.val tag c).toBytes (mk iv'.val tag' c').toBytes) :
    iv' = iv ∧ c' = c ∧ tag' ≠ tag := by
  obtain ⟨hiv, -, hc⟩ := parts iv tag c
  obtain ⟨hiv', -, hc'⟩ := parts iv' tag' c'
  have h₁ : iv' = iv := Subtype.ext (hiv'.symm.trans (h.before.trans hiv))
  have h₂ : c' = c := hc'.symm.trans (h.after.trans hc)
  exact ⟨h₁, h₂, fun h₃ => h.ne (by rw [h₁, h₂, h₃])⟩

theorem corrupted_iv (h : Bytes.Corrupted 0 16 (mk iv.val tag c).toBytes (mk iv'.val tag' c').toBytes) :
    tag' = tag ∧ c' = c ∧ iv' ≠ iv := by
  obtain ⟨-, htag, hc⟩ := parts iv tag c
  obtain ⟨-, htag', hc'⟩ := parts iv' tag' c'
  have hafter : (mk iv'.val tag' c').toBytes.drop 16 = (mk iv.val tag c).toBytes.drop 16 := h.after
  have h₁ : tag' = tag := Subtype.ext (by rw [← htag, ← htag', hafter])
  have h₂ : c' = c := by
    rw [← hc, ← hc', ← List.drop_drop (i := 16) (j := 16), hafter, List.drop_drop]
  exact ⟨h₁, h₂, fun h₃ => h.ne (by rw [h₁, h₂, h₃])⟩

theorem corrupted_block {i : Nat}
    (h : Bytes.Corrupted (32 + 16 * i) 16 (mk iv.val tag c).toBytes (mk iv'.val tag' c').toBytes) :
    iv' = iv ∧ tag' = tag ∧ c' ≠ c ∧ c'.length = c.length ∧ c'.take (16 * i) = c.take (16 * i) ∧
      c'.drop (16 * i + 16) = c.drop (16 * i + 16) := by
  obtain ⟨hiv, htag, hc⟩ := parts iv tag c
  obtain ⟨hiv', htag', hc'⟩ := parts iv' tag' c'
  have hl := h.length
  -- what stands before the block is cut once more, at the places of the parts
  have hcut : ∀ j k : Nat, j + k ≤ 32 + 16 * i →
      ((mk iv'.val tag' c').toBytes.drop j).take k = ((mk iv.val tag c).toBytes.drop j).take k := by
    intro j k hk
    have := congrArg (fun b => (b.drop j).take k) h.before
    simp only [List.drop_take, List.take_take, Nat.min_eq_left (show k ≤ 32 + 16 * i - j by omega)] at this
    exact this
  have h₁ : iv' = iv := Subtype.ext (by rw [← hiv, ← hiv']; exact hcut 0 16 (by omega))
  have h₂ : tag' = tag := Subtype.ext (by rw [← htag, ← htag']; exact hcut 16 16 (by omega))
  refine ⟨h₁, h₂, fun h₃ => h.ne (by rw [h₁, h₂, h₃]), ?_, ?_, ?_⟩
  · rw [← hc, ← hc', List.length_drop, List.length_drop, hl]
  · rw [← hc, ← hc']
    exact hcut 32 (16 * i) (by omega)
  · rw [← hc, ← hc', List.drop_drop, List.drop_drop, ← Nat.add_assoc]
    exact h.after

end Sealed

/-! ## Opening -/

theorem openCredential_of_tag_ne {key : Octets 32} {iv tag : Octets 16} {c : Bytes}
    (h : tag ≠ (Gcm.session key iv.val).tag [] c) :
    openCredential key.val (Sealed.mk iv.val tag c).toBytes = .error .decryption := by
  rw [openCredential_toBytes key _ iv.property]
  simp only [Sealed.plaintext?, Gcm.decrypt, if_neg h]

theorem sealCredential_ok {key : Octets 32} {p : Bytes} {h : Host} {s : Sealed}
    (hs : ((sealCredential key.val p).on h).1 = .ok s) :
    ∃ (iv : Octets 16) (c : Bytes), s = ⟨iv.val, (Gcm.session key iv.val).tag [] c, c⟩ := by
  rw [Credential.on_sealCredential] at hs
  cases hd : (h.shared.random.draw 16).1 with
  | error reason => rw [hd] at hs; cases hs
  | ok iv => rw [hd] at hs; cases hs; exact ⟨iv, _, rfl⟩

theorem Bytes.Corrupted.exists_parts {i n : Nat} {s : Sealed} {b : Bytes} (hs : s.iv.length = 16)
    (h : Corrupted i n s.toBytes b) : ∃ (iv tag : Octets 16) (c : Bytes), b = (Sealed.mk iv.val tag c).toBytes := by
  have hl := (s.toBytes_parts hs).2.2.2
  obtain ⟨iv, tag, c, hb⟩ := Credential.exists_parts (b := b) (by rw [h.length]; omega)
  exact ⟨iv, tag, c, hb.symm⟩

/-- What was sealed is not opened once it was changed within its tag, nor, if the
key enciphers the zero block to another one, within its initial value or one
block of its ciphertext. -/
theorem openCredential_corrupted (key : Octets 32) (p : Bytes) (h : Host) {s : Sealed}
    (hs : ((sealCredential key.val p).on h).1 = .ok s) {b : Bytes} :
    (Bytes.Corrupted 16 16 s.toBytes b → openCredential key.val b = .error .decryption) ∧
    (Aes.encrypt key (.ofBytes 16 []) ≠ .ofBytes 16 [] →
      Bytes.Corrupted 0 16 s.toBytes b ∨ (∃ i, Bytes.Corrupted (32 + 16 * i) 16 s.toBytes b) →
      openCredential key.val b = .error .decryption) := by
  obtain ⟨iv, c, rfl⟩ := sealCredential_ok hs
  refine ⟨fun hb => ?_, fun hk hb => ?_⟩
  · obtain ⟨iv', tag', c', rfl⟩ := hb.exists_parts iv.property
    obtain ⟨rfl, rfl, htag⟩ := Sealed.corrupted_tag hb
    exact openCredential_of_tag_ne htag
  have hh : ∀ iv, (Gcm.session key iv).h ≠ 0 := fun _ => Gcm.session_h_ne_zero hk
  rcases hb with hb | ⟨i, hb⟩
  · obtain ⟨iv', tag', c', rfl⟩ := hb.exists_parts iv.property
    obtain ⟨rfl, rfl, hiv⟩ := Sealed.corrupted_iv hb
    exact openCredential_of_tag_ne fun he => hiv (Gcm.tag_inj_iv (hh _) he).symm
  · obtain ⟨iv', tag', c', rfl⟩ := hb.exists_parts iv.property
    obtain ⟨rfl, rfl, hc, hl, ht, hd⟩ := Sealed.corrupted_block hb
    exact openCredential_of_tag_ne fun he =>
      hc (Gcm.Session.tag_inj_ciphertext (hh _) i hl ht hd he.symm)

theorem openCredential_corrupted_zero : ∃ (key : Octets 32) (s : Sealed) (b₀ b₁ b₂ : Bytes),
    ((sealCredential key.val [0]).on (.attested .blank)).1 = .ok s ∧
    Aes.encrypt key (.ofBytes 16 []) ≠ .ofBytes 16 [] ∧
    Bytes.Corrupted 0 16 s.toBytes b₀ ∧ openCredential key.val b₀ = .error .decryption ∧
    Bytes.Corrupted 16 16 s.toBytes b₁ ∧ openCredential key.val b₁ = .error .decryption ∧
    Bytes.Corrupted 32 16 s.toBytes b₂ ∧ openCredential key.val b₂ = .error .decryption := by
  let key := Octets.ofBytes 32 []
  let s := Sealed.make key (Octets.ofBytes 16 []).val [0] []
  have hs : ((sealCredential key.val [0]).on (.attested .blank)).1 = .ok s := rfl
  have hl : s.toBytes.length = 33 := by
    rw [Sealed.toBytes, List.length_append, List.length_append]
    exact congrArg₂ (· + ·) (congrArg₂ (· + ·) (Octets.ofBytes 16 []).property s.tag.property)
      (Gcm.length_encrypt key _ [0] [])
  have hset : ∀ i < 33, ∃ b, Bytes.Corrupted i 16 s.toBytes b := fun i hi =>
    ⟨_, Bytes.corrupted_set (Nat.le_refl i) (by omega) (hl ▸ hi)⟩
  obtain ⟨b₀, h₀⟩ := hset 0 (by decide)
  obtain ⟨b₁, h₁⟩ := hset 16 (by decide)
  obtain ⟨b₂, h₂⟩ := hset 32 (by decide)
  have hk : Aes.encrypt key (.ofBytes 16 []) ≠ .ofBytes 16 [] := by decide +kernel
  exact ⟨key, s, b₀, b₁, b₂, hs, hk, h₀, (openCredential_corrupted key [0] _ hs).2 hk (.inl h₀),
    h₁, (openCredential_corrupted key [0] _ hs).1 h₁, h₂, (openCredential_corrupted key [0] _ hs).2 hk (.inr ⟨0, h₂⟩)⟩

end AttestedVault
