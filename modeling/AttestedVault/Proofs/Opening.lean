import AttestedVault.Credential.Service
import AttestedVault.Proofs.Written

/-!
# What was sealed can be opened

Counter mode adds the same key stream twice, so decryption gives the plaintext
back. From there up: a wrapped key is unwrapped under its master key and
context, a new record yields its key, a credential its text.
-/

namespace AttestedVault

/-! ## Counter mode -/

namespace Bytes

@[simp] theorem length_xor (a b : Bytes) : (xor a b).length = min a.length b.length := by
  simp [xor]

theorem xor_xor : ∀ {a k : Bytes}, a.length ≤ k.length → xor (xor a k) k = a
  | [], _, _ => rfl
  | x :: a, [], h => by simp at h
  | x :: a, y :: k, h => by
    have hl : a.length ≤ k.length := by simpa using h
    change (x ^^^ y ^^^ y) :: xor (xor a k) k = x :: a
    rw [xor_xor hl, UInt8.xor_assoc, UInt8.xor_self, UInt8.xor_zero]

@[simp] theorem chunks_nil (n : Nat) : chunks n [] = [] := by cases n <;> simp [chunks]

theorem chunks_of_ne_nil (n : Nat) {b : Bytes} (h : b ≠ []) :
    chunks (n + 1) b = b.take (n + 1) :: chunks (n + 1) (b.drop (n + 1)) := by
  cases b with
  | nil => exact absurd rfl h
  | cons x b => rw [chunks]; rfl

end Bytes

namespace Gcm

theorem counterMode_chunks (keys : List Aes.Block) (c : Poly) {b : Bytes} (h : b ≠ []) :
    counterMode keys c (Bytes.chunks 16 b) =
      Bytes.xor (b.take 16) (Aes.encryptWith keys (next c).toBytes).val ++
        counterMode keys (next c) (Bytes.chunks 16 (b.drop 16)) := by
  rw [Bytes.chunks_of_ne_nil 15 h]
  rfl

theorem counterMode_counterMode (keys : List Aes.Block) (b : Bytes) : ∀ c,
    (counterMode keys c (Bytes.chunks 16 b)).length = b.length ∧
      counterMode keys c (Bytes.chunks 16 (counterMode keys c (Bytes.chunks 16 b))) = b := by
  induction h : b.length using Nat.strongRecOn generalizing b with
  | ind n ih =>
    intro c
    by_cases hb : b = []
    · subst hb; simp_all [counterMode]
    obtain ⟨hl, hi⟩ := ih (b.drop 16).length
      (by have := List.length_pos_iff.mpr hb; simp only [List.length_drop]; omega) (b.drop 16) rfl (next c)
    have hk := (Aes.encryptWith keys (next c).toBytes).property
    let x := Bytes.xor (b.take 16) (Aes.encryptWith keys (next c).toBytes).val
    have hx : x.length = min 16 b.length := by
      simp only [x, Bytes.length_xor, List.length_take, hk]; omega
    rw [counterMode_chunks keys c hb]
    refine ⟨by rw [List.length_append, hl, hx, List.length_drop]; omega, ?_⟩
    change counterMode keys c (Bytes.chunks 16 (x ++ _)) = b
    have hne : x ++ counterMode keys (next c) (Bytes.chunks 16 (b.drop 16)) ≠ [] := by
      have := List.length_pos_iff.mpr hb
      rw [← List.length_pos_iff, List.length_append]; omega
    have hxx : Bytes.xor x (Aes.encryptWith keys (next c).toBytes).val = b.take 16 := by
      refine Bytes.xor_xor ?_
      rw [hk]; exact List.length_take_le _ _
    -- either the piece is whole, or it is the last one
    have hcut : (x ++ counterMode keys (next c) (Bytes.chunks 16 (b.drop 16))).take 16 = x ∧
        (x ++ counterMode keys (next c) (Bytes.chunks 16 (b.drop 16))).drop 16 =
          counterMode keys (next c) (Bytes.chunks 16 (b.drop 16)) := by
      by_cases hs : 16 ≤ b.length
      · have h16 : x.length = 16 := by omega
        exact ⟨List.take_left' h16, List.drop_left' h16⟩
      · have hd : b.drop 16 = [] := List.drop_eq_nil_of_le (by omega)
        rw [hd]
        simp only [Bytes.chunks_nil, counterMode, List.append_nil]
        exact ⟨List.take_of_length_le (by omega), List.drop_eq_nil_of_le (by omega)⟩
    rw [counterMode_chunks keys c hne, hcut.1, hcut.2, hi, hxx, List.take_append_drop]

theorem length_encrypt (key : Octets 32) (iv p aad : Bytes) : (encrypt key iv p aad).1.length = p.length :=
  (counterMode_counterMode _ p _).1

theorem decrypt_encrypt (key : Octets 32) (iv p aad : Bytes) :
    decrypt key iv (encrypt key iv p aad).1 (encrypt key iv p aad).2 aad = some p := by
  simp only [decrypt, encrypt, if_true]
  exact congrArg some (counterMode_counterMode _ p _).2

/-- Only what was sealed is opened: one tag is accepted for each ciphertext. -/
theorem decrypt_eq_some_iff {key : Octets 32} {iv c p aad : Bytes} {tag : Octets 16} :
    decrypt key iv c tag aad = some p ↔ encrypt key iv p aad = (c, tag) := by
  constructor
  · intro h
    simp only [decrypt] at h
    split at h
    · rename_i ht
      cases h
      have hc : (session key iv).crypt ((session key iv).crypt c) = c := (counterMode_counterMode _ c _).2
      simp only [encrypt, hc, ht]
    · cases h
  · intro h
    have hd := decrypt_encrypt key iv p aad
    rwa [h] at hd

theorem tag_of_encrypt {key : Octets 32} {iv p c aad : Bytes} {tag : Octets 16}
    (h : encrypt key iv p aad = (c, tag)) : tag = (session key iv).tag aad c := by
  cases h
  rfl

end Gcm

/-! ## Wrapped keys -/

theorem Sealed.plaintext?_make (key : Octets 32) (iv p aad : Bytes) :
    (Sealed.make key iv p aad).plaintext? key aad = some p :=
  Gcm.decrypt_encrypt key iv p aad

theorem Sealed.plaintext?_eq_some_iff {s : Sealed} {key : Octets 32} {p aad : Bytes} :
    s.plaintext? key aad = some p ↔ Sealed.make key s.iv p aad = s := by
  rw [plaintext?, Gcm.decrypt_eq_some_iff, make]
  constructor
  · intro h
    rw [h]
  · intro h
    obtain ⟨-, ht, hc⟩ := Sealed.mk.inj h
    exact Prod.ext hc ht

namespace WrappedDek

theorem unwrap_wrap (dek : Dek) (key : MasterKey) (iv : Octets 12) (c : Option WrapContext) :
    (wrap dek key iv c).unwrap key c = .ok dek := by
  have hl : (wrap dek key iv c).ciphertext.length = 32 :=
    (Gcm.length_encrypt key.bytes iv.val dek.bytes.val (WrapContext.aad? c)).trans dek.bytes.property
  have hp : (wrap dek key iv c).toSealed.plaintext? key.bytes (WrapContext.aad? c) = some dek.bytes.val :=
    Sealed.plaintext?_make key.bytes iv.val dek.bytes.val (WrapContext.aad? c)
  simp only [unwrap, hl, if_true, hp, Dek.ofBytes, Octets.ofBytes?_val]

end WrappedDek

/-! ## Results -/

section

variable {ε ε' α β : Type} {x : Except ε α}

theorem bind_eq_ok {f : α → Except ε β} {y : β} : (x >>= f) = .ok y ↔ ∃ a, x = .ok a ∧ f a = .ok y := by
  cases x with
  | ok a =>
    refine ⟨fun h => ⟨a, rfl, h⟩, ?_⟩
    rintro ⟨_, h, hf⟩
    cases h
    exact hf
  | error e =>
    refine iff_of_false (fun h => by cases h) ?_
    rintro ⟨_, h, _⟩
    cases h

theorem bind_eq_error {f : α → Except ε β} {e : ε} :
    (x >>= f) = .error e ↔ x = .error e ∨ ∃ a, x = .ok a ∧ f a = .error e := by
  cases x with
  | ok a =>
    refine ⟨fun h => .inr ⟨a, rfl, h⟩, ?_⟩
    rintro (h | ⟨_, h, hf⟩)
    · cases h
    · cases h
      exact hf
  | error e' =>
    refine ⟨fun h => .inl (congrArg Except.error (Except.error.inj h)), ?_⟩
    rintro (h | ⟨_, h, _⟩)
    · exact congrArg Except.error (Except.error.inj h)
    · cases h

theorem mapError_eq_ok {f : ε → ε'} {a : α} : x.mapError f = .ok a ↔ x = .ok a := by
  cases x with
  | ok b => exact ⟨fun h => congrArg Except.ok (Except.ok.inj h), fun h => congrArg Except.ok (Except.ok.inj h)⟩
  | error e => exact iff_of_false (fun h => by cases h) (fun h => by cases h)

theorem mapError_eq_error {f : ε → ε'} {e : ε'} (h : x.mapError f = .error e) : ∃ c, f c = e := by
  cases x with
  | ok a => cases h
  | error c => exact ⟨c, Except.error.inj h⟩

end

/-! ## Records -/

namespace KeyRecord

theorem mapError_ok {ε ε' α : Type} (f : ε → ε') (x : α) : (Except.ok x).mapError f = .ok x := rfl

variable (id : String) (time : Timestamp) (w : WrappedDek) (key : MasterKeyId) (version : String)

theorem keyId_make : (make id time w key version).keyId = .ok key := by
  simp only [keyId, make, MasterKeyId.parse_toHex]

theorem decode_of_encode (r : KeyRecord) (field : String) (b : Bytes) :
    r.decode field (Base64.encode b) = .ok b := by
  simp only [decode, Base64.decode_encode]

theorem decodeFixed_of_encode {n : Nat} (r : KeyRecord) (field : String) (o : Octets n) :
    decodeFixed n r field (Base64.encode o.val) = .ok o := by
  simp only [decodeFixed, decode_of_encode, bind, Except.bind, Octets.ofBytes?_val]

theorem wrapped_make : (make id time w key version).wrapped = .ok w := by
  simp only [wrapped, make, decode_of_encode, decodeFixed_of_encode, bind, Except.bind]

theorem context_make : (make id time w key version).context = .ok ⟨key, version⟩ := by
  simp only [context, keyId_make, bind, Except.bind]
  rfl

theorem unwrap_make (dek : Dek) (key : MasterKey) (iv : Octets 12) :
    (make id time (.wrap dek key iv (some ⟨key.id, version⟩)) key.id version).unwrap key = .ok dek := by
  simp only [unwrap, wrapped_make, context_make, mapError_ok, bind, Except.bind, WrappedDek.unwrap_wrap]

theorem openWith_eq_ok {r : KeyRecord} {key : MasterKey} {dek : Dek} :
    r.openWith key = .ok dek ↔ r.keyId = .ok key.id ∧ r.unwrap key = .ok dek := by
  unfold openWith
  cases hk : r.keyId with
  | error e => exact ⟨nofun, fun h => nomatch h.1⟩
  | ok stored =>
    by_cases hs : stored = key.id
    · simp [mapError_ok, bind, Except.bind, hs]
    · simp [mapError_ok, bind, Except.bind, hs, throw, throwThe, MonadExceptOf.throw]

end KeyRecord

/-! ## Credentials -/

theorem Sealed.toBytes_parts (s : Sealed) (h : s.iv.length = 16) : s.toBytes.take 16 = s.iv ∧
    (s.toBytes.drop 16).take 16 = s.tag.val ∧ s.toBytes.drop 32 = s.ciphertext ∧ 32 ≤ s.toBytes.length := by
  have ht := s.tag.property
  have h32 : (s.iv ++ s.tag.val).length = 32 := by rw [List.length_append, h, ht]
  rw [toBytes]
  refine ⟨?_, ?_, List.drop_left' h32, by rw [List.length_append, h32]; omega⟩
  · rw [List.append_assoc, List.take_left' h]
  · rw [List.append_assoc, List.drop_left' h, List.take_left' ht]

theorem openCredential_toBytes (key : Octets 32) (s : Sealed) (h : s.iv.length = 16) :
    openCredential key.val s.toBytes =
      match s.plaintext? key [] with
      | some p => .ok p
      | none => .error .decryption := by
  obtain ⟨h₁, h₂, h₃, hl⟩ := s.toBytes_parts h
  obtain ⟨iv, tag, c⟩ := s
  cases hp : Sealed.plaintext? ⟨iv, tag, c⟩ key [] <;>
    simp only [openCredential, if_neg (Nat.not_lt.mpr hl), h₁, h₂, h₃, openText, Octets.ofBytes?_val, h, if_true, hp]

theorem openCredential_make (key : Octets 32) (iv : Octets 16) (p : Bytes) :
    openCredential key.val (Sealed.make key iv.val p []).toBytes = .ok p := by
  rw [openCredential_toBytes key _ iv.property, Sealed.plaintext?_make]

theorem Credential.decrypt_encode (key : Dek) (iv : Octets 16) (text : String) :
    decrypt key (Hex.encode (Sealed.make key.bytes iv.val (Bytes.ofText text) []).toBytes) = .ok text := by
  simp only [decrypt, Hex.trim_encode, Hex.decode_encode, openCredential_make, Bytes.toText?_ofText]

end AttestedVault
