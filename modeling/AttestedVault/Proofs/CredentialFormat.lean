import AttestedVault.Proofs.ActiveRecord
import AttestedVault.Proofs.Spelling
import AttestedVault.Proofs.Wrapping

/-!
# The format of credentials

Which texts are credentials, what they decrypt to under a key, and what is wrong
with the others.
-/

namespace AttestedVault.Credential

/-- The parts of a credential, as a text with blanks around it holds them. -/
def Writes (encoded : String) (iv tag : Octets 16) (c : Bytes) : Prop :=
  Hex.Spells (Text.trim encoded).toList (Sealed.mk iv.val tag c).toBytes

variable {key : Dek} {encoded text : String} {iv tag : Octets 16} {b c p : Bytes}

/-! ## Reading -/

theorem exists_parts (h : ¬ b.length < 32) :
    ∃ (iv tag : Octets 16) (c : Bytes), (Sealed.mk iv.val tag c).toBytes = b := by
  refine ⟨⟨b.take 16, ?_⟩, ⟨(b.drop 16).take 16, ?_⟩, b.drop 32, ?_⟩
  · rw [List.length_take]; omega
  · rw [List.length_take, List.length_drop]; omega
  · simp only [Sealed.toBytes]
    rw [List.append_assoc, ← List.drop_drop (i := 16) (j := 16), List.take_append_drop, List.take_append_drop]

theorem text_cases (encoded : String) : (∀ b, ¬ Hex.Spells (Text.trim encoded).toList b) ∨
    (∃ b, Hex.Spells (Text.trim encoded).toList b ∧ b.length < 32) ∨ ∃ iv tag c, Writes encoded iv tag c := by
  by_cases hs : ∃ b, Hex.Spells (Text.trim encoded).toList b
  · obtain ⟨b, hb⟩ := hs
    by_cases hl : b.length < 32
    · exact .inr (.inl ⟨b, hb, hl⟩)
    · obtain ⟨iv, tag, c, rfl⟩ := exists_parts hl
      exact .inr (.inr ⟨iv, tag, c, hb⟩)
  · exact .inl fun b hb => hs ⟨b, hb⟩

theorem decrypt_of_not_spells (key : Dek) (h : ∀ b, ¬ Hex.Spells (Text.trim encoded).toList b) :
    ∃ e, decrypt key encoded = .error (.malformed (.digits e)) := by
  unfold decrypt
  cases hd : Hex.decode (Bytes.ofText (Text.trim encoded)) with
  | ok b => exact absurd (Hex.decode_eq_ok_iff.mp hd) (h b)
  | error e => exact ⟨e, rfl⟩

theorem decrypt_of_short (h : Hex.Spells (Text.trim encoded).toList b) (hl : b.length < 32) :
    decrypt key encoded = .error (.malformed .tooShort) := by
  rw [decrypt, Hex.decode_eq_ok_iff.mpr h]
  simp only [openCredential, if_pos hl]
  rfl

theorem decrypt_of_writes (h : Writes encoded iv tag c) : decrypt key encoded =
    match Gcm.decrypt key.bytes iv.val c tag [] with
    | none => .error .decryption
    | some p =>
      match Bytes.toText? p with
      | none => .error (.malformed .notText)
      | some text => .ok text := by
  rw [decrypt, Hex.decode_eq_ok_iff.mpr h]
  simp only [openCredential_toBytes key.bytes ⟨iv.val, tag, c⟩ iv.property, Sealed.plaintext?]
  cases Gcm.decrypt key.bytes iv.val c tag [] with
  | none => rfl
  | some p => rfl

theorem decrypt_of_encrypt (h : Writes encoded iv tag c) (he : Gcm.encrypt key.bytes iv.val p [] = (c, tag)) :
    decrypt key encoded =
      match Bytes.toText? p with
      | none => .error (.malformed .notText)
      | some text => .ok text := by
  rw [decrypt_of_writes h, Gcm.decrypt_eq_some_iff.mpr he]

theorem decrypt_of_forged (h : Writes encoded iv tag c)
    (hf : ∀ p, Gcm.encrypt key.bytes iv.val p [] ≠ (c, tag)) : decrypt key encoded = .error .decryption := by
  rw [decrypt_of_writes h]
  cases hp : Gcm.decrypt key.bytes iv.val c tag [] with
  | none => rfl
  | some p => exact absurd (Gcm.decrypt_eq_some_iff.mp hp) (hf p)

/-- What a text is to a key, and how it is decrypted accordingly. -/
inductive Reading (key : Dek) (encoded : String) : Except CredentialError String → Prop
  | notHex {e : CiphertextError} (h : ∀ b, ¬ Hex.Spells (Text.trim encoded).toList b) :
      Reading key encoded (.error (.malformed e))
  | short {e : CiphertextError} {b : Bytes} (h : Hex.Spells (Text.trim encoded).toList b) (hl : b.length < 32) :
      Reading key encoded (.error (.malformed e))
  | forged {iv tag : Octets 16} {c : Bytes} (h : Writes encoded iv tag c)
      (hf : ∀ p, Gcm.encrypt key.bytes iv.val p [] ≠ (c, tag)) : Reading key encoded (.error .decryption)
  | notText {e : CiphertextError} {iv tag : Octets 16} {c p : Bytes} (h : Writes encoded iv tag c)
      (he : Gcm.encrypt key.bytes iv.val p [] = (c, tag)) (ht : ∀ text, Bytes.ofText text ≠ p) :
      Reading key encoded (.error (.malformed e))
  | text {iv tag : Octets 16} {c : Bytes} {text : String} (h : Writes encoded iv tag c)
      (he : Gcm.encrypt key.bytes iv.val (Bytes.ofText text) [] = (c, tag)) : Reading key encoded (.ok text)

theorem reading_decrypt (key : Dek) (encoded : String) : Reading key encoded (decrypt key encoded) := by
  rcases text_cases encoded with hs | ⟨b, hb, hl⟩ | ⟨iv, tag, c, hw⟩
  · obtain ⟨e, he⟩ := decrypt_of_not_spells key hs
    rw [he]
    exact .notHex hs
  · rw [decrypt_of_short hb hl]
    exact .short hb hl
  · by_cases hf : ∃ p, Gcm.encrypt key.bytes iv.val p [] = (c, tag)
    · obtain ⟨p, he⟩ := hf
      rw [decrypt_of_encrypt hw he]
      cases ht : Bytes.toText? p with
      | none =>
        refine .notText hw he fun text hp => ?_
        rw [← hp, Bytes.toText?_ofText] at ht
        cases ht
      | some text =>
        rw [← Bytes.ofText_of_toText? ht] at he
        exact .text hw he
    · have hf : ∀ p, Gcm.encrypt key.bytes iv.val p [] ≠ (c, tag) := fun p he => hf ⟨p, he⟩
      rw [decrypt_of_forged hw hf]
      exact .forged hw hf

theorem decrypt_eq_ok_iff : decrypt key encoded = .ok text ↔ ∃ iv tag c, Writes encoded iv tag c ∧
    Gcm.encrypt key.bytes iv.val (Bytes.ofText text) [] = (c, tag) := by
  constructor
  · intro h
    have hr := reading_decrypt key encoded
    rw [h] at hr
    cases hr with
    | text hw he => exact ⟨_, _, _, hw, he⟩
  · rintro ⟨iv, tag, c, hw, he⟩
    rw [decrypt_of_encrypt hw he]
    simp only [Bytes.toText?_ofText]

theorem decrypt_malformed_iff : (∃ e, decrypt key encoded = .error (.malformed e)) ↔
    (∀ b, ¬ Hex.Spells (Text.trim encoded).toList b) ∨
    (∃ b, Hex.Spells (Text.trim encoded).toList b ∧ b.length < 32) ∨
    ∃ iv tag c p, Writes encoded iv tag c ∧ Gcm.encrypt key.bytes iv.val p [] = (c, tag) ∧
      ∀ text, Bytes.ofText text ≠ p := by
  constructor
  · rintro ⟨e, h⟩
    have hr := reading_decrypt key encoded
    rw [h] at hr
    cases hr with
    | notHex hs => exact .inl hs
    | short hb hl => exact .inr (.inl ⟨_, hb, hl⟩)
    | notText hw he ht => exact .inr (.inr ⟨_, _, _, _, hw, he, ht⟩)
  · rintro (hs | ⟨b, hb, hl⟩ | ⟨iv, tag, c, p, hw, he, ht⟩)
    · obtain ⟨e, h⟩ := decrypt_of_not_spells key hs
      exact ⟨_, h⟩
    · exact ⟨_, decrypt_of_short hb hl⟩
    · refine ⟨.notText, ?_⟩
      rw [decrypt_of_encrypt hw he]
      cases hp : Bytes.toText? p with
      | none => rfl
      | some text => exact absurd (Bytes.ofText_of_toText? hp) (ht text)

/-! ## Writing -/

theorem writes_encode (iv tag : Octets 16) (c : Bytes) :
    Writes (Hex.encode (Sealed.mk iv.val tag c).toBytes) iv tag c := by
  rw [Writes, Hex.trim_encode]
  exact Hex.spells_encode _

theorem on_sealCredential (key : Octets 32) (p : Bytes) (h : Host) :
    ((sealCredential key.val p).on h).1 = match (h.shared.random.draw 16).1 with
      | .ok iv => .ok (Sealed.make key iv.val p [])
      | .error reason => .error (.random reason) := by
  rw [sealCredential, Action.on_bind, Action.on_draw]
  simp only [Octets.ofBytes?_val]
  cases (h.shared.random.draw 16).1 with
  | ok iv => rfl
  | error reason => rfl

theorem on_encrypt (key : Dek) (text : String) (h : Host) :
    ((encrypt key text).on h).1 = match (h.shared.random.draw 16).1 with
      | .ok iv => .ok (Hex.encode (Sealed.make key.bytes iv.val (Bytes.ofText text) []).toBytes)
      | .error reason => .error (.crypto (.random reason)) := by
  have hs := on_sealCredential key.bytes (Bytes.ofText text) h
  rw [encrypt, Action.on_bind, Action.on_mapError]
  generalize (sealCredential key.bytes.val (Bytes.ofText text)).on h = r at hs
  obtain ⟨r, t⟩ := r
  cases hd : (h.shared.random.draw 16).1 with
  | ok iv =>
    rw [hd] at hs
    cases hs
    rfl
  | error reason =>
    rw [hd] at hs
    cases hs
    rfl

/-- A text is decrypted exactly if it holds initial value, tag and ciphertext of
an encryption of a text under the key. Otherwise it is malformed, for one of
three reasons, or forged. What was encrypted is decrypted, and with any other
tag it is not. -/
theorem decrypt_exact (key : Dek) :
    (∀ encoded text, decrypt key encoded = .ok text ↔ ∃ iv tag c, Writes encoded iv tag c ∧
      Gcm.encrypt key.bytes iv.val (Bytes.ofText text) [] = (c, tag)) ∧
    (∀ encoded, (∃ e, decrypt key encoded = .error (.malformed e)) ↔
      (∀ b, ¬ Hex.Spells (Text.trim encoded).toList b) ∨
      (∃ b, Hex.Spells (Text.trim encoded).toList b ∧ b.length < 32) ∨
      ∃ iv tag c p, Writes encoded iv tag c ∧ Gcm.encrypt key.bytes iv.val p [] = (c, tag) ∧
        ∀ text, Bytes.ofText text ≠ p) ∧
    (∀ encoded, (∃ text, decrypt key encoded = .ok text) ∨
      (∃ e, decrypt key encoded = .error (.malformed e)) ∨ decrypt key encoded = .error .decryption) ∧
    ∀ text h iv, (h.shared.random.draw 16).1 = .ok iv → ∃ encoded tag c,
      ((encrypt key text).on h).1 = .ok encoded ∧ Writes encoded iv tag c ∧ decrypt key encoded = .ok text ∧
      ∀ forged tag', Writes forged iv tag' c → tag' ≠ tag → decrypt key forged = .error .decryption := by
  refine ⟨fun _ _ => decrypt_eq_ok_iff, fun _ => decrypt_malformed_iff, fun encoded => ?_, ?_⟩
  · have hr := reading_decrypt key encoded
    generalize decrypt key encoded = r at hr
    cases hr with
    | text => exact .inl ⟨_, rfl⟩
    | forged => exact .inr (.inr rfl)
    | _ => exact .inr (.inl ⟨_, rfl⟩)
  · intro text h iv hiv
    let s := Sealed.make key.bytes iv.val (Bytes.ofText text) []
    have hw := writes_encode iv s.tag s.ciphertext
    refine ⟨_, s.tag, s.ciphertext, ?_, hw, ?_, ?_⟩
    · rw [on_encrypt, hiv]
      rfl
    · exact decrypt_eq_ok_iff.mpr ⟨iv, s.tag, s.ciphertext, hw, rfl⟩
    · intro forged tag' hf hne
      -- the tag is a function of the ciphertext
      refine decrypt_of_forged hf fun p he => hne ?_
      exact (Gcm.tag_of_encrypt he).trans (Gcm.tag_of_encrypt (p := Bytes.ofText text) rfl).symm

theorem decrypt_exact_first : ∃ key h c iv tag b, ((encrypt key "naïve 🔑").on h).1 = .ok c ∧ Writes c iv tag b ∧
    decrypt key c = .ok "naïve 🔑" ∧
    ∀ forged tag', Writes forged iv tag' b → tag' ≠ tag → decrypt key forged = .error .decryption := by
  obtain ⟨c, tag, b, hc, hw, hd, hf⟩ :=
    (decrypt_exact ⟨.ofBytes 32 []⟩).2.2.2 "naïve 🔑" (.attested .blank) (.ofBytes 16 []) rfl
  exact ⟨_, _, c, _, tag, b, hc, hw, hd, hf⟩

end AttestedVault.Credential
