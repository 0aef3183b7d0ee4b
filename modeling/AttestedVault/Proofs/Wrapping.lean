import AttestedVault.Proofs.Opening
import AttestedVault.Proofs.Solo

/-!
# Wrapped keys

A wrapped key is unwrapped exactly if wrapping under its own initial value gives
it, and no two contexts bind it to the same bytes.
-/

namespace AttestedVault

/-! ## What is bound -/

namespace WrapContext

theorem length_aad (c : WrapContext) : c.aad.length = 12 + (Bytes.ofText c.version).length := by
  simp only [aad, List.length_append, Bytes.length_ofNat, c.masterKeyId.bytes.property]

theorem aad_inj {c c' : WrapContext} : c.aad = c'.aad ↔ c = c' := by
  -- a length is cut to four bytes, but the versions of two equal byte strings are of one length
  constructor
  · intro h
    have hl := congrArg List.length h
    rw [length_aad, length_aad] at hl
    have hid := c.masterKeyId.bytes.property.trans c'.masterKeyId.bytes.property.symm
    obtain ⟨h₁, hv⟩ := List.append_inj' h (by omega)
    obtain ⟨hk, -⟩ := List.append_inj h₁ hid
    obtain ⟨⟨k⟩, v⟩ := c
    obtain ⟨⟨k'⟩, v'⟩ := c'
    obtain rfl : k = k' := Subtype.ext hk
    obtain rfl : v = v' := Bytes.ofText_injective hv
    rfl
  · intro h
    rw [h]

theorem aad?_inj {c c' : Option WrapContext} : aad? c = aad? c' ↔ c = c' := by
  have hne : ∀ c : WrapContext, c.aad ≠ [] := by
    intro c h
    have hl := congrArg List.length h
    rw [length_aad] at hl
    simp at hl
  cases c with
  | none =>
    cases c' with
    | none => simp
    | some c' => simpa [aad?] using (hne c').symm
  | some c =>
    cases c' with
    | none => simpa [aad?] using hne c
    | some c' => simpa [aad?] using aad_inj

end WrapContext

/-! ## What is unwrapped -/

theorem Action.on_draw (n : Nat) (h : Host) : (draw n).on h =
    ((h.shared.random.draw n).1.mapError .random, (Host.perform (.draw n) h).2) := by
  rfl

theorem on_wrapDek (dek : Dek) (key : MasterKey) (c : Option WrapContext) (h : Host) :
    ((wrapDek dek key c).on h).1 = match (h.shared.random.draw 12).1 with
      | .ok iv => .ok (.wrap dek key iv c)
      | .error reason => .error (.random reason) := by
  rw [wrapDek, Action.on_bind, Action.on_draw]
  cases (h.shared.random.draw 12).1 with
  | ok iv => rfl
  | error reason => rfl

theorem Dek.ofBytes_eq_ok_iff {b : Bytes} {dek : Dek} : ofBytes b = .ok dek ↔ dek.bytes.val = b := by
  rw [← Octets.ofBytes?_eq_some_iff, ofBytes]
  cases Octets.ofBytes? 32 b with
  | none => simp
  | some k =>
    obtain ⟨k'⟩ := dek
    simp

namespace WrappedDek

variable {w : WrappedDek} {key : MasterKey} {c : Option WrapContext} {dek : Dek}

theorem plaintext?_eq_some_iff : w.toSealed.plaintext? key.bytes (WrapContext.aad? c) = some dek.bytes.val ↔
    w = wrap dek key w.iv c := by
  rw [Sealed.plaintext?_eq_some_iff]
  constructor
  · intro h
    change w = ofSealed w.iv (Sealed.make key.bytes w.toSealed.iv dek.bytes.val (WrapContext.aad? c))
    rw [h]
    rfl
  · intro h
    conv => rhs; rw [h]
    rfl

theorem unwrap_eq_ok_iff : w.unwrap key c = .ok dek ↔ w = wrap dek key w.iv c := by
  constructor
  · intro h
    unfold unwrap at h
    split at h
    · split at h
      · rename_i p hp
        rw [← Dek.ofBytes_eq_ok_iff.mp h] at hp
        exact plaintext?_eq_some_iff.mp hp
      · cases h
    · cases h
  · intro h
    rw [h]
    exact unwrap_wrap dek key w.iv c

theorem unwrap_eq_error {e : CryptoError} (h : w.unwrap key c = .error e) :
    e = if w.ciphertext.length = 32 then .unwrapAuthentication else .dekLength w.ciphertext.length := by
  -- what is opened is as long as the ciphertext, so a key is built from it
  unfold unwrap at h
  split at h
  · rename_i hl
    rw [if_pos hl]
    split at h
    · rename_i p hp
      have hs := Sealed.plaintext?_eq_some_iff.mp hp
      have hp : p.length = 32 := by
        rw [← Gcm.length_encrypt key.bytes w.iv.val p (WrapContext.aad? c), ← hl]
        exact congrArg (fun s => s.ciphertext.length) hs
      have hk : Dek.ofBytes p = .ok ⟨⟨p, hp⟩⟩ := Dek.ofBytes_eq_ok_iff.mpr rfl
      rw [hk] at h
      cases h
    · cases h
      rfl
  · rename_i hl
    rw [if_neg hl]
    cases h
    rfl

/-- Unwrapping succeeds exactly on what wrapping gives. What is bound to the
wrapped key is different for different contexts, and for none. -/
theorem unwrap_inverts_wrap (w : WrappedDek) (key : MasterKey) (c : Option WrapContext) :
    (∀ dek h, ((wrapDek dek key c).on h).1 = match (h.shared.random.draw 12).1 with
      | .ok iv => .ok (.wrap dek key iv c)
      | .error reason => .error (.random reason)) ∧
    (∀ dek, w.unwrap key c = .ok dek ↔ w = wrap dek key w.iv c) ∧
    ((∀ dek, w ≠ wrap dek key w.iv c) ↔ w.unwrap key c =
      .error (if w.ciphertext.length = 32 then .unwrapAuthentication else .dekLength w.ciphertext.length)) ∧
    (∀ c', WrapContext.aad? c = WrapContext.aad? c' ↔ c = c') := by
  refine ⟨fun dek h => on_wrapDek dek key c h, fun dek => unwrap_eq_ok_iff, ?_, fun c' => WrapContext.aad?_inj⟩
  constructor
  · intro h
    cases hu : w.unwrap key c with
    | ok dek => exact absurd (unwrap_eq_ok_iff.mp hu) (h dek)
    | error e => rw [unwrap_eq_error hu]
  · intro h dek hw
    rw [unwrap_eq_ok_iff.mpr hw] at h
    cases h

end WrappedDek

end AttestedVault
