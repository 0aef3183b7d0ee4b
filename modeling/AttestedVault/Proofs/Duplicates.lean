import AttestedVault.Credential.Fingerprint
import AttestedVault.Proofs.Written

/-!
# Duplicate credentials

Credential sets are compared by the digest of their fields joined by colons.
A set without a colon in its fields has its text for itself. Any other set shares
its text with a different one, and the two pass for duplicates.
-/

namespace AttestedVault

namespace Fingerprint

def Collide (s t : String) : Prop := s ≠ t ∧ sha256 (Bytes.ofText s) = sha256 (Bytes.ofText t)

theorem ofText_eq_iff {s t : String} : ofText s = ofText t ↔ s = t ∨ Collide s t := by
  constructor
  · intro h
    by_cases hst : s = t
    · exact .inl hst
    · exact .inr ⟨hst, Subtype.ext (Hex.encode_injective h)⟩
  · rintro (rfl | ⟨-, h⟩)
    · rfl
    · rw [ofText, ofText, h]

/-! ## Colons -/

def colons (field : String) : Nat := field.toList.count ':'

@[simp] theorem colons_append (s t : String) : colons (s ++ t) = colons s + colons t := by
  rw [colons, String.toList_append, List.count_append]
  rfl

@[simp] theorem colons_colon : colons ":" = 1 := by decide

theorem exists_split {s : String} (h : colons s ≠ 0) : ∃ u v, s = u ++ ":" ++ v := by
  obtain ⟨as, bs, hs⟩ := List.append_of_mem (List.count_pos_iff.mp (Nat.pos_of_ne_zero h))
  refine ⟨String.ofList as, String.ofList bs, String.toList_inj.mp ?_⟩
  rw [hs, String.toList_append, String.toList_append, String.toList_ofList, String.toList_ofList]
  simp

theorem split_inj {s t u v : String} (h : s ++ ":" ++ t = u ++ ":" ++ v) (hn : colons s = colons u) :
    s = u ∧ t = v := by
  have hl := congrArg String.toList h
  simp only [String.toList_append, List.append_assoc] at hl
  obtain ⟨hs, ht⟩ := cut_inj hl hn
  exact ⟨String.toList_inj.mp hs, String.toList_inj.mp ht⟩

theorem ne_append_colon (u v : String) : u ≠ u ++ ":" ++ v := by
  intro h
  have hn := congrArg colons h
  simp only [colons_append, colons_colon] at hn
  omega

end Fingerprint

/-! ## Credential sets -/

structure CredentialSet where
  apiKey : String
  apiSecret : String
  passphrase : Option String

namespace CredentialSet

open Fingerprint

def text (c : CredentialSet) : String := joined c.apiKey c.apiSecret c.passphrase

def fingerprint (c : CredentialSet) : String := ofCredentials c.apiKey c.apiSecret c.passphrase

/-- Equal field by field, where no passphrase is as good as an empty one. -/
def Same (c d : CredentialSet) : Prop :=
  c.apiKey = d.apiKey ∧ c.apiSecret = d.apiSecret ∧ c.passphrase.getD "" = d.passphrase.getD ""

def Plain (c : CredentialSet) : Prop :=
  colons c.apiKey = 0 ∧ colons c.apiSecret = 0 ∧ colons (c.passphrase.getD "") = 0

variable {c d : CredentialSet}

theorem colons_text (c : CredentialSet) : colons c.text =
    colons c.apiKey + colons c.apiSecret + colons (c.passphrase.getD "") + 2 := by
  simp only [text, joined, colons_append, colons_colon]
  omega

theorem Same.text_eq (h : c.Same d) : c.text = d.text := by
  obtain ⟨hk, hs, hp⟩ := h
  rw [text, text, joined, joined, hk, hs, hp]

theorem same_of_text (h : c.text = d.text) (hk : colons c.apiKey = colons d.apiKey)
    (hs : colons c.apiSecret = colons d.apiSecret) : c.Same d := by
  simp only [text, joined] at h
  have hks : colons (c.apiKey ++ ":" ++ c.apiSecret) = colons (d.apiKey ++ ":" ++ d.apiSecret) := by
    simp only [colons_append, hk, hs]
  obtain ⟨h, hp⟩ := split_inj h hks
  obtain ⟨hkey, hsecret⟩ := split_inj h hk
  exact ⟨hkey, hsecret, hp⟩

theorem Plain.same_of_text (hc : c.Plain) (h : c.text = d.text) : c.Same d := by
  -- both texts have the two colons of the separators only
  have hn := congrArg colons h
  obtain ⟨hk, hs, hp⟩ := hc
  rw [colons_text, colons_text] at hn
  exact CredentialSet.same_of_text h (by omega) (by omega)

/-- A colon in a field may as well be taken for a separator. -/
theorem exists_twin (hc : ¬ c.Plain) : ∃ d : CredentialSet, c.text = d.text ∧ ¬ c.Same d := by
  obtain ⟨key, secret, passphrase⟩ := c
  by_cases hk : colons key = 0
  · by_cases hs : colons secret = 0
    · have hp : colons (passphrase.getD "") ≠ 0 := fun hp => hc ⟨hk, hs, hp⟩
      obtain ⟨u, v, hp⟩ := exists_split hp
      refine ⟨⟨key, secret ++ ":" ++ u, some v⟩, ?_, fun h => ne_append_colon secret u h.2.1⟩
      simp only [text, joined, hp, Option.getD_some, String.append_assoc]
    · obtain ⟨u, v, rfl⟩ := exists_split hs
      refine ⟨⟨key, u, some (v ++ ":" ++ passphrase.getD "")⟩, ?_, fun h => ne_append_colon u v h.2.1.symm⟩
      simp only [text, joined, Option.getD_some, String.append_assoc]
  · obtain ⟨u, v, rfl⟩ := exists_split hk
    refine ⟨⟨u, v, some (secret ++ ":" ++ passphrase.getD "")⟩, ?_, fun h => ne_append_colon u v h.1.symm⟩
    simp only [text, joined, Option.getD_some, String.append_assoc]

/-- Equal fingerprints stand for one text, unless two texts have one digest. One text
stands for the same set where the fields have equally many colons, and for this
set alone exactly if its fields have none. -/
theorem fingerprint_separates (c d : CredentialSet) :
    (c.fingerprint = d.fingerprint ↔ c.text = d.text ∨ Collide c.text d.text) ∧
    (c.text = d.text ∧ colons c.apiKey = colons d.apiKey ∧ colons c.apiSecret = colons d.apiSecret ↔ c.Same d) ∧
    ((∀ d : CredentialSet, c.text = d.text → c.Same d) ↔ c.Plain) := by
  refine ⟨ofText_eq_iff, ⟨?_, ?_⟩, ⟨?_, ?_⟩⟩
  · rintro ⟨h, hk, hs⟩
    exact same_of_text h hk hs
  · intro h
    exact ⟨h.text_eq, by rw [h.1], by rw [h.2.1]⟩
  · intro h
    by_cases hc : c.Plain
    · exact hc
    · obtain ⟨d, htext, hne⟩ := exists_twin hc
      exact absurd (h d htext) hne
  · intro hc d h
    exact hc.same_of_text h

example : (CredentialSet.mk "a:b" "c" none).fingerprint = (CredentialSet.mk "a" "b:c" none).fingerprint := rfl

end CredentialSet

end AttestedVault
