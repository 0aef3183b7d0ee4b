import AttestedVault.Attestation.Source
import AttestedVault.Proofs.Fetching
import AttestedVault.Proofs.RecordFields
import AttestedVault.Proofs.ReportLayout
import Mathlib.Data.List.TakeWhile

/-!
# Bodies of a metadata endpoint

An endpoint serves a report as its bytes or as hexadecimal digits in either case
with blanks around them. Bytes of a report's length are taken as they are; digits
for a report are more than that, so neither form is taken for the other.
-/

namespace AttestedVault

/-! ## Blanks at both ends -/

namespace Bytes

variable {before text after : Bytes}

theorem dropWhile_isBlank_of_none (h : ∀ x ∈ text, isBlank x = false) : text.dropWhile isBlank = text := by
  cases text with
  | nil => rfl
  | cons x text => exact List.dropWhile_cons_of_neg (by simp [h x List.mem_cons_self])

theorem trim_append (hb : ∀ x ∈ before, isBlank x = true) (ht : ∀ x ∈ text, isBlank x = false)
    (ha : ∀ x ∈ after, isBlank x = true) : trim (before ++ text ++ after) = text := by
  have hfront : (before ++ text ++ after).dropWhile isBlank = (text ++ after).dropWhile isBlank := by
    rw [List.append_assoc, List.dropWhile_append_of_pos hb]
  rw [trim, hfront]
  cases text with
  | nil =>
    -- without a text the blanks at the end go with those at the front
    rw [List.nil_append, List.dropWhile_eq_nil_iff.mpr ha]
    rfl
  | cons x text =>
    rw [List.cons_append, List.dropWhile_cons_of_neg (by simp [ht x List.mem_cons_self]), ← List.cons_append,
      List.reverse_append, List.dropWhile_append_of_pos fun y hy => ha y (List.mem_reverse.mp hy),
      dropWhile_isBlank_of_none fun y hy => ht y (List.mem_reverse.mp hy), List.reverse_reverse]

theorem exists_trim (b : Bytes) : ∃ before after : Bytes, (∀ x ∈ before, isBlank x = true) ∧
    (∀ x ∈ after, isBlank x = true) ∧ b = before ++ trim b ++ after := by
  let rest := b.dropWhile isBlank
  have hrest : rest = trim b ++ (rest.reverse.takeWhile isBlank).reverse := by
    rw [trim, ← List.reverse_append, List.takeWhile_append_dropWhile, List.reverse_reverse]
  refine ⟨b.takeWhile isBlank, (rest.reverse.takeWhile isBlank).reverse, fun x => List.mem_takeWhile_imp,
    fun x hx => List.mem_takeWhile_imp (List.mem_reverse.mp hx), ?_⟩
  rw [List.append_assoc, ← hrest, List.takeWhile_append_dropWhile]

end Bytes

/-! ## Digits -/

namespace Hex

variable {c : Char} {cs : List Char} {t b body : Bytes}

def IsText (t : Bytes) : Prop := t.length % 2 = 0 ∧ ∀ x ∈ t, IsDigit (Char.ofNat x.toNat)

/-- Digits of these bytes, in either case, with blanks around them. -/
def Renders (body b : Bytes) : Prop :=
  ∃ before cs after, (∀ x ∈ before, Bytes.isBlank x = true) ∧ (∀ x ∈ after, Bytes.isBlank x = true) ∧
    Spells cs b ∧ body = before ++ codes cs ++ after

theorem value?_of_isBlank {x : UInt8} (h : Bytes.isBlank x = true) : value? x = none := by
  simp only [Bytes.isBlank, Bool.or_eq_true, beq_iff_eq] at h
  rcases h with (((rfl | rfl) | rfl) | rfl) | rfl <;> rfl

theorem IsDigit.not_blank (h : IsDigit c) : Bytes.isBlank (UInt8.ofNat c.toNat) = false := by
  obtain ⟨n, hn, hc⟩ := h.denotes
  rw [← Bool.not_eq_true]
  intro hb
  have hv := value?_of_isBlank hb
  rw [hc.value? hn] at hv
  cases hv

theorem Spells.not_blank (h : Spells cs b) : ∀ x ∈ codes cs, Bytes.isBlank x = false := by
  intro x hx
  obtain ⟨c, hc, rfl⟩ := List.mem_map.mp hx
  exact (h.isDigit c hc).not_blank

theorem length_codes (cs : List Char) : (codes cs).length = cs.length := List.length_map _

theorem isText_iff : IsText t ↔ ∃ b, decode t = .ok b := by
  simp only [decode_eq_ok_iff_codes]
  constructor
  · rintro ⟨hl, hd⟩
    let cs := t.map fun x => Char.ofNat x.toNat
    have hcs : ∀ c ∈ cs, IsDigit c := List.forall_mem_map.mpr hd
    obtain ⟨b, hb⟩ := exists_spells (n := t.length / 2) (by rw [List.length_map]; omega) hcs
    refine ⟨b, cs, hb, ?_⟩
    rw [codes, List.map_map]
    refine ((List.map_congr_left fun x _ => ?_).trans (List.map_id _)).symm
    have hx : x.toNat < 0xd800 := Nat.lt_trans x.toNat_lt (by decide)
    simp [toNat_charOfNat hx]
  · rintro ⟨b, cs, hs, rfl⟩
    refine ⟨by rw [length_codes, hs.length]; omega, fun x hx => ?_⟩
    obtain ⟨c, hc, rfl⟩ := List.mem_map.mp hx
    have hlt := hs.ascii c hc
    rw [UInt8.toNat_ofNat', Nat.mod_eq_of_lt (Nat.lt_trans hlt (by decide)), Char.ofNat_toNat]
    exact hs.isDigit c hc

theorem renders_iff : Renders body b ↔ decode (Bytes.trim body) = .ok b := by
  rw [decode_eq_ok_iff_codes]
  constructor
  · rintro ⟨before, cs, after, hb, ha, hs, rfl⟩
    exact ⟨cs, hs, Bytes.trim_append hb hs.not_blank ha⟩
  · rintro ⟨cs, hs, ht⟩
    obtain ⟨before, after, hb, ha, h⟩ := Bytes.exists_trim body
    exact ⟨before, cs, after, hb, ha, hs, ht ▸ h⟩

theorem Renders.length_le (h : Renders body b) : 2 * b.length ≤ body.length := by
  obtain ⟨before, cs, after, -, -, hs, rfl⟩ := h
  simp only [List.length_append, length_codes, hs.length]
  omega

end Hex

/-! ## Bodies -/

namespace ReportSource

open Hex

variable {body b : Bytes} {url : String} {net : Network}

theorem decodeBody_of_length (h : body.length = SnpReport.length) : decodeBody body = body :=
  if_neg (not_not.mpr h)

theorem decodeBody_of_renders (hl : body.length ≠ SnpReport.length) (h : Renders body b) :
    decodeBody body = b := by
  rw [decodeBody, if_pos hl, Hex.decode?, renders_iff.mp h]
  rfl

theorem decodeBody_of_not_isText (hl : body.length ≠ SnpReport.length) (h : ¬ IsText (Bytes.trim body)) :
    decodeBody body = body := by
  cases hd : Hex.decode (Bytes.trim body) with
  | ok b => exact absurd (isText_iff.mpr ⟨b, hd⟩) h
  | error e =>
    rw [decodeBody, if_pos hl, Hex.decode?, hd]
    rfl

theorem decodeBody_of_report (hb : b.length = SnpReport.length) (h : Renders body b) :
    decodeBody body = b := by
  -- two digits for each byte of a report are more than a report has bytes
  refine decodeBody_of_renders (fun hl => ?_) h
  have hle := h.length_le
  rw [hl, hb] at hle
  revert hle
  decide

theorem decodeBody_cases (body : Bytes) : decodeBody body = body ∨ Renders body (decodeBody body) := by
  by_cases hl : body.length = SnpReport.length
  · exact .inl (decodeBody_of_length hl)
  by_cases ht : IsText (Bytes.trim body)
  · obtain ⟨b, hb⟩ := isText_iff.mp ht
    have hr := renders_iff.mpr hb
    rw [decodeBody_of_renders hl hr]
    exact .inr hr
  · exact .inl (decodeBody_of_not_isText hl ht)

theorem fetch_metadata (h : net.next? url = some body) :
    (metadata url).fetch net = (.ok (some (decodeBody body)), net.asked url) := by
  unfold Network.next? Network.body? at h
  simp only [fetch, bind, StateT.bind, Network.get, Network.asked]
  cases hr : net.reply net.requests.length url with
  | none => simp [hr] at h
  | some r =>
    simp only [hr] at h
    split at h
    · rename_i hs
      cases h
      simp only [hs, if_true]
      rfl
    · cases h

/-- A metadata endpoint may serve a report as its bytes or as digits with blanks around
them, and any other body is passed on as it is. A report that is read from a
body has the fields of the bytes that were served. -/
theorem decodeBody_faithful (body : Bytes) :
    (body.length = SnpReport.length → decodeBody body = body) ∧
    (∀ b, b.length = SnpReport.length → Renders body b → decodeBody body = b) ∧
    (body.length ≠ SnpReport.length → ¬ IsText (Bytes.trim body) → decodeBody body = body) ∧
    (∀ url net, Network.next? net url = some body →
      (metadata url).fetch net = (.ok (some (decodeBody body)), net.asked url)) ∧
    ∀ r, SnpReport.parse (decodeBody body) = .ok r →
      ∃ b, (b = body ∨ Renders body b) ∧ SnpReport.WellFormed b ∧ r.Fields b := by
  refine ⟨decodeBody_of_length, fun b => decodeBody_of_report, decodeBody_of_not_isText,
    fun url net => fetch_metadata, fun r h => ?_⟩
  exact ⟨decodeBody body, decodeBody_cases body, SnpReport.parse_eq_ok_iff.mp h⟩

example : decodeBody (Bytes.ofText " 0a0B\r\n") = [0x0a, 0x0b] := by decide

end ReportSource

end AttestedVault
