import AttestedVault.Key.Version
import AttestedVault.Proofs.Clock
import Mathlib.Logic.Function.Iterate

/-!
# Numbered labels

A number that is written in a label is read back, so that each rotation counts
up by one as long as 64 bits suffice. The largest number is the only one that
stays, and labels of any other form are followed by the second one.
-/

namespace AttestedVault

namespace Text

theorem isDigit_of_isDigit {c : Char} (h : c.isDigit = true) : isDigit c = true := by
  have hc := Rfc3339.isDigit_of_isDigit h
  unfold Rfc3339.isDigit Rfc3339.digit? at hc
  split at hc
  · simpa [isDigit] using ‹_›
  · cases hc

theorem ofDigits_toDigits (n : Nat) : ofDigits (Nat.toDigits 10 n) = n :=
  Nat.ofDigitChars_ten_toDigits

/-- Decimal digits of this number, with any count of zeros before them. -/
structure Numeral (ds : List Char) (n : Nat) : Prop where
  ne_nil : ds ≠ []
  digits : ∀ c ∈ ds, isDigit c = true
  value : ofDigits ds = n

theorem numeral_toDigits (n : Nat) : Numeral (Nat.toDigits 10 n) n where
  ne_nil := Nat.toDigits_ne_nil
  digits _ hc := isDigit_of_isDigit (Nat.isDigit_of_mem_toDigits (by decide) (by decide) hc)
  value := ofDigits_toDigits n

variable {cs ds : List Char} {n : Nat}

theorem not_numeral_plus : ¬ Numeral ('+' :: ds) n := by
  intro h
  have := h.digits '+' List.mem_cons_self
  revert this
  decide

theorem digits64?_eq_some_iff : digits64? ds = some n ↔ Numeral ds n ∧ n ≤ 0xffffffffffffffff := by
  unfold digits64?
  constructor
  · intro h
    split at h
    · rename_i hd
      cases h
      exact ⟨⟨hd.1, List.all_eq_true.mp hd.2.1, rfl⟩, hd.2.2⟩
    · cases h
  · rintro ⟨⟨hne, hd, rfl⟩, hn⟩
    exact if_pos ⟨hne, List.all_eq_true.mpr hd, hn⟩

theorem decimal64?_eq_some_iff : decimal64? cs = some n ↔
    (Numeral cs n ∨ ∃ ds, cs = '+' :: ds ∧ Numeral ds n) ∧ n ≤ 0xffffffffffffffff := by
  fun_cases decimal64? cs with
  | case1 ds =>
    rw [digits64?_eq_some_iff, or_iff_right not_numeral_plus]
    simp
  | case2 _ hp =>
    rw [digits64?_eq_some_iff, or_iff_left fun ⟨ds, hds, _⟩ => hp ds hds]

end Text

namespace KeyVersion

/-- The label is a `v` with digits of this number. -/
def Numbered (label : String) (n : Nat) : Prop := ∃ ds, label.toList = 'v' :: ds ∧ Text.Numeral ds n

/-- The label would be numbered if it had no plus sign before the digits. -/
def Signed (label : String) (n : Nat) : Prop :=
  ∃ ds, label.toList = 'v' :: '+' :: ds ∧ Text.Numeral ds n

theorem numbered_label (n : Nat) : Numbered ("v" ++ toString n) n := by
  refine ⟨Nat.toDigits 10 n, ?_, Text.numeral_toDigits n⟩
  rw [String.toList_append, Nat.toString_eq_repr, Nat.toList_repr]
  rfl

variable {label : String} {n m : Nat}

theorem Numbered.unique (h : Numbered label n) (h' : Numbered label m) : n = m := by
  obtain ⟨ds, hds, hn⟩ := h
  obtain ⟨ds', hds', hm⟩ := h'
  obtain ⟨-, rfl⟩ := List.cons.inj (hds.symm.trans hds')
  exact hn.value.symm.trans hm.value

theorem Numbered.not_signed (h : Numbered label n) : ¬ Signed label m := by
  rintro ⟨ds', hds', -⟩
  obtain ⟨ds, hds, hn⟩ := h
  obtain ⟨-, rfl⟩ := List.cons.inj (hds.symm.trans hds')
  exact Text.not_numeral_plus hn

theorem label_injective : Function.Injective fun n : Nat => "v" ++ toString n := by
  intro n m h
  have hm := numbered_label m
  rw [← show "v" ++ toString n = "v" ++ toString m from h] at hm
  exact (numbered_label n).unique hm

theorem number?_eq_some_iff : number? label = some n ↔
    (Numbered label n ∨ Signed label n) ∧ n ≤ 0xffffffffffffffff := by
  unfold number? Numbered Signed
  split
  · rename_i rest hl
    rw [Text.decimal64?_eq_some_iff, hl]
    simp [and_comm]
  · rename_i hv
    constructor
    · nofun
    · rintro ⟨⟨ds, hds, -⟩ | ⟨ds, hds, -⟩, -⟩
      · exact absurd hds (hv _)
      · exact absurd hds (hv _)

theorem number?_label (h : n ≤ 0xffffffffffffffff) : number? ("v" ++ toString n) = some n :=
  number?_eq_some_iff.mpr ⟨.inl (numbered_label n), h⟩

/-! ## The next label -/

theorem next_of_some (h : number? label = some n) :
    next label = "v" ++ toString (min (n + 1) 0xffffffffffffffff) := by
  rw [next, h, Option.getD_some]

theorem next_of_none (h : number? label = none) : next label = "v2" := by
  rw [next, h]
  rfl

theorem next_of_numbered (h : Numbered label n) (hn : n < 0xffffffffffffffff) :
    next label = "v" ++ toString (n + 1) := by
  rw [next_of_some (number?_eq_some_iff.mpr ⟨.inl h, Nat.le_of_lt hn⟩), Nat.min_eq_left hn]

theorem next_of_largest (h : Numbered label 0xffffffffffffffff) :
    next label = "v18446744073709551615" := by
  rw [next_of_some (number?_eq_some_iff.mpr ⟨.inl h, Nat.le_refl _⟩)]
  rfl

theorem next_of_not_number (hn : ∀ n ≤ 0xffffffffffffffff, ¬ Numbered label n)
    (hs : ∀ n ≤ 0xffffffffffffffff, ¬ Signed label n) : next label = "v2" := by
  refine next_of_none ?_
  rw [Option.eq_none_iff_forall_ne_some]
  intro n h
  obtain ⟨h | h, hle⟩ := number?_eq_some_iff.mp h
  · exact hn n hle h
  · exact hs n hle h

theorem next_eq_self_iff : next label = label ↔ label = "v18446744073709551615" := by
  constructor
  · intro h
    -- what follows is written without zeros in front, and so is a label that follows itself
    obtain ⟨m, hm, hl⟩ : ∃ m ≤ 0xffffffffffffffff, label = "v" ++ toString m :=
      ⟨_, Nat.min_le_right _ _, h.symm⟩
    have hs := next_of_some (number?_label hm)
    rw [← hl, h, hl] at hs
    have hstay := label_injective hs
    rw [hl, show m = 0xffffffffffffffff by omega]
    rfl
  · rintro rfl
    exact next_of_largest (numbered_label 0xffffffffffffffff)

/-- The labels along a row of rotations. -/
theorem iterate_next (k : Nat) : next^[k] first = "v" ++ toString (min (k + 1) 0xffffffffffffffff) := by
  induction k with
  | zero => rfl
  | succ k ih =>
    rw [Function.iterate_succ_apply', ih, next_of_some (number?_label (Nat.min_le_right _ _))]
    congr 2
    omega

/-- A numbered label is followed by the next number as long as it has 64 bits, and the
largest one by itself. All other labels are followed by the second one; where
a plus sign stands before the digits this is left open. -/
theorem next_advances (label : String) :
    (∀ n, Numbered label n →
      (n < 0xffffffffffffffff → next label = "v" ++ toString (n + 1) ∧ Numbered (next label) (n + 1)) ∧
      (n = 0xffffffffffffffff → next label = "v" ++ toString n) ∧
      (0xffffffffffffffff < n → next label = "v2")) ∧
    ((∀ n, ¬ Numbered label n) → (∀ n ≤ 0xffffffffffffffff, ¬ Signed label n) → next label = "v2") ∧
    (next label = label ↔ label = "v18446744073709551615") := by
  refine ⟨fun n h => ⟨fun hn => ?_, ?_, fun hn => ?_⟩, fun hn hs => ?_, next_eq_self_iff⟩
  · rw [next_of_numbered h hn]
    exact ⟨rfl, numbered_label (n + 1)⟩
  · rintro rfl
    exact next_of_largest h
  · refine next_of_not_number (fun m hm h' => ?_) fun m _ => h.not_signed
    have := h.unique h'
    omega
  · exact next_of_not_number (fun n _ => hn n) hs

/-- The largest number is followed by itself, and not by the one after it. -/
theorem next_stalls : Numbered "v18446744073709551615" 18446744073709551615 ∧
    next "v18446744073709551615" = "v18446744073709551615" ∧
    next "v18446744073709551615" ≠ "v" ++ toString (18446744073709551615 + 1) := by
  have hself := next_eq_self_iff.mpr rfl
  refine ⟨numbered_label 18446744073709551615, hself, ?_⟩
  rw [hself]
  decide +kernel

end KeyVersion

end AttestedVault
