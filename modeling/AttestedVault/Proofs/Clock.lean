import AttestedVault.Time.Rfc3339

/-!
# Written times

A time in a year of four digits, written with the zone `+00:00`, is read back
by the strict reader. The other reader reads back every time, written with `Z`.
-/

namespace AttestedVault

/-- A year that is written with four digits and no sign. -/
def Timestamp.FourDigitYear (t : Timestamp) : Prop := 0 ≤ t.date.year ∧ t.date.year ≤ 9999

instance (t : Timestamp) : Decidable t.FourDigitYear :=
  inferInstanceAs (Decidable (0 ≤ t.date.year ∧ t.date.year ≤ 9999))

namespace Rfc3339

/-! ## Numbers -/

theorem isDigit_of_isDigit {c : Char} (h : c.isDigit = true) : isDigit c = true := by
  have hc : '0' ≤ c ∧ c ≤ '9' := by
    simpa [Char.isDigit, Char.le_def, UInt32.le_iff_toNat_le] using h
  simp [isDigit, digit?, hc]

theorem isDigit_padded {w n : Nat} : ∀ c ∈ padded w n, isDigit c = true := by
  intro c hc
  simp only [padded, List.mem_append, List.mem_replicate] at hc
  rcases hc with ⟨-, rfl⟩ | hc
  · rfl
  · exact isDigit_of_isDigit (Nat.isDigit_of_mem_toDigits (by decide) (by decide) hc)

theorem length_padded {w n : Nat} (hw : 0 < w) (hn : n < Nat.pow 10 w) :
    (padded w n).length = w := by
  have := (Nat.length_toDigits_le_iff (by decide : 1 < 10) hw).mpr hn
  simp only [padded, List.length_append, List.length_replicate]
  omega

theorem decimal_padded (w n : Nat) : decimal (padded w n) = n := by
  change Nat.ofDigitChars 10 _ 0 = n
  rw [padded, Nat.ofDigitChars_append, Nat.ofDigitChars_replicate_zero, Nat.mul_zero,
    Nat.ofDigitChars_ten_toDigits]

theorem number_run {least most : Nat} {ds rest : List Char} (hd : ∀ c ∈ ds, isDigit c = true)
    (hl : least ≤ ds.length) (hm : ds.length ≤ most)
    (hr : ds.length = most ∨ ∀ c ∈ rest.head?, isDigit c = false) :
    number least most (ds ++ rest) = some (decimal ds, rest) := by
  have ht : ((ds ++ rest).take most).takeWhile isDigit = ds := by
    rw [List.take_append, List.take_of_length_le hm, List.takeWhile_append_of_pos hd]
    rcases hr with he | hr
    · simp [he]
    · cases rest with
      | nil => simp
      | cons c rest =>
        have hc := hr c rfl
        cases most - ds.length with
        | zero => simp
        | succ k => simp [hc]
  rw [number, ht, if_neg (by omega), List.drop_left]

theorem number_padded {w n : Nat} (hw : 0 < w) (hn : n < Nat.pow 10 w) (rest : List Char) :
    number w w (padded w n ++ rest) = some (n, rest) := by
  have hl := length_padded hw hn
  rw [number_run isDigit_padded (by omega) (by omega) (.inl hl), decimal_padded]

theorem fraction_write {nano : Nat} (h : nano < 1000000000) {c : Char} {r : List Char}
    (hc : isDigit c = false) (hp : c ≠ '.') :
    fraction (writeFraction nano ++ c :: r) = some (nano, c :: r) := by
  have hd : ∀ {w n : Nat}, 0 < w → w ≤ 9 → n < 10 ^ w → n * 10 ^ (9 - w) = nano →
      fraction ('.' :: padded w n ++ c :: r) = some (nano, c :: r) := by
    intro w n hw h9 hn hv
    have hl := length_padded hw hn
    have ht : (padded w n ++ c :: r).takeWhile isDigit = padded w n := by
      rw [List.takeWhile_append_of_pos isDigit_padded, List.takeWhile_cons_of_neg (by simp [hc]),
        List.append_nil]
    have hne : padded w n ≠ [] := by
      rw [← List.length_pos_iff, hl]; exact hw
    have hk : (padded w n).take 9 = padded w n := List.take_of_length_le (by omega)
    simp only [List.cons_append, fraction, ht, if_neg hne, hk, hl, decimal_padded, List.drop_left' hl]
    exact congrArg (fun v => some (v, c :: r)) hv
  unfold writeFraction
  split
  · subst nano
    rw [List.nil_append, fraction]
    exact fun _ e => hp (List.cons.inj e).1
  split
  · exact hd (by decide) (by decide) (by omega) (by omega)
  split
  · exact hd (by decide) (by decide) (by omega) (by omega)
  · exact hd (by decide) (by decide) (by omega) (by omega)

/-! ## Times -/

theorem ofLocal?_zero (t : Timestamp) : Timestamp.ofLocal? t.date t.clock 0 = some t := by
  obtain ⟨hd, hc⟩ := t.valid
  have hm : t.clock.minute < 1440 := by
    simp only [Clock.valid, Bool.and_eq_true, decide_eq_true_eq] at hc
    exact hc.1.1
  simp only [Timestamp.ofLocal?, hd, hc]
  rw [if_pos (by decide), if_neg (by omega), if_neg (by omega)]
  simp only [Int.sub_zero, Int.toNat_natCast]
  exact dif_pos t.valid

theorem assemble_zero (t : Timestamp) : assemble t.date.year t.date.month t.date.day
    (t.clock.minute / 60) (t.clock.minute % 60) t.clock.second t.clock.nano 0 = some t := by
  have hm : t.clock.minute < 1440 := by
    have := t.valid.2
    simp only [Clock.valid, Bool.and_eq_true, decide_eq_true_eq] at this
    exact this.1.1
  rw [assemble, if_pos ⟨by omega, by omega⟩, Nat.div_add_mod]
  exact ofLocal?_zero t

theorem two_digits (t : Timestamp) : t.date.month < 100 ∧ t.date.day < 100 ∧
    t.clock.minute / 60 < 100 ∧ t.clock.minute % 60 < 100 ∧ t.clock.second < 100 ∧
    t.clock.nano < 1000000000 := by
  have hv := t.valid
  simp only [Date.valid, Clock.valid, Bool.and_eq_true, decide_eq_true_eq] at hv
  obtain ⟨⟨⟨⟨⟨⟨-, -⟩, -⟩, hm⟩, -⟩, hd⟩, ⟨hmin, hs⟩, hn⟩ := hv
  have : daysInMonth t.date.year t.date.month ≤ 31 := by
    unfold daysInMonth
    split <;> (try split) <;> omega
  omega

theorem ofTextStrict?_toTextNumeric {t : Timestamp} (h : t.FourDigitYear) :
    ofTextStrict? (toTextNumeric t) = some t := by
  obtain ⟨hmonth, hday, hhour, hminute, hsecond, hn⟩ := two_digits t
  have hy : ((t.date.year.toNat : Nat) : Int) = t.date.year := Int.toNat_of_nonneg h.1
  have hz : zone (sign ':') ['+', '0', '0', ':', '0', '0'] = some (0, []) := by decide
  have hw : writeYear t.date.year = padded 4 t.date.year.toNat := if_pos h
  have hf := fraction_write hn (c := '+') (r := ['0', '0', ':', '0', '0']) (by decide) (by decide)
  simp only [ofTextStrict?, run, toTextNumeric, write, String.toList_ofList, hw, List.append_assoc,
    List.cons_append, strict, bind, StateT.bind, Option.bind,
    number_padded (w := 4) (by decide) (show t.date.year.toNat < 10 ^ 4 by have := h.2; omega),
    number_padded (w := 2) (by decide) hmonth, number_padded (w := 2) (by decide) hday,
    number_padded (w := 2) (by decide) hhour, number_padded (w := 2) (by decide) hminute,
    number_padded (w := 2) (by decide) hsecond,
    sign, separator, if_true, hf, hz, StateT.lift, hy, assemble_zero]
  rfl

theorem writeYear_signed {y : Int} (h : ¬ (0 ≤ y ∧ y ≤ 9999)) :
    ∃ c s, writeYear y = c :: s ∧ isDigit c = false := by
  unfold writeYear
  rw [if_neg h]
  split
  · exact ⟨'-', _, rfl, by decide⟩
  · exact ⟨'+', _, rfl, by decide⟩

theorem strict_of_signed {c : Char} {s : List Char} (h : isDigit c = false) : strict (c :: s) = none := by
  -- a sign stands where the strict reader looks for the first of four digits
  have hn : number 4 4 (c :: s) = none := by
    unfold number
    rw [List.take_succ_cons, List.takeWhile_cons_of_neg (by simp [h])]
    rfl
  simp only [strict, bind, StateT.bind, hn, Option.bind]

theorem ofTextStrict?_toTextNumeric_none {t : Timestamp} (h : ¬ t.FourDigitYear) :
    ofTextStrict? (toTextNumeric t) = none := by
  obtain ⟨c, s, hw, hc⟩ := writeYear_signed h
  simp only [ofTextStrict?, run, toTextNumeric, write, String.toList_ofList, hw, List.cons_append,
    strict_of_signed hc]

/-! ## Blanks and years of any length -/

theorem head_padded {w n : Nat} (hw : 0 < w) (hn : n < Nat.pow 10 w) :
    ∃ c cs, padded w n = c :: cs ∧ isDigit c = true := by
  cases hp : padded w n with
  | nil =>
    have := length_padded hw hn
    rw [hp] at this
    simp at this
    omega
  | cons c cs => exact ⟨c, cs, rfl, isDigit_padded c (hp ▸ List.mem_cons_self)⟩

theorem isBlank_of_isDigit {c : Char} (h : isDigit c = true) : Text.isBlank c = false := by
  simp only [isDigit, digit?, Option.isSome_ite, Char.le_def, UInt32.le_iff_toNat_le] at h
  have h' : 48 ≤ c.toNat ∧ c.toNat ≤ 57 := h
  simp only [Text.isBlank, Bool.or_eq_false_iff, Bool.and_eq_false_iff, decide_eq_false_iff_not, beq_eq_false_iff_ne]
  omega

theorem skipBlanks_of_not {c : Char} (rest : List Char) (h : Text.isBlank c = false) :
    skipBlanks (c :: rest) = some ((), c :: rest) := by
  change some ((), (c :: rest).dropWhile Text.isBlank) = _
  rw [List.dropWhile_cons_of_neg (by simp [h])]

theorem short_padded {n : Nat} (hn : n < Nat.pow 10 2) (rest : List Char) :
    short (padded 2 n ++ rest) = some (n, rest) := by
  obtain ⟨c, cs, hc, hd⟩ := head_padded (by decide) hn
  have hl := length_padded (by decide) hn
  have hs : skipBlanks (padded 2 n ++ rest) = some ((), padded 2 n ++ rest) := by
    rw [hc, List.cons_append]
    exact skipBlanks_of_not _ (isBlank_of_isDigit hd)
  simp only [short, bind, StateT.bind, hs, Option.bind]
  rw [number_run isDigit_padded (by omega) (by omega) (.inl hl), decimal_padded]

theorem longNumber_padded (w n : Nat) {c : Char} (rest : List Char) (hc : isDigit c = false) :
    longNumber (padded w n ++ c :: rest) = some (n, c :: rest) := by
  have hne : 1 ≤ (padded w n).length := by
    have : (Nat.toDigits 10 n).length ≠ 0 := by simp [Nat.toDigits_ne_nil]
    simp only [padded, List.length_append]
    omega
  rw [longNumber, number_run isDigit_padded hne (by simp) (.inr (by simp [hc])), decimal_padded]

theorem signedYear_writeYear (y : Int) {c : Char} (rest : List Char) (hc : isDigit c = false) :
    signedYear (writeYear y ++ c :: rest) = some (y, c :: rest) := by
  unfold writeYear
  split
  · have hn : y.toNat < Nat.pow 10 4 := by
      have : Nat.pow 10 4 = 10000 := rfl
      omega
    obtain ⟨d, ds, hp, hd⟩ := head_padded (by decide) hn
    have hl := length_padded (by decide) hn
    have hnum : number 1 4 (padded 4 y.toNat ++ c :: rest) = some (y.toNat, c :: rest) := by
      rw [number_run isDigit_padded (by omega) (by omega) (.inl hl), decimal_padded]
    have hy : ((y.toNat : Nat) : Int) = y := by omega
    have hsign : ∀ e, isDigit e = false → d ≠ e := by
      rintro e he rfl
      rw [hd] at he
      cases he
    rw [hp, List.cons_append] at hnum ⊢
    rw [signedYear, hnum]
    · simp only [Option.map_some, hy]
    · rintro r ⟨⟩
      exact hsign '-' (by decide) rfl
    · rintro r ⟨⟩
      exact hsign '+' (by decide) rfl
  split
  · have hy : -(y.natAbs : Int) = y := by omega
    simp only [List.cons_append, signedYear, longNumber_padded 4 _ rest hc, Option.map_some, hy]
  · have hy : (y.natAbs : Int) = y := by omega
    simp only [List.cons_append, signedYear, longNumber_padded 4 _ rest hc, Option.map_some, hy]

theorem head_writeYear (y : Int) : ∃ c cs, writeYear y = c :: cs ∧ Text.isBlank c = false := by
  by_cases hy : 0 ≤ y ∧ y ≤ 9999
  · have hn : y.toNat < Nat.pow 10 4 := by
      have : Nat.pow 10 4 = 10000 := rfl
      omega
    obtain ⟨c, cs, hp, hd⟩ := head_padded (by decide) hn
    exact ⟨c, cs, by rw [writeYear, if_pos hy, hp], isBlank_of_isDigit hd⟩
  · unfold writeYear
    rw [if_neg hy]
    split
    · exact ⟨'-', _, rfl, by decide⟩
    · exact ⟨'+', _, rfl, by decide⟩

theorem ofText?_toText (t : Timestamp) : ofText? (toText t) = some t := by
  obtain ⟨hmonth, hday, hhour, hminute, hsecond, hn⟩ := two_digits t
  have hz : looseZone ['Z'] = some (0, []) := by decide
  have hf := fraction_write hn (c := 'Z') (r := []) (by decide) (by decide)
  have hyear : ∀ rest, skipBlanks (writeYear t.date.year ++ rest) = some ((), writeYear t.date.year ++ rest) := by
    intro rest
    obtain ⟨c, cs, hw, hc⟩ := head_writeYear t.date.year
    rw [hw, List.cons_append, skipBlanks_of_not _ hc]
  have he : skipBlanks [] = some ((), []) := rfl
  simp only [ofText?, run, toText, write, String.toList_ofList, List.append_assoc,
    List.cons_append, relaxed, bind, StateT.bind, Option.bind, hyear,
    signedYear_writeYear t.date.year (c := '-') _ (by decide),
    skipBlanks_of_not (c := '-') _ (by decide), skipBlanks_of_not (c := ':') _ (by decide),
    skipBlanks_of_not (c := 'Z') _ (by decide), he,
    short_padded hmonth, short_padded hday, short_padded hhour, short_padded hminute, short_padded hsecond,
    sign, separator, if_true, hf, hz, StateT.lift, assemble_zero]
  rfl

end Rfc3339

end AttestedVault
