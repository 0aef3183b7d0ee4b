import Mathlib.Data.List.Forall2
import AttestedVault.Json.Text

/-!
# Written JSON

Texts, flags and objects of them are read back as they were written, whatever
stands behind them.
-/

namespace AttestedVault.Json

/-! ## Texts -/

theorem hexValue?_hexDigit : ∀ n < 16, hexValue? (hexDigit n) = some n := by decide

theorem units_escaped {e c : Char} (h : escaped? e = some c) (rest : List Char) :
    units ('\\' :: e :: rest) = (units rest).map fun p => (c.toNat :: p.1, p.2) := by
  rw [units]
  · rw [h]
    cases units rest <;> rfl
  · rintro a b d f r rfl
    cases h

theorem units_writeChar (c : Char) (rest : List Char) :
    units (writeChar c ++ rest) = (units rest).map fun p => (c.toNat :: p.1, p.2) := by
  unfold writeChar
  -- the characters that a letter stands for
  iterate 7
    split
    · subst c
      exact units_escaped rfl rest
  split
  · -- a control character, by its two lower digits
    have h₀ : hexValue? '0' = some 0 := rfl
    have h₁ := hexValue?_hexDigit (c.toNat / 16) (by omega)
    have h₂ := hexValue?_hexDigit (c.toNat % 16) (by omega)
    have hc : 4096 * 0 + 256 * 0 + 16 * (c.toNat / 16) + c.toNat % 16 = c.toNat := by omega
    simp only [List.cons_append, List.nil_append, units, h₀, h₁, h₂, bind, Option.bind, hc]
    cases units rest <;> rfl
  · rename_i hq hb _ _ _ _ _ hl
    rw [List.singleton_append, units]
    · rw [if_neg (by simp [hb, hl])]
      cases units rest <;> rfl
    · exact hq
    · rintro a b d f r rfl
      exact absurd rfl hb
    · rintro d r rfl
      exact absurd rfl hb

theorem units_flatMap (cs rest : List Char) :
    units (cs.flatMap writeChar ++ '"' :: rest) = some (cs.map (·.toNat), rest) := by
  induction cs with
  | nil => rfl
  | cons c cs ih => rw [List.flatMap_cons, List.append_assoc, units_writeChar, ih]; rfl

theorem not_surrogate (c : Char) : isHigh c.toNat = false ∧ isLow c.toNat = false := by
  have h : c.toNat < 0xd800 ∨ (0xdfff < c.toNat ∧ c.toNat < 0x110000) := c.valid
  simp only [isHigh, isLow, Bool.and_eq_false_iff, decide_eq_false_iff_not]
  omega

theorem characters?_toNat : ∀ cs : List Char, characters? (cs.map (·.toNat)) = some cs
  | [] => rfl
  | [c] => by
    obtain ⟨hh, hl⟩ := not_surrogate c
    simp [characters?, hh, hl]
  | c :: d :: cs => by
    obtain ⟨hh, hl⟩ := not_surrogate c
    have ih := characters?_toNat (d :: cs)
    rw [List.map_cons] at ih
    simp [characters?, hh, hl, ih]

theorem readString_written (s : String) (rest : List Char) :
    readString (s.toList.flatMap writeChar ++ '"' :: rest) = some (some s, rest) := by
  rw [readString, units_flatMap]
  simp [characters?_toNat]

/-! ## Values -/

/-- A value is read from these characters, whatever stands behind them. -/
def Writes (v : List Char) (j : Json) : Prop :=
  ∀ fuel rest, readValue (fuel + 1) (v ++ rest) = some (j, rest)

theorem writes_text (s : String) : Writes (writeText s) (.text (some s)) := by
  intro fuel rest
  have hs := readString_written s rest
  simp [writeText, readValue, skip, isBlank, hs]

theorem skip_of_not {c : Char} (rest : List Char) (h : isBlank c = false) : skip (c :: rest) = c :: rest :=
  List.dropWhile_cons_of_neg (by simp [h])

theorem writes_flag (b : Bool) : Writes (if b then "true" else "false").toList (.bool b) := by
  intro fuel rest
  cases b with
  | true =>
    have h : (if true then "true" else "false").toList ++ rest = 't' :: 'r' :: 'u' :: 'e' :: rest := rfl
    rw [readValue, h, skip_of_not _ rfl]
    rfl
  | false =>
    have h : (if false then "true" else "false").toList ++ rest = 'f' :: 'a' :: 'l' :: 's' :: 'e' :: rest := rfl
    rw [readValue, h, skip_of_not _ rfl]
    rfl

/-! ## Objects -/

theorem readFields_last {name : String} {v : List Char} {j : Json} (h : Writes v j) (fuel : Nat) (rest : List Char) :
    readFields (fuel + 2) (writeText name ++ ':' :: (v ++ '\x7d' :: rest)) = some ([(some name, j)], rest) := by
  have hname := readString_written name (':' :: (v ++ '\x7d' :: rest))
  have hvalue := h fuel ('\x7d' :: rest)
  rw [readFields, writeText, List.cons_append, skip_of_not _ rfl, List.append_assoc, List.singleton_append]
  simp only [hname, skip_of_not (c := ':') _ rfl, hvalue, skip_of_not (c := '\x7d') _ rfl, Option.bind_eq_bind,
    Option.bind_some]

theorem readFields_next {name : String} {v : List Char} {j : Json} (h : Writes v j) {fuel : Nat}
    {s rest : List Char} {fs : List (Option String × Json)} (hs : readFields (fuel + 1) s = some (fs, rest)) :
    readFields (fuel + 2) (writeText name ++ ':' :: (v ++ ',' :: s)) = some ((some name, j) :: fs, rest) := by
  have hname := readString_written name (':' :: (v ++ ',' :: s))
  have hvalue := h fuel (',' :: s)
  rw [readFields, writeText, List.cons_append, skip_of_not _ rfl, List.append_assoc, List.singleton_append]
  simp only [hname, skip_of_not (c := ':') _ rfl, hvalue, skip_of_not (c := ',') _ rfl, hs, Option.bind_eq_bind,
    Option.bind_some]

def WritesAll (fs : List (String × List Char)) (js : List (String × Json)) : Prop :=
  List.Forall₂ (fun f j => f.1 = j.1 ∧ Writes f.2 j.2) fs js

def named (js : List (String × Json)) : List (Option String × Json) := js.map fun j => (some j.1, j.2)

theorem readFields_writeFields {f : String × List Char} {fs : List (String × List Char)}
    {js : List (String × Json)} (h : WritesAll (f :: fs) js) (fuel : Nat) (rest : List Char) :
    readFields (fuel + fs.length + 2) (writeFields (f :: fs) ++ '\x7d' :: rest) = some (named js, rest) := by
  induction fs generalizing f js with
  | nil =>
    obtain _ | ⟨⟨hn, hv⟩, ⟨⟩⟩ := h
    rw [writeFields, List.append_assoc, List.cons_append, hn]
    exact readFields_last hv fuel rest
  | cons g fs ih =>
    obtain _ | ⟨⟨hn, hv⟩, hs⟩ := h
    rw [writeFields, List.append_assoc, List.cons_append, List.append_assoc, List.cons_append, hn]
    exact readFields_next hv (ih hs)

theorem length_le_writeFields (fs : List (String × List Char)) : fs.length ≤ (writeFields fs).length := by
  match fs with
  | [] => exact Nat.le_refl _
  | [f] =>
    simp only [writeFields, List.length_append, List.length_cons, List.length_nil]
    omega
  | f :: g :: fs =>
    have ih := length_le_writeFields (g :: fs)
    simp only [writeFields, List.length_append, List.length_cons] at ih ⊢
    omega

theorem writeFields_cons (f : String × List Char) (fs : List (String × List Char)) :
    ∃ cs, writeFields (f :: fs) = '"' :: cs := by
  cases fs with
  | nil => exact ⟨_, rfl⟩
  | cons g fs => exact ⟨_, rfl⟩

theorem readValue_object {fs : List (String × List Char)} {js : List (String × Json)} (h : WritesAll fs js)
    {fuel : Nat} (hf : fs.length + 1 ≤ fuel) (rest : List Char) :
    readValue (fuel + 1) ('\x7b' :: (writeFields fs ++ '\x7d' :: rest)) = some (.object (named js), rest) := by
  rw [readValue, skip_of_not _ rfl]
  cases fs with
  | nil =>
    cases h
    simp only [writeFields, List.nil_append, skip_of_not rest (c := '\x7d') rfl]
    rfl
  | cons f fs =>
    obtain ⟨n, rfl⟩ : ∃ n, fuel = n + fs.length + 2 := ⟨_, (Nat.sub_add_cancel hf).symm⟩
    have hr := readFields_writeFields h n rest
    obtain ⟨cs, hcs⟩ := writeFields_cons f fs
    rw [hcs, List.cons_append] at hr ⊢
    simp only [skip_of_not (cs ++ '\x7d' :: rest) (c := '"') rfl]
    exact congrArg (Option.map _) hr

theorem parse?_writeObject {fs : List (String × List Char)} {js : List (String × Json)}
    (h : WritesAll fs js) : parse? (writeObject fs) = some (.object (named js)) := by
  have hl := length_le_writeFields fs
  have hf : fs.length + 1 ≤ 2 * ('\x7b' :: (writeFields fs ++ ['\x7d'])).length + 1 := by
    simp only [List.length_cons, List.length_append]
    omega
  have hr := readValue_object h hf []
  simp only [parse?, writeObject, String.toList_ofList, hr]
  rfl

/-! ## Records -/

theorem filter_named {js : List (String × Json)} (h : (js.map Prod.fst).Nodup) {j : String × Json} (hj : j ∈ js) :
    (named js).filter (fun f => f.1 = some j.1) = [(some j.1, j.2)] := by
  induction js with
  | nil => cases hj
  | cons i js ih =>
    obtain ⟨hi, h⟩ := List.nodup_cons.mp h
    rw [named, List.map_cons, List.filter_cons]
    cases hj with
    | head =>
      rw [if_pos (by simp), List.filter_eq_nil_iff.mpr]
      intro f hf
      obtain ⟨k, hk, rfl⟩ := List.mem_map.mp hf
      have hne : k.1 ≠ j.1 := fun e => hi (e ▸ List.mem_map_of_mem hk)
      simp [hne]
    | tail _ hj =>
      have hne : i.1 ≠ j.1 := fun e => hi (e ▸ List.mem_map_of_mem hj)
      rw [if_neg (by simp [hne])]
      exact ih h hj

theorem mapM_lookup {fields : List (Option String × Json)} {js : List (String × Json)}
    (h : ∀ j ∈ js, lookup fields j.1 = some (some j.2)) :
    (js.map Prod.fst).mapM (lookup fields) = some (js.map fun j => some j.2) := by
  induction js with
  | nil => rfl
  | cons j js ih =>
    obtain ⟨hj, hjs⟩ := List.forall_mem_cons.mp h
    rw [List.map_cons, List.mapM_cons, hj, ih hjs]
    rfl

theorem record?_named {js : List (String × Json)} (h : (js.map Prod.fst).Nodup) :
    record? (js.map Prod.fst) (.object (named js)) = some (js.map fun j => some j.2) := by
  have hn : (named js).all (fun f => f.1.isSome) = true := by simp [named]
  have hl : ∀ j ∈ js, lookup (named js) j.1 = some (some j.2) := by
    intro j hj
    rw [lookup, filter_named h hj]
  rw [record?, if_pos hn, mapM_lookup hl]

end AttestedVault.Json
