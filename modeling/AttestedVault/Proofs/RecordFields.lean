import AttestedVault.Proofs.Opening
import AttestedVault.Proofs.Spelling

/-!
# Fields of a record

The binary fields of a record have one text for each byte string: what is read
from a field is written as that field again. The master key's id may be in either
case, and ids are the same as their texts are but for the case.
-/

namespace AttestedVault

/-! ## Base64 -/

namespace Base64

theorem symbol_of_value? : ∀ n < 256, ∀ v ∈ value? (UInt8.ofNat n), v < 64 ∧ symbol v = UInt8.ofNat n := by
  decide +kernel

theorem values_ok {cs : Bytes} {vs : List Nat} {i : Nat} (h : values i cs = .ok vs) :
    cs = vs.map symbol ∧ ∀ v ∈ vs, v < 64 := by
  induction cs generalizing vs i with
  | nil =>
    cases h
    exact ⟨rfl, nofun⟩
  | cons c cs ih =>
    cases hc : value? c with
    | none => simp only [values, hc] at h; cases h
    | some v =>
      cases hr : values (i + 1) cs with
      | error e => simp only [values, hc, hr] at h; cases h
      | ok ws =>
        simp only [values, hc, hr, Except.ok.injEq] at h
        subst h
        obtain ⟨rfl, hlt⟩ := ih hr
        obtain ⟨hv, hs⟩ := symbol_of_value? c.toNat c.toNat_lt v (by rw [UInt8.ofNat_toNat]; exact hc)
        rw [UInt8.ofNat_toNat] at hs
        rw [List.map_cons, hs]
        exact ⟨rfl, List.forall_mem_cons.mpr ⟨hv, hlt⟩⟩

theorem symbols_two {u v : Nat} (h : ∀ n ∈ [u, v], n < 64) (hz : v % 16 = 0) :
    symbols [UInt8.ofNat (4 * u + v / 16)] = [u, v].map symbol ++ List.replicate 2 pad := by
  simp only [List.mem_cons, List.not_mem_nil, or_false, forall_eq_or_imp, forall_eq] at h
  obtain ⟨hu, hv⟩ := h
  simp only [symbols, UInt8.toNat_ofNat']
  rw [show (4 * u + v / 16) % 2 ^ 8 / 4 = u by omega, show 16 * ((4 * u + v / 16) % 2 ^ 8) % 64 = v by omega]
  rfl

theorem symbols_three {u v w : Nat} (h : ∀ n ∈ [u, v, w], n < 64) (hz : w % 4 = 0) :
    symbols [UInt8.ofNat (4 * u + v / 16), UInt8.ofNat (16 * v + w / 4)] =
      [u, v, w].map symbol ++ List.replicate 1 pad := by
  simp only [List.mem_cons, List.not_mem_nil, or_false, forall_eq_or_imp, forall_eq] at h
  obtain ⟨hu, hv, hw⟩ := h
  let n := 1024 * ((4 * u + v / 16) % 2 ^ 8) + 4 * ((16 * v + w / 4) % 2 ^ 8)
  simp only [symbols, UInt8.toNat_ofNat']
  change [symbol (n / 4096), symbol (n / 64 % 64), symbol (n % 64), pad] = [symbol u, symbol v, symbol w, pad]
  rw [show n / 4096 = u by omega, show n / 64 % 64 = v by omega, show n % 64 = w by omega]

theorem symbols_four {u v w x : Nat} (h : ∀ n ∈ [u, v, w, x], n < 64) (rest : Bytes) :
    symbols (UInt8.ofNat (4 * u + v / 16) :: UInt8.ofNat (16 * v + w / 4) :: UInt8.ofNat (64 * w + x) :: rest) =
      [u, v, w, x].map symbol ++ symbols rest := by
  simp only [List.mem_cons, List.not_mem_nil, or_false, forall_eq_or_imp, forall_eq] at h
  obtain ⟨hu, hv, hw, hx⟩ := h
  let n := 65536 * ((4 * u + v / 16) % 2 ^ 8) + 256 * ((16 * v + w / 4) % 2 ^ 8) + (64 * w + x) % 2 ^ 8
  simp only [symbols, UInt8.toNat_ofNat']
  change symbol (n / 262144) :: symbol (n / 4096 % 64) :: symbol (n / 64 % 64) :: symbol (n % 64) :: symbols rest = _
  rw [show n / 262144 = u by omega, show n / 4096 % 64 = v by omega, show n / 64 % 64 = w by omega,
    show n % 64 = x by omega]
  rfl

theorem fill_eq {n : Nat} {fill : Bytes} (h : ¬(fill ≠ [] ∧ (n < 2 ∨ fill.any (· ≠ pad)))) :
    fill = List.replicate fill.length pad ∧ (n < 2 → fill = []) := by
  by_cases hn : fill = []
  · subst hn
    exact ⟨rfl, fun _ => rfl⟩
  · obtain ⟨hlen, hany⟩ := not_or.mp fun hx => h ⟨hn, hx⟩
    refine ⟨List.eq_replicate_iff.mpr ⟨rfl, fun c hc => ?_⟩, fun hl => absurd hl hlen⟩
    exact Decidable.not_not.mp fun hp => hany (List.any_eq_true.mpr ⟨c, hc, decide_eq_true hp⟩)

theorem lastGroup_ok {group b : Bytes} {i : Nat} (hl : group.length ≤ 4) (h : lastGroup i group = .ok b) :
    group = symbols b := by
  have hg : group.takeWhile (· ≠ pad) ++ group.dropWhile (· ≠ pad) = group := List.takeWhile_append_dropWhile
  unfold lastGroup at h
  generalize group.takeWhile (· ≠ pad) = signs at h hg
  generalize group.dropWhile (· ≠ pad) = fill at h hg
  subst hg
  cases hv : values i signs with
  | error e => simp only [hv] at h; cases h
  | ok vs =>
    obtain ⟨rfl, hlt⟩ := values_ok hv
    simp only [hv] at h
    split at h
    · cases h
    · rename_i hfill
      obtain ⟨hpad, hnil⟩ := fill_eq hfill
      match vs with
      | [] =>
        cases h
        rw [hnil (by decide)]
        rfl
      | [_] => cases h
      | [u, v] =>
        simp only at h
        split at h
        · cases h
        split at h
        · cases h
        cases h
        rename_i hf hz
        rw [symbols_two hlt (Decidable.not_not.mp hz), hpad, Decidable.not_not.mp hf]
      | [u, v, w] =>
        simp only at h
        split at h
        · cases h
        split at h
        · cases h
        cases h
        rename_i hf hz
        rw [symbols_three hlt (Decidable.not_not.mp hz), hpad, Decidable.not_not.mp hf]
      | u :: v :: w :: x :: vs =>
        cases h
        simp only [List.map_cons, List.length_append, List.length_cons, List.length_map] at hl
        obtain rfl : vs = [] := List.length_eq_zero_iff.mp (by omega)
        obtain rfl : fill = [] := List.length_eq_zero_iff.mp (by omega)
        rw [symbols_four hlt]
        rfl

theorem groups_ok {t b : Bytes} {i : Nat} (h : groups i t = .ok b) : t = symbols b := by
  induction i, t using groups.induct generalizing b with
  | case1 i a b c d e rest err hv => simp only [groups, hv] at h; cases h
  | case2 i a b c d e rest vs hv err hr ih => simp only [groups, hv, hr] at h; cases h
  | case3 i a b c d e rest tail hr u v w x hv ih =>
    simp only [groups, hv, hr, Except.ok.injEq] at h
    subst h
    obtain ⟨hs, hlt⟩ := values_ok hv
    rw [symbols_four hlt, ← ih hr, ← hs]
    rfl
  | case4 i a b c d e rest vs hv tail hr hne ih =>
    -- four symbols have four values
    obtain ⟨hs, -⟩ := values_ok hv
    have hl := congrArg List.length hs
    rw [List.length_map] at hl
    obtain ⟨u, v, w, x, rfl⟩ : ∃ u v w x, vs = [u, v, w, x] := by
      rcases vs with _ | ⟨u, _ | ⟨v, _ | ⟨w, _ | ⟨x, _ | ⟨y, vs⟩⟩⟩⟩⟩
      · cases hl
      · cases hl
      · cases hl
      · cases hl
      · exact ⟨u, v, w, x, rfl⟩
      · cases hl
    exact absurd rfl (hne u v w x)
  | case5 i group hne =>
    rcases group with _ | ⟨a, _ | ⟨b, _ | ⟨c, _ | ⟨d, _ | ⟨e, rest⟩⟩⟩⟩⟩
    · exact lastGroup_ok (by simp) h
    · exact lastGroup_ok (by simp) h
    · exact lastGroup_ok (by simp) h
    · exact lastGroup_ok (by simp) h
    · exact lastGroup_ok (by simp) h
    · exact absurd rfl (hne a b c d e rest)

/-- Only the written form of a byte string is read as this string. -/
theorem decode_eq_ok_iff {s : String} {b : Bytes} : decode (Bytes.ofText s) = .ok b ↔ s = encode b := by
  constructor
  · intro h
    apply Bytes.ofText_injective
    rw [ofText_encode]
    unfold decode at h
    split at h
    · split at h
      · cases h
      · exact groups_ok h
    · rename_i hlast
      cases h
      exact List.getLast?_eq_none_iff.mp hlast
  · rintro rfl
    exact decode_encode b

end Base64

/-! ## Digits in either case -/

namespace Hex

def IsDigit (c : Char) : Prop := c ∈ "0123456789abcdefABCDEF".toList

theorem Denotes.isDigit {c : Char} {n : Nat} (h : Denotes c n) (hn : n < 16) : IsDigit c := by
  have hd : ∀ n < 16, digit n ∈ "0123456789abcdefABCDEF".toList ∧
      (digit n).toUpper ∈ "0123456789abcdefABCDEF".toList := by decide
  rcases h with rfl | rfl
  · exact (hd n hn).1
  · exact (hd n hn).2

theorem IsDigit.denotes {c : Char} (h : IsDigit c) : ∃ n < 16, Denotes c n := by
  have hd : "0123456789abcdefABCDEF".toList.all
      (fun c : Char => (List.range 16).any fun n => decide (Denotes c n)) = true := by decide
  obtain ⟨n, hn, hc⟩ := List.any_eq_true.mp (List.all_eq_true.mp hd c h)
  exact ⟨n, List.mem_range.mp hn, of_decide_eq_true hc⟩

theorem Denotes.toLower {c : Char} {n : Nat} (h : Denotes c n) (hn : n < 16) : c.toLower = digit n := by
  have hd : ∀ n < 16, (digit n).toLower = digit n ∧ (digit n).toUpper.toLower = digit n := by decide
  rcases h with rfl | rfl
  · exact (hd n hn).1
  · exact (hd n hn).2

theorem Spells.isDigit {cs : List Char} {b : Bytes} (h : Spells cs b) : ∀ c ∈ cs, IsDigit c := by
  induction h with
  | nil => exact nofun
  | @cons hi lo x cs b high low _ ih =>
    have hx := x.toNat_lt
    exact List.forall_mem_cons.mpr ⟨high.isDigit (by omega), List.forall_mem_cons.mpr ⟨low.isDigit (by omega), ih⟩⟩

theorem exists_spells : ∀ {n : Nat} {cs : List Char}, cs.length = 2 * n → (∀ c ∈ cs, IsDigit c) → ∃ b, Spells cs b
  | 0, [], _, _ => ⟨[], .nil⟩
  | n + 1, hi :: lo :: cs, hl, h => by
    simp only [List.length_cons] at hl
    obtain ⟨hhi, h⟩ := List.forall_mem_cons.mp h
    obtain ⟨hlo, h⟩ := List.forall_mem_cons.mp h
    obtain ⟨b, hb⟩ := exists_spells (n := n) (by omega) h
    obtain ⟨m, hm, hhi⟩ := hhi.denotes
    obtain ⟨k, hk, hlo⟩ := hlo.denotes
    have hx : (UInt8.ofNat (16 * m + k)).toNat = 16 * m + k := by
      rw [UInt8.toNat_ofNat']
      omega
    refine ⟨UInt8.ofNat (16 * m + k) :: b, .cons ?_ ?_ hb⟩
    · rw [hx, show (16 * m + k) / 16 = m by omega]
      exact hhi
    · rw [hx, show (16 * m + k) % 16 = k by omega]
      exact hlo

theorem Spells.toLower {cs : List Char} {b : Bytes} (h : Spells cs b) : cs.map Char.toLower = digits b := by
  induction h with
  | nil => rfl
  | @cons hi lo x cs b high low _ ih =>
    have hx := x.toNat_lt
    rw [List.map_cons, List.map_cons, ih, high.toLower (by omega), low.toLower (by omega)]
    rfl

theorem Spells.length_ofText {s : String} {b : Bytes} (h : Spells s.toList b) :
    (Bytes.ofText s).length = 2 * b.length := by
  rw [← String.ofList_toList (s := s), ofText_ofList h.ascii, List.length_map, h.length]

theorem Spells.encode_eq {s : String} {b : Bytes} (h : Spells s.toList b) : encode b = s.toLower := by
  have hl : s.toLower = s.map Char.toLower := rfl
  rw [← String.toList_inj, hl, String.toList_map, h.toLower, encode, String.toList_ofList]

end Hex

namespace MasterKeyId

theorem parse_of_decode {s : String} {b : Bytes} (h : Hex.decode (Bytes.ofText s) = .ok b) :
    parse s = if 2 * b.length = 16 then .ok ⟨Octets.ofBytes 8 b⟩ else .error (.length (2 * b.length)) := by
  have hl : (Bytes.ofText s).length = 2 * b.length := (Hex.decode_eq_ok_iff.mp h).length_ofText
  simp only [parse, h, hl]

theorem parse_eq_ok_iff {s : String} {id : MasterKeyId} : parse s = .ok id ↔ Hex.Spells s.toList id.bytes.val := by
  rw [← Hex.decode_eq_ok_iff]
  constructor
  · intro h
    cases hd : Hex.decode (Bytes.ofText s) with
    | error e =>
      by_cases hl : (Bytes.ofText s).length = 16
      · simp only [parse, hd, hl, if_true] at h
        cases h
      · simp only [parse, hl, if_false] at h
        cases h
    | ok b =>
      rw [parse_of_decode hd] at h
      by_cases hl : 2 * b.length = 16
      · rw [if_pos hl, Except.ok.injEq] at h
        have hb : b.length = 8 := by omega
        rw [← h, Octets.val_ofBytes_of_length hb]
      · rw [if_neg hl] at h
        cases h
  · intro h
    rw [parse_of_decode h, id.bytes.property, if_pos rfl, Octets.ofBytes_val]

theorem parse_isOk_iff {s : String} :
    (∃ id, parse s = .ok id) ↔ s.toList.length = 16 ∧ ∀ c ∈ s.toList, Hex.IsDigit c := by
  constructor
  · rintro ⟨id, h⟩
    have hs := parse_eq_ok_iff.mp h
    exact ⟨by rw [hs.length, id.bytes.property], hs.isDigit⟩
  · rintro ⟨hl, hd⟩
    obtain ⟨b, hb⟩ := Hex.exists_spells (n := 8) hl hd
    have hlen : b.length = 8 := by
      have := hb.length
      omega
    exact ⟨⟨⟨b, hlen⟩⟩, parse_eq_ok_iff.mpr hb⟩

theorem toHex_of_parse {s : String} {id : MasterKeyId} (h : parse s = .ok id) : id.toHex = s.toLower :=
  (parse_eq_ok_iff.mp h).encode_eq

theorem parse_inj_iff {s t : String} {i j : MasterKeyId} (hs : parse s = .ok i) (ht : parse t = .ok j) :
    i = j ↔ s.toLower = t.toLower := by
  rw [← toHex_of_parse hs, ← toHex_of_parse ht]
  exact toHex_injective.eq_iff.symm

end MasterKeyId

/-! ## Records -/

/-- The error is about this field of the record. -/
inductive RecordError.Blames (record field : String) : RecordError → Prop
  | encoding (cause : Base64.Error) : Blames record field (.encoding record field cause)
  | length (expected got : Nat) : Blames record field (.length record field expected got)

namespace KeyRecord

variable {r r' : KeyRecord} {field field' text text' : String} {n : Nat} {e : RecordError}

theorem decode_eq_ok_iff {b : Bytes} : r.decode field text = .ok b ↔ text = Base64.encode b := by
  rw [← Base64.decode_eq_ok_iff, decode]
  cases Base64.decode (Bytes.ofText text) with
  | ok c => rw [Except.ok.injEq, Except.ok.injEq]
  | error e => simp only [reduceCtorEq]

theorem decodeFixed_eq_ok_iff {o : Octets n} :
    decodeFixed n r field text = .ok o ↔ text = Base64.encode o.val := by
  constructor
  · intro h
    obtain ⟨b, hb, ho⟩ := bind_eq_ok.mp h
    split at ho
    · cases ho
      rename_i ho
      rw [Octets.ofBytes?_eq_some_iff.mp ho]
      exact decode_eq_ok_iff.mp hb
    · cases ho
  · rintro rfl
    exact decodeFixed_of_encode r field o

theorem wrapped_eq_ok_iff {w : WrappedDek} : r.wrapped = .ok w ↔ r.encryptedDek = Base64.encode w.ciphertext ∧
    r.iv = Base64.encode w.iv.val ∧ r.authTag = Base64.encode w.tag.val := by
  constructor
  · intro h
    obtain ⟨c, hc, h⟩ := bind_eq_ok.mp h
    obtain ⟨i, hi, h⟩ := bind_eq_ok.mp h
    obtain ⟨t, ht, h⟩ := bind_eq_ok.mp h
    cases h
    exact ⟨decode_eq_ok_iff.mp hc, decodeFixed_eq_ok_iff.mp hi, decodeFixed_eq_ok_iff.mp ht⟩
  · rintro ⟨hc, hi, ht⟩
    exact bind_eq_ok.mpr ⟨_, decode_eq_ok_iff.mpr hc, bind_eq_ok.mpr ⟨_, decodeFixed_eq_ok_iff.mpr hi,
      bind_eq_ok.mpr ⟨_, decodeFixed_eq_ok_iff.mpr ht, rfl⟩⟩⟩

/-! ### What is reported -/

theorem decode_error (h : r.decode field text = .error e) :
    e.Blames r.id field ∧ ∀ b, text ≠ Base64.encode b := by
  refine ⟨?_, fun b hb => ?_⟩
  · unfold decode at h
    split at h
    · cases h
    · cases h
      exact .encoding _
  · rw [decode_eq_ok_iff.mpr hb] at h
    cases h

theorem decodeFixed_error (h : decodeFixed n r field text = .error e) :
    e.Blames r.id field ∧ ∀ o : Octets n, text ≠ Base64.encode o.val := by
  refine ⟨?_, fun o ho => ?_⟩
  · obtain h | ⟨b, -, h⟩ := bind_eq_error.mp h
    · exact (decode_error h).1
    · split at h
      · cases h
      · cases h
        exact .length _ _
  · rw [decodeFixed_eq_ok_iff.mpr ho] at h
    cases h

theorem wrapped_error (h : r.wrapped = .error e) :
    (e.Blames r.id "encryptedDek" ∧ ∀ b, r.encryptedDek ≠ Base64.encode b) ∨
    (e.Blames r.id "iv" ∧ ∀ iv : Octets 12, r.iv ≠ Base64.encode iv.val) ∨
    (e.Blames r.id "authTag" ∧ ∀ tag : Octets 16, r.authTag ≠ Base64.encode tag.val) := by
  obtain h | ⟨c, -, h⟩ := bind_eq_error.mp h
  · exact .inl (decode_error h)
  obtain h | ⟨i, -, h⟩ := bind_eq_error.mp h
  · exact .inr (.inl (decodeFixed_error h))
  obtain h | ⟨t, -, h⟩ := bind_eq_error.mp h
  · exact .inr (.inr (decodeFixed_error h))
  · cases h

theorem unwrap_of_wrapped_error (h : r.wrapped = .error e) (key : MasterKey) :
    r.unwrap key = .error (.invalidRecord e) := by
  rw [unwrap, h]
  rfl

/-! ### Ids -/

theorem keyId_eq_ok_iff {id : MasterKeyId} : r.keyId = .ok id ↔ MasterKeyId.parse r.masterKeyId = .ok id := by
  unfold keyId
  cases MasterKeyId.parse r.masterKeyId with
  | ok c => rw [Except.ok.injEq, Except.ok.injEq]
  | error e => simp only [reduceCtorEq]

theorem keyId_error (h : r.keyId = .error e) : ∃ cause, e = .masterKeyId r.id cause := by
  unfold keyId at h
  split at h
  · cases h
  · cases h
    exact ⟨_, rfl⟩

theorem openWith_of_keyId_error (h : r.keyId = .error e) (key : MasterKey) :
    r.openWith key = .error (.invalidRecord e) := by
  rw [openWith, h]
  rfl

/-- A record's fields are written in one way for each value, and read back from it
alone. Only the digits of the id may be of either case. -/
theorem fields_canonical :
    (∀ id time w key version, (make id time w key version).wrapped = .ok w ∧
      (make id time w key version).context = .ok ⟨key, version⟩) ∧
    (∀ (r : KeyRecord) w, r.wrapped = .ok w ↔ r.encryptedDek = Base64.encode w.ciphertext ∧
      r.iv = Base64.encode w.iv.val ∧ r.authTag = Base64.encode w.tag.val) ∧
    (∀ (r : KeyRecord) e, r.wrapped = .error e →
      ((e.Blames r.id "encryptedDek" ∧ ∀ b, r.encryptedDek ≠ Base64.encode b) ∨
        (e.Blames r.id "iv" ∧ ∀ iv : Octets 12, r.iv ≠ Base64.encode iv.val) ∨
        (e.Blames r.id "authTag" ∧ ∀ tag : Octets 16, r.authTag ≠ Base64.encode tag.val)) ∧
      ∀ key, r.unwrap key = .error (.invalidRecord e)) ∧
    (∀ (r r' : KeyRecord) field field' text text' b,
      r.decode field text = .ok b → r'.decode field' text' = .ok b → text = text') ∧
    (∀ r : KeyRecord, (∃ id, r.keyId = .ok id) ↔
      r.masterKeyId.toList.length = 16 ∧ ∀ c ∈ r.masterKeyId.toList, Hex.IsDigit c) ∧
    (∀ (r : KeyRecord) id, r.keyId = .ok id → id.toHex = r.masterKeyId.toLower) ∧
    (∀ (r : KeyRecord) e, r.keyId = .error e →
      (∃ cause, e = .masterKeyId r.id cause) ∧ ∀ key, r.openWith key = .error (.invalidRecord e)) ∧
    (∀ (r r' : KeyRecord) id id', r.keyId = .ok id → r'.keyId = .ok id' →
      (id = id' ↔ r.masterKeyId.toLower = r'.masterKeyId.toLower)) := by
  refine ⟨?_, fun r w => wrapped_eq_ok_iff, ?_, ?_, ?_, ?_, ?_, ?_⟩
  · intro id time w key version
    exact ⟨wrapped_make id time w key version, context_make id time w key version⟩
  · intro r e h
    exact ⟨wrapped_error h, unwrap_of_wrapped_error h⟩
  · intro r r' field field' text text' b h h'
    rw [decode_eq_ok_iff.mp h, decode_eq_ok_iff.mp h']
  · intro r
    simp only [keyId_eq_ok_iff]
    exact MasterKeyId.parse_isOk_iff
  · intro r id h
    exact MasterKeyId.toHex_of_parse (keyId_eq_ok_iff.mp h)
  · intro r e h
    exact ⟨keyId_error h, openWith_of_keyId_error h⟩
  · intro r r' id id' h h'
    exact MasterKeyId.parse_inj_iff (keyId_eq_ok_iff.mp h) (keyId_eq_ok_iff.mp h')

end KeyRecord

end AttestedVault
