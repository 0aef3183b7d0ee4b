import AttestedVault.Base64
import AttestedVault.Key.Id
import AttestedVault.Text.Blank
import Mathlib.Algebra.Group.Nat.Defs

/-!
# Written forms

Hexadecimal digits and base64 are texts of ASCII characters, so their bytes
are their characters. What the writers write is what the readers read, and so it
is with a number in bytes.
-/

namespace AttestedVault

/-! ## Texts of ASCII characters -/

theorem ofText_ofList {cs : List Char} (h : ∀ c ∈ cs, c.toNat < 128) :
    Bytes.ofText (String.ofList cs) = cs.map fun c => UInt8.ofNat c.toNat := by
  simp only [Bytes.ofText, String.toByteArray_ofList, List.utf8Encode, List.toList_data_toByteArray]
  induction cs with
  | nil => rfl
  | cons c cs ih =>
    have hc : c.utf8Size = 1 := by
      have := h c (by simp)
      rw [Char.utf8Size_eq_one_iff, UInt32.le_iff_toNat_le]
      exact Nat.le_of_lt_succ this
    rw [List.flatMap_cons, String.utf8EncodeChar_eq_singleton hc, ih fun d hd => h d (by simp [hd])]
    rfl

theorem toNat_charOfNat {n : Nat} (h : n < 0xd800) : (Char.ofNat n).toNat = n := by
  have hv : n.isValidChar := Or.inl h
  rw [Char.ofNat, dif_pos hv]
  rfl

theorem ascii_code {n : Nat} (h : n < 128) : (Char.ofNat n).toNat = n :=
  toNat_charOfNat (Nat.lt_trans h (by decide))

/-! ## Numbers -/

namespace Bytes

theorem toNatLE_ofNatLE : ∀ width n : Nat, toNatLE (ofNatLE width n) = n % 256 ^ width
  | 0, n => by rw [Nat.pow_zero, Nat.mod_one]; rfl
  | width + 1, n => by
    have hcons : toNatLE (ofNatLE (width + 1) n) = (UInt8.ofNat n).toNat + 256 * toNatLE (ofNatLE width (n / 256)) := rfl
    rw [hcons, toNatLE_ofNatLE width, UInt8.toNat_ofNat', Nat.pow_succ 256, Nat.mul_comm _ 256, Nat.mod_mul]

theorem toNat_ofNat (width n : Nat) : toNat (ofNat width n) = n % 256 ^ width := by
  rw [ofNat, toNat_reverse, toNatLE_ofNatLE]

end Bytes

/-! ## Separators -/

theorem cut_inj {c : Char} {l l' m m' : List Char} (h : l ++ c :: m = l' ++ c :: m')
    (hn : l.count c = l'.count c) : l = l' ∧ m = m' := by
  induction l generalizing l' with
  | nil =>
    cases l' with
    | nil => exact ⟨rfl, (List.cons.inj h).2⟩
    | cons d l' =>
      obtain ⟨rfl, -⟩ := List.cons.inj h
      simp at hn
  | cons a l ih =>
    cases l' with
    | nil =>
      obtain ⟨rfl, -⟩ := List.cons.inj h
      simp at hn
    | cons d l' =>
      obtain ⟨rfl, ht⟩ := List.cons.inj h
      rw [List.count_cons, List.count_cons, Nat.add_right_cancel_iff] at hn
      obtain ⟨rfl, rfl⟩ := ih ht hn
      exact ⟨rfl, rfl⟩

theorem cut_inj_of_not_mem {c : Char} {l l' m m' : List Char} (h : l ++ c :: m = l' ++ c :: m')
    (hl : c ∉ l) (hl' : c ∉ l') : l = l' ∧ m = m' :=
  cut_inj h ((List.count_eq_zero.mpr hl).trans (List.count_eq_zero.mpr hl').symm)

/-! ## Hexadecimal -/

namespace Hex

theorem digit_lt : ∀ n < 16, (digit n).toNat < 128 := by decide

theorem value?_digit : ∀ n < 16, value? (UInt8.ofNat (digit n).toNat) = some (UInt8.ofNat n) := by
  decide

theorem isBlank_digit : ∀ n < 16, Text.isBlank (digit n) = false := by decide

theorem mem_digits {b : Bytes} {c : Char} (h : c ∈ digits b) : ∃ n < 16, c = digit n := by
  obtain ⟨x, -, hx⟩ := List.mem_flatMap.mp h
  have hb := x.toNat_lt
  simp only [List.mem_cons, List.not_mem_nil, or_false] at hx
  rcases hx with rfl | rfl
  · exact ⟨_, by omega, rfl⟩
  · exact ⟨_, by omega, rfl⟩

theorem length_digits (b : Bytes) : (digits b).length = 2 * b.length := by
  induction b with
  | nil => rfl
  | cons x b ih =>
    simp only [digits, List.flatMap_cons, List.length_append, List.length_cons, List.length_nil] at ih ⊢
    omega

theorem ofText_encode (b : Bytes) :
    Bytes.ofText (encode b) = (digits b).map fun c => UInt8.ofNat c.toNat := by
  refine ofText_ofList fun c hc => ?_
  obtain ⟨n, hn, rfl⟩ := mem_digits hc
  exact digit_lt n hn

theorem pairs_digits (b : Bytes) : ∀ i,
    pairs i ((digits b).map fun c => UInt8.ofNat c.toNat) = .ok b := by
  induction b with
  | nil => intro i; rfl
  | cons x b ih =>
    intro i
    have hb := x.toNat_lt
    have hx : 16 * UInt8.ofNat (x.toNat / 16) + UInt8.ofNat (x.toNat % 16) = x := by
      apply UInt8.toNat_inj.mp
      simp only [UInt8.toNat_add, UInt8.toNat_mul, UInt8.toNat_ofNat', UInt8.reduceToNat]
      omega
    change pairs i (_ :: _ :: (digits b).map fun c => UInt8.ofNat c.toNat) = _
    simp only [pairs, value?_digit _ (show x.toNat / 16 < 16 by omega),
      value?_digit _ (show x.toNat % 16 < 16 by omega), ih, hx]

@[simp] theorem decode_encode (b : Bytes) : decode (Bytes.ofText (encode b)) = .ok b := by
  rw [ofText_encode, decode, List.length_map, length_digits, if_neg (by omega), pairs_digits]

theorem encode_injective : Function.Injective encode := by
  intro b b' h
  have he := congrArg (fun s => decode (Bytes.ofText s)) h
  simpa using he

theorem trim_encode (b : Bytes) : Text.trim (encode b) = encode b := by
  -- no digit is a blank, so nothing is trimmed off
  have hd : ∀ cs : List Char, (∀ c ∈ cs, ∃ n < 16, c = digit n) → cs.dropWhile Text.isBlank = cs := by
    intro cs hcs
    cases cs with
    | nil => rfl
    | cons c cs =>
      obtain ⟨n, hn, rfl⟩ := hcs c (by simp)
      rw [List.dropWhile_cons_of_neg (by simp [isBlank_digit n hn])]
  rw [Text.trim, encode, String.toList_ofList, Text.trimChars, hd _ fun c hc => mem_digits hc,
    hd _ fun c hc => mem_digits (List.mem_reverse.mp hc), List.reverse_reverse]

end Hex

/-! ## Base64 -/

namespace Base64

theorem value?_symbol : ∀ n < 64, value? (symbol n) = some n := by decide

theorem symbol_ascii : ∀ n < 64, (symbol n).toNat < 128 := by decide

theorem symbol_ne_pad : ∀ n < 64, symbol n ≠ pad := by decide

theorem ascii_symbols (b : Bytes) : ∀ c ∈ symbols b, c.toNat < 128 := by
  have hp : pad.toNat < 128 := by decide
  induction b using symbols.induct with
  | case1 x y z rest ih =>
    have := x.toNat_lt; have := y.toNat_lt; have := z.toNat_lt
    intro c hc
    simp only [symbols, List.mem_cons] at hc
    rcases hc with rfl | rfl | rfl | rfl | hc
    · exact symbol_ascii _ (by omega)
    · exact symbol_ascii _ (by omega)
    · exact symbol_ascii _ (by omega)
    · exact symbol_ascii _ (by omega)
    · exact ih c hc
  | case2 x y =>
    have := x.toNat_lt; have := y.toNat_lt
    intro c hc
    simp only [symbols, List.mem_cons, List.not_mem_nil, or_false] at hc
    rcases hc with rfl | rfl | rfl | rfl
    · exact symbol_ascii _ (by omega)
    · exact symbol_ascii _ (by omega)
    · exact symbol_ascii _ (by omega)
    · exact hp
  | case3 x =>
    have := x.toNat_lt
    intro c hc
    simp only [symbols, List.mem_cons, List.not_mem_nil, or_false] at hc
    rcases hc with rfl | rfl | rfl | rfl
    · exact symbol_ascii _ (by omega)
    · exact symbol_ascii _ (by omega)
    · exact hp
    · exact hp
  | case4 => intro c hc; cases hc

theorem ofText_encode (b : Bytes) : Bytes.ofText (encode b) = symbols b := by
  have hs := ascii_symbols b
  rw [encode, ofText_ofList, List.map_map]
  · refine (List.map_congr_left fun c hc => ?_).trans (List.map_id _)
    simp [ascii_code (hs c hc)]
  · intro c hc
    obtain ⟨x, hx, rfl⟩ := List.mem_map.mp hc
    rw [ascii_code (hs x hx)]
    exact hs x hx

theorem length_symbols (b : Bytes) : (symbols b).length % 4 = 0 := by
  induction b using symbols.induct with
  | case1 x y z rest ih => simp only [symbols, List.length_cons]; omega
  | case2 x y => simp [symbols]
  | case3 x => simp [symbols]
  | case4 => rfl

theorem values_symbols {ns : List Nat} (h : ∀ n ∈ ns, n < 64) : ∀ i, values i (ns.map symbol) = .ok ns := by
  induction ns with
  | nil => intro i; rfl
  | cons n ns ih =>
    intro i
    simp only [List.map_cons, values, value?_symbol n (h n (by simp)), ih fun m hm => h m (by simp [hm])]

theorem takeWhile_symbols {ns : List Nat} (h : ∀ n ∈ ns, n < 64) (k : Nat) :
    (ns.map symbol ++ List.replicate k pad).takeWhile (· ≠ pad) = ns.map symbol ∧
      (ns.map symbol ++ List.replicate k pad).dropWhile (· ≠ pad) = List.replicate k pad := by
  induction ns with
  | nil => cases k <;> simp [List.replicate_succ]
  | cons n ns ih =>
    have hn := symbol_ne_pad n (h n (by simp))
    obtain ⟨ht, hd⟩ := ih fun m hm => h m (by simp [hm])
    simp only [List.map_cons, List.cons_append]
    rw [List.takeWhile_cons_of_pos (by simpa using hn), List.dropWhile_cons_of_pos (by simpa using hn)]
    exact ⟨by rw [ht], hd⟩

theorem regroup (x y z : UInt8) : ∃ t u v w, (∀ n ∈ [t, u, v, w], n < 64) ∧
    (∀ rest, symbols (x :: y :: z :: rest) = [t, u, v, w].map symbol ++ symbols rest) ∧
      [UInt8.ofNat (4 * t + u / 16), UInt8.ofNat (16 * u + v / 4), UInt8.ofNat (64 * v + w)] = [x, y, z] := by
  have := x.toNat_lt; have := y.toNat_lt; have := z.toNat_lt
  let n := 65536 * x.toNat + 256 * y.toNat + z.toNat
  refine ⟨n / 262144, n / 4096 % 64, n / 64 % 64, n % 64, ?_, fun rest => rfl, ?_⟩
  · simp only [List.mem_cons, List.not_mem_nil, or_false, forall_eq_or_imp, forall_eq]; omega
  · simp only [List.cons.injEq, and_true, ← UInt8.toNat_inj, UInt8.toNat_ofNat']; omega

theorem lastGroup_symbols (i : Nat) {b : Bytes} (h : b.length ≤ 3) : lastGroup i (symbols b) = .ok b := by
  match b, h with
  | [], _ => rfl
  | [x], _ =>
    have := x.toNat_lt
    have hn : ∀ n ∈ [x.toNat / 4, 16 * x.toNat % 64], n < 64 := by
      simp only [List.mem_cons, List.not_mem_nil, or_false, forall_eq_or_imp, forall_eq]; omega
    obtain ⟨ht, hd⟩ := takeWhile_symbols hn 2
    change lastGroup i ([x.toNat / 4, 16 * x.toNat % 64].map symbol ++ List.replicate 2 pad) = _
    have hx : UInt8.ofNat (4 * (x.toNat / 4) + 16 * x.toNat % 64 / 16) = x := by
      rw [← UInt8.toNat_inj, UInt8.toNat_ofNat']; omega
    have hz : 16 * x.toNat % 64 % 16 = 0 := by omega
    simp only [lastGroup, ht, hd, values_symbols hn, hx, hz]
    rfl
  | [x, y], _ =>
    have := x.toNat_lt; have := y.toNat_lt
    let n := 1024 * x.toNat + 4 * y.toNat
    have hn : ∀ m ∈ [n / 4096, n / 64 % 64, n % 64], m < 64 := by
      simp only [List.mem_cons, List.not_mem_nil, or_false, forall_eq_or_imp, forall_eq]; omega
    obtain ⟨ht, hd⟩ := takeWhile_symbols hn 1
    change lastGroup i ([n / 4096, n / 64 % 64, n % 64].map symbol ++ List.replicate 1 pad) = _
    have hx : UInt8.ofNat (4 * (n / 4096) + n / 64 % 64 / 16) = x := by
      rw [← UInt8.toNat_inj, UInt8.toNat_ofNat']; omega
    have hy : UInt8.ofNat (16 * (n / 64 % 64) + n % 64 / 4) = y := by
      rw [← UInt8.toNat_inj, UInt8.toNat_ofNat']; omega
    have hz : n % 64 % 4 = 0 := by omega
    simp only [lastGroup, ht, hd, values_symbols hn, hx, hy, hz]
    rfl
  | [x, y, z], _ =>
    obtain ⟨t, u, v, w, hn, hs, hb⟩ := regroup x y z
    obtain ⟨ht, hd⟩ := takeWhile_symbols hn 0
    rw [hs, show symbols [] = List.replicate 0 pad from rfl]
    simp only [lastGroup, ht, hd, values_symbols hn]
    simpa using hb

theorem groups_symbols (b : Bytes) : ∀ i, groups i (symbols b) = .ok b := by
  induction b using symbols.induct with
  | case1 x y z rest ih =>
    intro i
    obtain ⟨t, u, v, w, hn, hs, hb⟩ := regroup x y z
    cases hr : symbols rest with
    | nil =>
      have hrest : rest = [] := by
        have := ih 0
        rw [hr] at this
        exact (Except.ok.inj this).symm
      subst hrest
      have := lastGroup_symbols i (b := [x, y, z]) (by simp)
      rw [hs] at this ⊢
      exact this
    | cons e tail =>
      rw [hs, hr]
      have hv := values_symbols hn i
      have hi := ih (i + 4)
      rw [hr] at hi
      simp only [List.map_cons, List.map_nil] at hv
      simp only [List.map_cons, List.map_nil, List.cons_append, List.nil_append, groups, hv, hi]
      simpa using hb
  | case2 x y => exact fun i => lastGroup_symbols i (b := [x, y]) (by simp)
  | case3 x => exact fun i => lastGroup_symbols i (b := [x]) (by simp)
  | case4 => exact fun i => lastGroup_symbols i (b := []) (by simp)

@[simp] theorem decode_encode (b : Bytes) : decode (Bytes.ofText (encode b)) = .ok b := by
  have hl := length_symbols b
  rw [ofText_encode, decode]
  cases hs : (symbols b).getLast? with
  | none =>
    have hb := groups_symbols b 0
    rw [List.getLast?_eq_none_iff.mp hs] at hb
    exact hb
  | some c => simp only [hl, groups_symbols]; simp

end Base64

theorem MasterKeyId.parse_toHex (id : MasterKeyId) : MasterKeyId.parse id.toHex = .ok id := by
  have hl : (Bytes.ofText id.toHex).length = 16 := by
    rw [MasterKeyId.toHex, Hex.ofText_encode, List.length_map, Hex.length_digits, id.bytes.property]
  simp only [MasterKeyId.parse, hl, if_true]
  rw [MasterKeyId.toHex, Hex.decode_encode]
  simp only [Octets.ofBytes_val]

theorem MasterKeyId.toHex_injective : Function.Injective MasterKeyId.toHex := by
  intro i j h
  have hp : parse i.toHex = parse j.toHex := by rw [h]
  rw [parse_toHex, parse_toHex] at hp
  exact Except.ok.inj hp

end AttestedVault
