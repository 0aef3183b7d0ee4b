import AttestedVault.Cipher.Aes
import Mathlib.Algebra.Group.Nat.Defs
import Mathlib.Data.Fintype.EquivFin

/-!
# The block cipher permutes the blocks

Each step of a round can be undone, whatever the round key is. Mixing a column
four times gives it back.
-/

namespace AttestedVault.Aes

/-! ## Bytes -/

theorem xor_left_comm (x y z : UInt8) : x ^^^ (y ^^^ z) = y ^^^ (x ^^^ z) := by
  rw [← UInt8.xor_assoc, UInt8.xor_comm x, UInt8.xor_assoc]

theorem xor_cancel_left (x y : UInt8) : x ^^^ (x ^^^ y) = y := by
  rw [← UInt8.xor_assoc, UInt8.xor_self, UInt8.zero_xor]

/-- The number that has a one at each of the places. -/
def marks : List Nat → Nat
  | [] => 0
  | k :: ks => marks ks ||| 1 <<< k

theorem mem_of_marks {n : Nat} : ∀ {places : List Nat}, (marks places).testBit n = true → n ∈ places
  | [], h => by rw [marks, Nat.zero_testBit] at h; cases h
  | k :: ks, h => by
    rw [marks, Nat.testBit_or, Bool.or_eq_true, Nat.one_shiftLeft, Nat.testBit_two_pow, decide_eq_true_iff] at h
    rcases h with h | rfl
    · exact List.mem_cons_of_mem k (mem_of_marks h)
    · exact List.mem_cons_self

theorem marks_sboxTable : sboxTable.size = 256 ∧ marks (sboxTable.toList.map UInt8.toNat) = 2 ^ 256 - 1 := by
  decide +kernel

theorem sbox_injective : Function.Injective sbox := by
  -- every byte is in the table, so none is there twice
  have : Finite UInt8 := Finite.of_injective UInt8.toFin fun _ _ => UInt8.toFin_inj.mp
  refine Finite.injective_iff_surjective.mpr fun y => ?_
  have hmark : (marks (sboxTable.toList.map UInt8.toNat)).testBit y.toNat = true := by
    rw [marks_sboxTable.2, Nat.testBit_two_pow_sub_one, decide_eq_true_iff]
    exact y.toNat_lt
  obtain ⟨x, hx, hxy⟩ := List.mem_map.mp (mem_of_marks hmark)
  obtain ⟨i, hi, rfl⟩ := List.getElem_of_mem hx
  have hi : i < 256 := by rwa [← marks_sboxTable.1]
  refine ⟨UInt8.ofNat i, UInt8.toNat_inj.mp (Eq.trans ?_ hxy)⟩
  rw [sbox, UInt8.toNat_ofNat', Nat.mod_eq_of_lt hi, ← Array.getElem_eq_getD, Array.getElem_toList]

theorem double_xor (x y : UInt8) : double (x ^^^ y) = double x ^^^ double y := by
  have hmsb : ∀ z : UInt8, 128 ≤ z ↔ z.toBitVec.msb = true := by
    intro z
    rw [BitVec.msb_eq_decide, decide_eq_true_iff, UInt8.le_iff_toNat_le]
    rfl
  have hcarry : ∀ b c : Bool, (if (b ^^ c) = true then (0x1b : UInt8) else 0) =
      (if b = true then 0x1b else 0) ^^^ (if c = true then 0x1b else 0) := by
    decide
  simp only [double, hmsb, UInt8.toBitVec_xor, BitVec.msb_xor, hcarry, UInt8.shiftLeft_xor]
  ac_rfl

/-! ## Columns -/

namespace Column

theorem xor_right_injective (k : Column) : Function.Injective fun s : Column => s.xor k := by
  refine Function.LeftInverse.injective (g := fun s => s.xor k) fun s => ?_
  simp only [xor, UInt8.xor_assoc, UInt8.xor_self, UInt8.xor_zero]

theorem sub_injective : Function.Injective sub := by
  intro s t h
  obtain ⟨ha, hb, hc, hd⟩ := Column.mk.inj h
  exact (Column.mk.injEq ..).mpr ⟨sbox_injective ha, sbox_injective hb, sbox_injective hc, sbox_injective hd⟩

def mixed (a b c d : UInt8) : UInt8 := double a ^^^ (double b ^^^ b) ^^^ c ^^^ d

theorem mix_eq (s : Column) : s.mix =
    ⟨mixed s.a s.b s.c s.d, mixed s.b s.c s.d s.a, mixed s.c s.d s.a s.b, mixed s.d s.a s.b s.c⟩ := by
  simp only [mix, mixed]
  congr 1
  all_goals ac_rfl

theorem mixed_mixed (a b c d : UInt8) :
    mixed (mixed a b c d) (mixed b c d a) (mixed c d a b) (mixed d a b c) = a ^^^ double (double (a ^^^ c)) := by
  simp only [mixed, double_xor]
  generalize double (double a) = a₂
  generalize double (double b) = b₂
  generalize double (double c) = c₂
  generalize double a = a₁
  generalize double b = b₁
  generalize double c = c₁
  generalize double d = d₁
  -- only the two outer products and `a` itself occur an odd number of times
  simp only [UInt8.xor_comm, xor_left_comm, xor_cancel_left, UInt8.xor_self, UInt8.xor_zero]

theorem mix_mix (s : Column) : s.mix.mix =
    ⟨s.a ^^^ double (double (s.a ^^^ s.c)), s.b ^^^ double (double (s.b ^^^ s.d)),
     s.c ^^^ double (double (s.c ^^^ s.a)), s.d ^^^ double (double (s.d ^^^ s.b))⟩ := by
  rw [mix_eq, mix_eq]
  simp only [mixed_mixed]

/-- Bytes two places apart get the same added, so that their sum stays as it is. -/
theorem pair_cancel (a c : UInt8) : (a ^^^ double (double (a ^^^ c))) ^^^
    double (double ((a ^^^ double (double (a ^^^ c))) ^^^ (c ^^^ double (double (c ^^^ a))))) = a := by
  rw [UInt8.xor_comm c a]
  generalize he : double (double (a ^^^ c)) = e
  have hsum : (a ^^^ e) ^^^ (c ^^^ e) = a ^^^ c := by
    rw [UInt8.xor_assoc, xor_left_comm e, UInt8.xor_self, UInt8.xor_zero]
  rw [hsum, he, UInt8.xor_assoc, UInt8.xor_self, UInt8.xor_zero]

theorem mix_injective : Function.Injective mix := by
  have h : Function.LeftInverse (mix ∘ mix ∘ mix) mix := by
    intro s
    change s.mix.mix.mix.mix = s
    rw [mix_mix, mix_mix]
    simp only [pair_cancel]
  exact h.injective

end Column

/-! ## Blocks -/

namespace Block

theorem map_injective {f : Column → Column} (hf : Function.Injective f) : Function.Injective (map f) := by
  intro s t h
  obtain ⟨h₀, h₁, h₂, h₃⟩ := Block.mk.inj h
  exact (Block.mk.injEq ..).mpr ⟨hf h₀, hf h₁, hf h₂, hf h₃⟩

theorem xor_right_injective (k : Block) : Function.Injective fun s : Block => s.xor k := by
  intro s t h
  obtain ⟨h₀, h₁, h₂, h₃⟩ := Block.mk.inj h
  exact (Block.mk.injEq ..).mpr ⟨Column.xor_right_injective _ h₀, Column.xor_right_injective _ h₁,
    Column.xor_right_injective _ h₂, Column.xor_right_injective _ h₃⟩

theorem shiftRows_injective : Function.Injective shiftRows :=
  Function.LeftInverse.injective (g := shiftRows ∘ shiftRows ∘ shiftRows) fun _ => rfl

theorem ofBytes_injective : Function.Injective ofBytes := by
  have h : ∀ b, (ofBytes b).toBytes = b
    | ⟨[_, _, _, _, _, _, _, _, _, _, _, _, _, _, _, _], _⟩ => rfl
  exact Function.LeftInverse.injective h

theorem toBytes_injective : Function.Injective toBytes :=
  Function.LeftInverse.injective (g := ofBytes) fun _ => rfl

end Block

/-! ## Rounds -/

theorem lastRound_injective (k : Block) :
    Function.Injective fun s : Block => ((s.map Column.sub).shiftRows).xor k :=
  (Block.xor_right_injective k).comp
    (Block.shiftRows_injective.comp (Block.map_injective Column.sub_injective))

theorem fullRound_injective (k : Block) : Function.Injective fun s => fullRound s k :=
  (Block.xor_right_injective k).comp ((Block.map_injective Column.mix_injective).comp
    (Block.shiftRows_injective.comp (Block.map_injective Column.sub_injective)))

theorem rounds_injective : ∀ keys : List Block, Function.Injective (rounds keys)
  | [] => fun _ _ h => h
  | [k] => lastRound_injective k
  | k :: k' :: ks => (rounds_injective (k' :: ks)).comp (fullRound_injective k)

theorem encryptWith_injective : ∀ keys : List Block, Function.Injective (encryptWith keys)
  | [] => fun _ _ h => h
  | k :: ks => Block.toBytes_injective.comp ((rounds_injective ks).comp
      ((Block.xor_right_injective k).comp Block.ofBytes_injective))

end AttestedVault.Aes
