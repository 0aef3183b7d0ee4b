import AttestedVault.Cipher.Gcm
import Mathlib.Data.BitVec
import Mathlib.Data.List.Iterate
import Mathlib.Data.List.Prime
import Mathlib.Dynamics.PeriodicPts.Defs
import Mathlib.NumberTheory.LucasPrimality
import Mathlib.Tactic.NormNum.Prime
import Mathlib.Tactic.ReduceModChar

/-!
# The field of blocks

No product of two blocks other than zero is zero. Multiplication by `x` runs
through all blocks but zero before it comes back to one, so each of them is a
power of `x`, and a product with a power of `x` can be undone.
-/

namespace AttestedVault.Gcm.Poly

/-! ## Linear maps -/

/-- The power of `x` that bit `n` stands for. -/
def term (n : Nat) : Poly := BitVec.twoPow 128 n

def one : Poly := term 127

def Linear (f : Poly → Poly) : Prop := ∀ x y, f (x ^^^ y) = f x ^^^ f y

theorem Linear.zero {f : Poly → Poly} (hf : Linear f) : f 0 = 0 := by
  have h := hf 0 0
  simpa using h

theorem linear_shift : Linear shift := by
  intro x y
  unfold shift
  rw [BitVec.getLsbD_xor, BitVec.ushiftRight_xor_distrib]
  cases x.getLsbD 0 <;> cases y.getLsbD 0
  · rfl
  · exact BitVec.xor_assoc ..
  · simp only [Bool.xor_false, if_true, Bool.false_eq_true, if_false]
    ac_rfl
  · simp only [Bool.xor_self, if_true, Bool.false_eq_true, if_false]
    rw [BitVec.xor_comm (y >>> 1), BitVec.xor_assoc, ← BitVec.xor_assoc _ _ (y >>> 1)]
    simp

theorem linear_iterate {f : Poly → Poly} (hf : Linear f) (k : Nat) : Linear f^[k] := by
  intro x y
  induction k generalizing x y with
  | zero => rfl
  | succ k ih => rw [Function.iterate_succ_apply, Function.iterate_succ_apply, Function.iterate_succ_apply, hf, ih]

theorem Linear.agree {f g : Poly → Poly} (hf : Linear f) (hg : Linear g) (x : Poly) : ∀ (n : Nat) (v z : Poly),
    f z = g z → (∀ i < n, f (shift^[i] v) = g (shift^[i] v)) → f (mulFrom x n v z) = g (mulFrom x n v z)
  | 0, _, _, hz, _ => hz
  | n + 1, v, z, hz, hv => by
    refine Linear.agree hf hg x n v.shift _ ?_ fun i hi => hv (i + 1) (by omega)
    split
    · rw [hf, hg, hz]
      exact congrArg (g z ^^^ ·) (hv 0 (by omega))
    · exact hz

theorem map_mulFrom {f : Poly → Poly} (hf : Linear f) (hs : ∀ v, f v.shift = (f v).shift) (x : Poly) :
    ∀ (n : Nat) (v z : Poly), f (mulFrom x n v z) = mulFrom x n (f v) (f z)
  | 0, _, _ => rfl
  | n + 1, v, z => by
    rw [mulFrom, map_mulFrom hf hs x n, hs, mulFrom]
    congr 1
    split
    · exact hf ..
    · rfl

theorem mulFrom_xor (x : Poly) : ∀ (n : Nat) (v w y z : Poly),
    mulFrom x n (v ^^^ w) (y ^^^ z) = mulFrom x n v y ^^^ mulFrom x n w z
  | 0, _, _, _, _ => rfl
  | n + 1, v, w, y, z => by
    rw [mulFrom, mulFrom, mulFrom, linear_shift, ← mulFrom_xor x n]
    congr 1
    split
    · ac_rfl
    · rfl

theorem linear_mul (x : Poly) : Linear x.mul := by
  intro y z
  rw [mul, mul, mul, ← mulFrom_xor]
  rfl

theorem shift_term {n : Nat} (hn : n + 1 < 128) : (term (n + 1)).shift = term n := by
  have hb : (term (n + 1)).getLsbD 0 = false := by simp [term]
  rw [shift, hb, if_neg Bool.false_ne_true]
  refine BitVec.eq_of_getLsbD_eq fun i hi => ?_
  have hi : n + 1 = 1 + i ↔ n = i := by omega
  simp [term, BitVec.getLsbD_twoPow, hn, Nat.lt_of_succ_lt hn, hi]

theorem getLsbD_add_term (x z : Poly) {n i : Nat} (hi : i < 128) :
    (if x.getLsbD n then z ^^^ term n else z).getLsbD i = (z.getLsbD i ^^ (decide (n = i) && x.getLsbD i)) := by
  by_cases hn : n = i
  · subst hn
    cases x.getLsbD n <;> simp [term, hi]
  · cases x.getLsbD n <;> simp [term, BitVec.getLsbD_twoPow, hn]

theorem getLsbD_mulFrom_term (x : Poly) {i : Nat} (hi : i < 128) : ∀ (n : Nat) (z : Poly), n < 128 →
    (mulFrom x (n + 1) (term n) z).getLsbD i = (z.getLsbD i ^^ (decide (i ≤ n) && x.getLsbD i))
  | 0, z, _ => by
    rw [mulFrom, mulFrom, getLsbD_add_term x z hi]
    have he : 0 = i ↔ i ≤ 0 := by omega
    simp only [he]
  | n + 1, z, hn => by
    rw [mulFrom, shift_term hn, getLsbD_mulFrom_term x hi n _ (by omega), getLsbD_add_term x z hi]
    rcases Nat.lt_trichotomy i (n + 1) with h | h | h
    · simp [show n + 1 ≠ i by omega, show i ≤ n by omega, show i ≤ n + 1 by omega]
    · simp [h]
    · simp [show n + 1 ≠ i by omega, show ¬ i ≤ n by omega, show ¬ i ≤ n + 1 by omega]

theorem mul_one (x : Poly) : x.mul one = x := by
  refine BitVec.eq_of_getLsbD_eq fun i hi => ?_
  have h := getLsbD_mulFrom_term x hi 127 0 (by omega)
  rw [mul, one, h]
  simp [show i ≤ 127 by omega]

/-- What is linear and commutes with the shift multiplies by its value at one. -/
theorem eq_mul {f : Poly → Poly} (hf : Linear f) (hs : ∀ v, f v.shift = (f v).shift) (x : Poly) :
    f x = x.mul (f one) := by
  have h := map_mulFrom hf hs x 128 one 0
  rw [hf.zero] at h
  change f (x.mul one) = x.mul (f one) at h
  rwa [mul_one] at h

theorem mul_comm (x y : Poly) : x.mul y = y.mul x := by
  have hs : ∀ v, x.mul (shift v) = (x.mul v).shift := by
    intro v
    have h := map_mulFrom linear_shift (fun _ => rfl) x 128 v 0
    rw [linear_shift.zero] at h
    exact h.symm
  have h := eq_mul (linear_mul x) hs y
  rwa [mul_one] at h

/-! ## Powers of `x` -/

def power (k : Nat) : Poly := shift^[k] one

theorem mul_power (x : Poly) (k : Nat) : x.mul (power k) = shift^[k] x :=
  (eq_mul (linear_iterate linear_shift k) (fun v => (Function.Commute.iterate_self shift k).eq v) x).symm

theorem power_mul_power (j k : Nat) : (power j).mul (power k) = power (k + j) := by
  rw [mul_power, power, power, Function.iterate_add_apply]

/-! ## Squares -/

def spread (s : BitVec 256) (k : Nat × BitVec 256) : BitVec 256 := (s ^^^ s <<< k.1) &&& k.2

def spreading : List (Nat × BitVec 256) := [
  (64, 0x0000000000000000ffffffffffffffff0000000000000000ffffffffffffffff),
  (32, 0x00000000ffffffff00000000ffffffff00000000ffffffff00000000ffffffff),
  (16, 0x0000ffff0000ffff0000ffff0000ffff0000ffff0000ffff0000ffff0000ffff),
  (8, 0x00ff00ff00ff00ff00ff00ff00ff00ff00ff00ff00ff00ff00ff00ff00ff00ff),
  (4, 0x0f0f0f0f0f0f0f0f0f0f0f0f0f0f0f0f0f0f0f0f0f0f0f0f0f0f0f0f0f0f0f0f),
  (2, 0x3333333333333333333333333333333333333333333333333333333333333333),
  (1, 0x5555555555555555555555555555555555555555555555555555555555555555)]

def carry (s : BitVec 256) : BitVec 256 :=
  let t := s <<< 128
  t ^^^ t >>> 1 ^^^ t >>> 2 ^^^ t >>> 7

/-- The square of a block, without a multiplication. -/
def square (x : Poly) : Poly :=
  let s := spreading.foldl spread (x.setWidth 256) <<< 1
  ((s ^^^ carry s ^^^ carry (carry s)) >>> 128).setWidth 128

theorem spread_xor (s t : BitVec 256) (k : Nat × BitVec 256) :
    spread (s ^^^ t) k = spread s k ^^^ spread t k := by
  have hmask : ∀ x y : BitVec 256, (x ^^^ y) &&& k.2 = x &&& k.2 ^^^ y &&& k.2 := by
    intro x y
    ext
    simp [Bool.and_xor_distrib_right]
  rw [spread, spread, spread, ← hmask, BitVec.shiftLeft_xor_distrib]
  congr 1
  ac_rfl

theorem foldl_spread_xor : ∀ (ks : List (Nat × BitVec 256)) (s t : BitVec 256),
    ks.foldl spread (s ^^^ t) = ks.foldl spread s ^^^ ks.foldl spread t
  | [], _, _ => rfl
  | k :: ks, s, t => by
    rw [List.foldl_cons, spread_xor, foldl_spread_xor ks]
    rfl

theorem carry_xor (s t : BitVec 256) : carry (s ^^^ t) = carry s ^^^ carry t := by
  unfold carry
  rw [BitVec.shiftLeft_xor_distrib]
  generalize s <<< 128 = s
  generalize t <<< 128 = t
  dsimp only
  rw [BitVec.ushiftRight_xor_distrib, BitVec.ushiftRight_xor_distrib, BitVec.ushiftRight_xor_distrib]
  ac_rfl

theorem linear_square : Linear square := by
  intro x y
  unfold square
  rw [BitVec.setWidth_xor, foldl_spread_xor, BitVec.shiftLeft_xor_distrib]
  generalize spreading.foldl spread (x.setWidth 256) <<< 1 = s
  generalize spreading.foldl spread (y.setWidth 256) <<< 1 = t
  dsimp only
  rw [carry_xor, carry_xor, ← BitVec.setWidth_xor, ← BitVec.ushiftRight_xor_distrib]
  congr 2
  ac_rfl

theorem linear_mul_self : Linear fun x => x.mul x := by
  intro x y
  have hl : ∀ z, (x ^^^ y).mul z = x.mul z ^^^ y.mul z := by
    intro z
    rw [mul_comm, linear_mul, mul_comm z, mul_comm z]
  change (x ^^^ y).mul (x ^^^ y) = x.mul x ^^^ y.mul y
  rw [hl, linear_mul, linear_mul, mul_comm y x, BitVec.xor_assoc, ← BitVec.xor_assoc (x.mul y)]
  simp

theorem square_powers : (List.iterate shift one 128).map square =
    List.iterate (shift ∘ shift) one 128 := by
  decide +kernel

theorem square_eq (x : Poly) : square x = x.mul x := by
  -- both are linear, so the powers of `x` up to the last bit are enough
  have hpow : ∀ i < 128, square (power i) = (power i).mul (power i) := by
    intro i hi
    have h := congrArg (·[i]?) square_powers
    simp only [List.getElem?_map, List.getElem?_iterate _ _ _ _ hi, Option.map_some] at h
    rw [power_mul_power, power, power, ← Nat.two_mul, Function.iterate_mul]
    exact Option.some.inj h
  have hx := linear_square.agree linear_mul_self x 128 one 0 ?_ hpow
  · change square (x.mul one) = (x.mul one).mul (x.mul one) at hx
    rwa [mul_one] at hx
  · rw [linear_square.zero]
    exact linear_mul_self.zero.symm

def powerBy : (n k : Nat) → Poly
  | 0, _ => one
  | n + 1, k =>
    let s := square (powerBy n (k / 2))
    if k % 2 = 1 then s.shift else s

theorem powerBy_eq : ∀ {n k : Nat}, k < 2 ^ n → powerBy n k = power k
  | 0, k, hk => by
    obtain rfl : k = 0 := by simpa using hk
    rfl
  | n + 1, k, hk => by
    have ih : powerBy n (k / 2) = power (k / 2) := powerBy_eq (by omega)
    rw [powerBy, ih, square_eq, power_mul_power]
    split
    · rw [power, ← Function.iterate_succ_apply' shift]
      congr 1
      omega
    · congr 1
      omega

/-! ## The order of `x` -/

def order : Nat := 2 ^ 128 - 1

def orderPrimes : List Nat := [3, 5, 17, 257, 641, 65537, 274177, 6700417, 67280421310721]

theorem powers_of_order : powerBy 128 order = one ∧ ∀ p ∈ orderPrimes, powerBy 128 (order / p) ≠ one := by
  decide +kernel

theorem power_order : power order = one := by
  rw [← powerBy_eq (n := 128) (by decide)]
  exact powers_of_order.1

theorem mem_of_dvd_prod {ps : List Nat} (hps : ∀ q ∈ ps, q.Prime) {p : Nat} (hp : p.Prime) (h : p ∣ ps.prod) :
    p ∈ ps := by
  obtain ⟨q, hq, hpq⟩ := (Prime.dvd_prod_iff hp.prime).mp h
  rwa [(Nat.prime_dvd_prime_iff_eq hp (hps q hq)).mp hpq]

theorem prime_67280421310721 : Nat.Prime 67280421310721 := by
  -- too large for trial division: `3` generates the units
  have hprimes : ∀ q ∈ [2, 2, 2, 2, 2, 2, 2, 2, 5, 47, 373, 2998279], Nat.Prime q := by
    norm_num
  refine lucas_primality _ 3 (by reduce_mod_char) fun q hq hd => ?_
  have hmem := mem_of_dvd_prod hprimes hq hd
  simp only [List.mem_cons, List.not_mem_nil, or_false, or_self_left] at hmem
  rcases hmem with rfl | rfl | rfl | rfl | rfl
  all_goals
    reduce_mod_char
    decide

theorem prime_of_mem_orderPrimes {p : Nat} (hp : p ∈ orderPrimes) : p.Prime := by
  simp only [orderPrimes, List.mem_cons, List.not_mem_nil, or_false] at hp
  rcases hp with rfl | rfl | rfl | rfl | rfl | rfl | rfl | rfl | rfl
  case inr.inr.inr.inr.inr.inr.inr.inr => exact prime_67280421310721
  all_goals norm_num

theorem mem_orderPrimes {p : Nat} (hp : p.Prime) (h : p ∣ order) : p ∈ orderPrimes := by
  have hprod : order = orderPrimes.prod := by decide
  rw [hprod] at h
  exact mem_of_dvd_prod (fun _ => prime_of_mem_orderPrimes) hp h

theorem minimalPeriod_shift : Function.minimalPeriod shift one = order := by
  have hd : Function.minimalPeriod shift one ∣ order := Function.IsPeriodicPt.minimalPeriod_dvd power_order
  obtain ⟨m, hm⟩ := hd
  by_contra hne
  have hm1 : m ≠ 1 := by
    rintro rfl
    exact hne (by rw [hm, Nat.mul_one])
  obtain ⟨p, hp, q, rfl⟩ := Nat.exists_prime_and_dvd hm1
  -- the period would divide what is left without this prime
  have hdiv : order / p = Function.minimalPeriod shift one * q := by
    rw [hm, Nat.mul_left_comm, Nat.mul_div_cancel_left _ hp.pos]
  have hpow : power (order / p) = one := by
    rw [hdiv]
    exact (Function.isPeriodicPt_minimalPeriod shift one).mul_const q
  refine powers_of_order.2 p (mem_orderPrimes hp ⟨_, hm.trans (Nat.mul_left_comm ..)⟩) ?_
  rwa [powerBy_eq (Nat.lt_of_le_of_lt (Nat.div_le_self ..) (by decide))]

/-! ## Division -/

theorem shift_injective : Function.Injective shift := by
  have h : Function.LeftInverse shift^[order - 1] shift := by
    intro x
    rw [← Function.iterate_succ_apply]
    change shift^[order] x = x
    rw [← mul_power, power_order, mul_one]
  exact h.injective

theorem power_ne_zero (k : Nat) : power k ≠ 0 := by
  intro h
  have hz : shift^[k] 0 = 0 := (linear_iterate linear_shift k).zero
  have := shift_injective.iterate k (h.trans hz.symm)
  exact absurd this (by decide)

theorem exists_power {x : Poly} (hx : x ≠ 0) : ∃ k, power k = x := by
  -- there are as many powers as blocks other than zero
  have hpos : ∀ {y : Poly}, y ≠ 0 → 0 < y.toNat := by
    intro y hy
    exact Nat.pos_of_ne_zero fun h => hy (BitVec.eq_of_toNat_eq h)
  let f : Fin order → Fin order := fun i =>
    ⟨(power i).toNat - 1, by
      have := hpos (power_ne_zero i)
      have : (power i).toNat < 2 ^ 128 := (power i).isLt
      simp only [order]
      omega⟩
  have hinj : Function.Injective f := by
    intro i j h
    have hi := hpos (power_ne_zero i)
    have hj := hpos (power_ne_zero j)
    have he : (power i).toNat - 1 = (power j).toNat - 1 := congrArg Fin.val h
    have hp : power i = power j := BitVec.eq_of_toNat_eq (by omega)
    refine Fin.ext (Function.iterate_injOn_Iio_minimalPeriod ?_ ?_ hp)
    · rw [minimalPeriod_shift]
      exact i.isLt
    · rw [minimalPeriod_shift]
      exact j.isLt
  have h0 := hpos hx
  obtain ⟨i, hi⟩ := Finite.surjective_of_injective hinj ⟨x.toNat - 1, by
    have : x.toNat < 2 ^ 128 := x.isLt
    simp only [order]
    omega⟩
  have he : (power i).toNat - 1 = x.toNat - 1 := congrArg Fin.val hi
  have := hpos (power_ne_zero i)
  exact ⟨i, BitVec.eq_of_toNat_eq (by omega)⟩

theorem mul_injective {h : Poly} (hh : h ≠ 0) {x y : Poly} (he : x.mul h = y.mul h) : x = y := by
  obtain ⟨k, rfl⟩ := exists_power hh
  rw [mul_power, mul_power] at he
  exact shift_injective.iterate k he

end AttestedVault.Gcm.Poly
