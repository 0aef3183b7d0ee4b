/-!
# Bytes

Byte strings are lists of octets: every format here is read by taking and
dropping and written by appending. `Octets n` carries its length in its type.
-/

namespace AttestedVault

abbrev Bytes := List UInt8

/-- A byte string of exactly `n` octets. -/
abbrev Octets (n : Nat) := { b : Bytes // b.length = n }

namespace Octets

/-- The first `n` bytes of `b`, filled up with zeros where `b` is shorter. -/
def ofBytes (n : Nat) (b : Bytes) : Octets n :=
  ⟨(b ++ List.replicate n 0).take n, by simp⟩

/-- `b` itself, if it has the length. -/
def ofBytes? (n : Nat) (b : Bytes) : Option (Octets n) :=
  if h : b.length = n then some ⟨b, h⟩ else none

/-- The `n` bytes of `b` from offset `at` on. -/
def window (b : Bytes) (start n : Nat) : Octets n :=
  ofBytes n (b.drop start)

theorem val_ofBytes {n : Nat} {b : Bytes} (h : n ≤ b.length) : (ofBytes n b).val = b.take n := by
  simp [ofBytes, List.take_append_of_le_length h]

theorem val_ofBytes_of_length {n : Nat} {b : Bytes} (h : b.length = n) : (ofBytes n b).val = b := by
  rw [val_ofBytes (Nat.le_of_eq h.symm), List.take_of_length_le (Nat.le_of_eq h)]

theorem val_window {b : Bytes} {start n : Nat} (h : start + n ≤ b.length) :
    (window b start n).val = (b.drop start).take n :=
  val_ofBytes (by rw [List.length_drop]; omega)

theorem ofBytes_val {n : Nat} (o : Octets n) : ofBytes n o.val = o :=
  Subtype.ext (by rw [val_ofBytes (by simp [o.property])]; simp [List.take_of_length_le, o.property])

theorem ofBytes?_val {n : Nat} (o : Octets n) : ofBytes? n o.val = some o := by
  simp [ofBytes?, o.property]

theorem ofBytes?_eq_some_iff {n : Nat} {b : Bytes} {o : Octets n} : ofBytes? n b = some o ↔ o.val = b := by
  constructor
  · intro h
    unfold ofBytes? at h
    split at h
    · cases h
      rfl
    · cases h
  · intro h
    rw [← h, ofBytes?_val]

end Octets

namespace Bytes

/-- Bytewise exclusive or, as long as the shorter of the two. -/
def xor (a b : Bytes) : Bytes := List.zipWith (· ^^^ ·) a b

/-- The number whose base-256 digits, most significant first, are `b`. -/
def toNat (b : Bytes) : Nat := b.foldl (fun n x => 256 * n + x.toNat) 0

/-- The number whose base-256 digits, least significant first, are `b`. -/
def toNatLE (b : Bytes) : Nat := b.foldr (fun x n => x.toNat + 256 * n) 0

/-- `n` modulo `256 ^ width` in `width` bytes, least significant first. -/
def ofNatLE : (width n : Nat) → Bytes
  | 0, _ => []
  | width + 1, n => UInt8.ofNat n :: ofNatLE width (n / 256)

/-- `n` modulo `256 ^ width` in `width` bytes, most significant first. -/
def ofNat (width n : Nat) : Bytes := (ofNatLE width n).reverse

@[simp] theorem length_ofNatLE (width n : Nat) : (ofNatLE width n).length = width := by
  induction width generalizing n with
  | zero => rfl
  | succ width ih => simp [ofNatLE, ih]

@[simp] theorem length_ofNat (width n : Nat) : (ofNat width n).length = width := by
  simp [ofNat]

theorem toNat_reverse (b : Bytes) : toNat b.reverse = toNatLE b := by
  unfold toNat toNatLE
  rw [List.foldl_reverse]
  congr 1
  funext x n
  exact Nat.add_comm _ _

theorem toNatLE_zeros : ∀ {z : Bytes}, z.all (· == 0) = true → toNatLE z = 0
  | [], _ => rfl
  | x :: z, hz => by
    rw [List.all_cons, Bool.and_eq_true, beq_iff_eq] at hz
    change x.toNat + 256 * toNatLE z = 0
    rw [toNatLE_zeros hz.2, hz.1]
    rfl

theorem toNatLE_append_zeros (b : Bytes) {z : Bytes} (hz : z.all (· == 0) = true) :
    toNatLE (b ++ z) = toNatLE b := by
  induction b with
  | nil => exact toNatLE_zeros hz
  | cons x b ih => exact congrArg (fun n => x.toNat + 256 * n) ih

/-- Pieces of `size` bytes, the last one possibly shorter. -/
def chunks (size : Nat) (b : Bytes) : List Bytes :=
  match size, b with
  | 0, _ => []
  | _, [] => []
  | n + 1, x :: rest => (x :: rest.take n) :: chunks (n + 1) (rest.drop n)
termination_by b.length
decreasing_by simp only [List.length_drop, List.length_cons]; omega

/-- The UTF-8 bytes of a text. -/
def ofText (s : String) : Bytes := s.toByteArray.data.toList

/-- The text whose UTF-8 bytes are `b`, if there is one. -/
def toText? (b : Bytes) : Option String := String.fromUTF8? ⟨b.toArray⟩

/-- ASCII whitespace: tab, line feed, form feed, carriage return and blank. -/
def isBlank (b : UInt8) : Bool := b == 9 || b == 10 || b == 12 || b == 13 || b == 32

/-- Drops ASCII whitespace at both ends. -/
def trim (b : Bytes) : Bytes :=
  ((b.dropWhile isBlank).reverse.dropWhile isBlank).reverse

theorem toText?_ofText (s : String) : toText? (ofText s) = some s := by
  have e : (⟨s.toByteArray.data.toList.toArray⟩ : ByteArray) = s.toByteArray := by simp
  simp [toText?, ofText, String.fromUTF8?, String.fromUTF8, e, s.isValidUTF8]

theorem ofText_injective : Function.Injective ofText := by
  intro s t h
  have h' := congrArg toText? h
  rwa [toText?_ofText, toText?_ofText, Option.some_inj] at h'

theorem ofText_of_toText? {b : Bytes} {s : String} (h : toText? b = some s) : ofText s = b := by
  simp only [toText?, String.fromUTF8?] at h
  split at h
  · cases h; simp [ofText, String.fromUTF8]
  · cases h

end Bytes

end AttestedVault
