import AttestedVault.Bytes

/-!
# Reading damaged UTF-8

Any byte string can be shown as a text: each longest stretch that starts like
a character but does not complete one is shown as U+FFFD.
-/

namespace AttestedVault.Text

/-- The range that the second byte must lie in, and the count of continuation
bytes, for a leading byte. -/
def leading? (b : UInt8) : Option (UInt8 × UInt8 × Nat) :=
  if 0xc2 ≤ b ∧ b ≤ 0xdf then some (0x80, 0xbf, 1)
  else if b = 0xe0 then some (0xa0, 0xbf, 2)
  else if b = 0xed then some (0x80, 0x9f, 2)
  else if 0xe1 ≤ b ∧ b ≤ 0xef then some (0x80, 0xbf, 2)
  else if b = 0xf0 then some (0x90, 0xbf, 3)
  else if b = 0xf4 then some (0x80, 0x8f, 3)
  else if 0xf1 ≤ b ∧ b ≤ 0xf3 then some (0x80, 0xbf, 3)
  else none

/-- Reads up to `n` continuation bytes, the first of them in the range. -/
def continuation (lo hi : UInt8) : (n : Nat) → Bytes → Bytes
  | 0, _ => []
  | n + 1, b :: rest => if lo ≤ b ∧ b ≤ hi then b :: continuation 0x80 0xbf n rest else []
  | _ + 1, [] => []

/-- The text shown for `b`. -/
def lossyChars : Bytes → List Char
  | [] => []
  | b :: rest =>
    if b < 0x80 then Char.ofNat b.toNat :: lossyChars rest
    else
      match leading? b with
      | none => '\ufffd' :: lossyChars rest
      | some (lo, hi, n) =>
        let tail := continuation lo hi n rest
        let first := b.toNat % (1 <<< (6 - n))
        let c := if tail.length = n
          then Char.ofNat (tail.foldl (fun m x => 64 * m + x.toNat % 64) first) else '\ufffd'
        c :: lossyChars (rest.drop tail.length)
termination_by b => b.length
decreasing_by all_goals simp; try omega

def lossy (b : Bytes) : String := String.ofList (lossyChars b)

end AttestedVault.Text
