import AttestedVault.Digest.Sha2

/-!
# Random bytes

A source of random bytes as a table of what it yields: for each length, the
draws of that length in order. Any draw may fail.
-/

namespace AttestedVault

structure Random where
  octets : (length : Nat) → (number : Nat) → Octets length
  /-- The reason for which the draw of this number, of any length, fails. -/
  fails : Nat → Option String
  attempts : Nat
  /-- The lengths of the draws that succeeded. -/
  drawn : List Nat

namespace Random

/-- A draw that fails uses up nothing of what the source would have yielded. -/
def draw (n : Nat) (r : Random) : Except String (Octets n) × Random :=
  let after := { r with attempts := r.attempts + 1 }
  match r.fails r.attempts with
  | some reason => (.error reason, after)
  | none => (.ok (r.octets n (r.drawn.count n)), { after with drawn := n :: r.drawn })

/-- The text whose digest a repeatable source yields. -/
def label (seed : String) (length number : Nat) : String :=
  seed ++ ":" ++ toString length ++ ":" ++ toString number

/-- A repeatable source for lengths up to 32, which fails after `limit` draws. -/
def ofSeed (seed : String) (limit : Option Nat) : Random where
  octets length number := Octets.ofBytes length (sha256 (Bytes.ofText (label seed length number))).val
  fails number := if limit.any (· ≤ number) then some "injected RNG failure" else none
  attempts := 0
  drawn := []

end Random

end AttestedVault
