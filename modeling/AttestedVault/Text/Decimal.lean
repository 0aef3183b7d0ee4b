/-!
# Decimal numbers

Numbers of 64 bits in decimal digits. A plus sign may stand before them.
-/

namespace AttestedVault.Text

def isDigit (c : Char) : Bool := '0' ≤ c && c ≤ '9'

def ofDigits (ds : List Char) : Nat := ds.foldl (fun n c => 10 * n + (c.toNat - 48)) 0

/-- At least one digit, and a value below `2 ^ 64`. -/
def digits64? (ds : List Char) : Option Nat :=
  if ds ≠ [] ∧ ds.all isDigit ∧ ofDigits ds ≤ 0xffffffffffffffff then some (ofDigits ds) else none

def decimal64? : List Char → Option Nat
  | '+' :: ds => digits64? ds
  | ds => digits64? ds

end AttestedVault.Text
