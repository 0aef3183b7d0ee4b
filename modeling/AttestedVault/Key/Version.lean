import AttestedVault.Text.Decimal

/-!
# Version labels

Data encryption keys are labelled `v1`, `v2`, … in the order of rotation.
-/

namespace AttestedVault.KeyVersion

/-- The label of the first key. -/
def first : String := "v1"

/-- The number in a label. -/
def number? (label : String) : Option Nat :=
  match label.toList with
  | 'v' :: rest => Text.decimal64? rest
  | _ => none

/-- The label after this one. The largest number is followed by itself, and a
label without a number counts as the first. -/
def next (label : String) : String :=
  "v" ++ toString (min ((number? label).getD 1 + 1) 0xffffffffffffffff)

end AttestedVault.KeyVersion
