import AttestedVault.Hex

/-!
# Master key ids

The name of a master key that records carry: eight bytes, written as sixteen
hexadecimal digits.
-/

namespace AttestedVault

structure MasterKeyId where
  bytes : Octets 8
  deriving DecidableEq

namespace MasterKeyId

inductive ParseError
  | length (got : Nat)
  | digits (cause : Hex.Error)
  deriving DecidableEq, Repr

def ParseError.message : ParseError → String
  | .length got => "expected 16 hex chars, got " ++ toString got
  | .digits cause => cause.message

def toHex (id : MasterKeyId) : String := Hex.encode id.bytes.val

/-- Reads sixteen digits of either case. The length counts the text's UTF-8 bytes. -/
def parse (text : String) : Except ParseError MasterKeyId :=
  let b := Bytes.ofText text
  if b.length = 16 then
    match Hex.decode b with
    | .ok id => .ok ⟨Octets.ofBytes 8 id⟩
    | .error e => .error (.digits e)
  else .error (.length b.length)

/-- As diagnostics show it. -/
def debug (id : MasterKeyId) : String := "MasterKeyId(" ++ id.toHex ++ ")"

end MasterKeyId

end AttestedVault
