import AttestedVault.Der.Basic

/-!
# Bit strings

Octets of which up to seven bits at the end do not count. Those bits may have
any value and keep it.
-/

namespace AttestedVault.Der

structure BitString where
  unused : UInt8
  octets : Bytes
  deriving DecidableEq, Repr

namespace BitString

def ofContent : Bytes → Option BitString
  | [] => none
  | unused :: octets =>
    if 7 < unused ∨ (unused ≠ 0 ∧ octets = []) then none else some ⟨unused, octets⟩

def content (s : BitString) : Bytes := s.unused :: s.octets

/-- A bit string with this tag in place of its own. -/
def readAs (tag : UInt8) : Parser BitString := do
  let content ← Der.read tag
  StateT.lift (ofContent content)

def read : Parser BitString := readAs 0x03

def toDer (s : BitString) : Bytes := write 0x03 s.content

/-- The octets, if all bits of the last one count. -/
def aligned? (s : BitString) : Option Bytes := if s.unused = 0 then some s.octets else none

end BitString

end AttestedVault.Der
