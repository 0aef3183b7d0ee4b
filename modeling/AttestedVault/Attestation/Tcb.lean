import AttestedVault.Bytes

/-!
# Firmware levels

The security patch levels of a platform's firmware components, packed into
eight bytes of a report.
-/

namespace AttestedVault

structure TcbVersion where
  bootLoader : UInt8
  tee : UInt8
  snp : UInt8
  microcode : UInt8
  deriving DecidableEq, Repr

namespace TcbVersion

/-- The four bytes in the middle are reserved. -/
def ofBytes : Octets 8 → TcbVersion
  | ⟨[b, t, _, _, _, _, s, m], _⟩ => ⟨b, t, s, m⟩

def toBytes (v : TcbVersion) : Octets 8 :=
  ⟨[v.bootLoader, v.tee, 0, 0, 0, 0, v.snp, v.microcode], rfl⟩

end TcbVersion

end AttestedVault
