import AttestedVault.Key.Version
import AttestedVault.Manager.Effect

/-!
# Fresh keys and initial values

Every seal uses an initial value that is drawn for it alone.
-/

namespace AttestedVault

def generateDek : Action CryptoError Dek := do
  pure ⟨← Action.draw 32⟩

/-- Wraps a key under a drawn initial value. -/
def wrapDek (dek : Dek) (key : MasterKey) (c : Option WrapContext) :
    Action CryptoError WrappedDek := do
  let iv ← Action.draw 12
  let sealed ← Action.ask (.seal key.bytes iv.val dek.bytes.val (WrapContext.aad? c))
  pure (WrappedDek.ofSealed iv sealed)

/-- Seals a credential under a drawn initial value. The key's length is looked
at after the draw. -/
def sealCredential (key plaintext : Bytes) : Action CryptoError Sealed := do
  let iv ← Action.draw 16
  match Octets.ofBytes? 32 key with
  | none => throw (.keyLength key.length)
  | some k => Action.ask (.seal k iv.val plaintext [])

/-- A new active record for a wrapped key. -/
def newRecord (w : WrappedDek) (key : MasterKeyId) (version : String) : Prog KeyRecord := do
  let (id, time) ← Prog.ask .stamp
  pure (KeyRecord.make id time w key version)

/-- Wraps a key for the store, bound to the id of the master key and the version. -/
def sealRecord (dek : Dek) (key : MasterKey) (version : String) : Action CryptoError KeyRecord := do
  let w ← wrapDek dek key (some ⟨key.id, version⟩)
  ExceptT.lift (newRecord w key.id version)

end AttestedVault
