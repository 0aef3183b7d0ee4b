import AttestedVault.Der.Oid

/-!
# Distinguished names

Names are compared as read: by attribute types, by values and by the tags of
the values. Attributes that stand together are a set, kept in ascending order.
-/

namespace AttestedVault.Certificate

open Der

structure Attribute where
  type : Oid
  value : Element
  deriving DecidableEq, Repr

def Attribute.content (a : Attribute) : Bytes := a.type.toDer ++ a.value.toDer

def Attribute.toDer (a : Attribute) : Bytes := write 0x30 a.content

def Attribute.read : Parser Attribute :=
  inside 0x30 do
    let type ← Oid.read
    let value ← readElement
    pure ⟨type, value⟩

/-- Puts `a` into its place in an ascending list; it must not be there yet. -/
def insertAttribute (a : Attribute) : List Attribute → Option (List Attribute)
  | [] => some [a]
  | b :: rest =>
    if a = b then none
    else if a.toDer < b.toDer then some (a :: b :: rest)
    else (insertAttribute a rest).map (b :: ·)

/-- The attributes in ascending order, if no two are equal. -/
def sortAttributes : List Attribute → Option (List Attribute)
  | [] => some []
  | a :: rest => (sortAttributes rest).bind (insertAttribute a)

/-- Attributes that stand together. -/
abbrev Rdn := List Attribute

def readRdn : Parser Rdn := do
  let attributes ← Der.list 0x31 Attribute.read
  StateT.lift (sortAttributes attributes)

def rdnToDer (r : Rdn) : Bytes := write 0x31 (r.flatMap Attribute.toDer)

abbrev Name := List Rdn

def readName : Parser Name := Der.list 0x30 readRdn

def nameToDer (n : Name) : Bytes := write 0x30 (n.flatMap rdnToDer)

end AttestedVault.Certificate
