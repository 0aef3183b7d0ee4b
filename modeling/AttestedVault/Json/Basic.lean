/-!
# JSON values

Values as far as the formats here look into them, and reading a record of named
fields out of an object or out of an array.
-/

namespace AttestedVault

/-- `text none` is a string with an unpaired surrogate, which is well-formed but
no text. `number` is a number with a sign, a fraction or an exponent. -/
inductive Json
  | null
  | bool (b : Bool)
  | nat (n : Nat)
  | number
  | text (s : Option String)
  | array (items : List Json)
  | object (fields : List (Option String × Json))

namespace Json

def text? : Json → Option String
  | .text s => s
  | _ => none

def bool? : Json → Option Bool
  | .bool b => some b
  | _ => none

/-- A number of 64 bits without a sign. -/
def nat64? : Json → Option Nat
  | .nat n => if n ≤ 0xffffffffffffffff then some n else none
  | _ => none

/-- `null` stands for an absent text. -/
def optionalText? : Json → Option (Option String)
  | .null => some none
  | .text (some s) => some (some s)
  | _ => none

/-- The value of the only field of that name, if there is one; `none` if there
are several. -/
def lookup (fields : List (Option String × Json)) (name : String) : Option (Option Json) :=
  match fields.filter fun f => f.1 = some name with
  | [] => some none
  | [f] => some (some f.2)
  | _ => none

/-- The values of named fields. An object may have other fields too; an array
gives the values in the order of the names and may end early. -/
def record? (names : List String) : Json → Option (List (Option Json))
  | .object fields =>
    if fields.all fun f => f.1.isSome then names.mapM (lookup fields) else none
  | .array items =>
    if items.length ≤ names.length then
      some (items.map some ++ List.replicate (names.length - items.length) none)
    else none
  | _ => none

/-- A field with a default for its absence. -/
def orElse {α : Type} (read : Json → Option α) (default : α) : Option Json → Option α
  | none => some default
  | some j => read j

end Json

end AttestedVault
