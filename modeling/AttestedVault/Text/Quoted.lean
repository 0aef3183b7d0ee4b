import AttestedVault.Text.Hidden

/-!
# Quoted text

Texts in quotes, as diagnostics show them: a backslash marks quotes, itself
and line ends, and hidden characters appear as code points.
-/

namespace AttestedVault.Text

/-- The code point in lower case hexadecimal, between braces. -/
def codePoint (c : Char) : List Char :=
  '\\' :: 'u' :: '\x7b' :: (Nat.toDigits 16 c.toNat ++ ['\x7d'])

/-- A character between quotes, of which those in `quotes` need a mark. -/
def escape (quotes : List Char) (c : Char) : List Char :=
  if c = '\x00' then ['\\', '0']
  else if c = '\t' then ['\\', 't']
  else if c = '\r' then ['\\', 'r']
  else if c = '\n' then ['\\', 'n']
  else if c = '\\' ∨ c ∈ quotes then ['\\', c]
  else if isHidden c then codePoint c
  else [c]

/-- A single character in single quotes. -/
def quoteChar (c : Char) : String := String.ofList ('\'' :: escape ['\''] c ++ ['\''])

/-- A text in double quotes. -/
def quote (s : String) : String := String.ofList ('"' :: s.toList.flatMap (escape ['"']) ++ ['"'])

end AttestedVault.Text
