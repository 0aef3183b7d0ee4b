import AttestedVault.Database.Cell

/-!
# Table definitions

The statements by which a database file keeps what its tables and indexes are:
names of columns, declared types, and the constraints on new rows.
-/

namespace AttestedVault.Database

/-! ## Words of a statement -/

inductive Token
  /-- A name or a keyword. -/
  | word (s : String)
  /-- A name in quotes, which is no keyword. -/
  | name (s : String)
  | literal (s : String)
  | number (s : String)
  | sign (c : Char)
  deriving DecidableEq, Repr

namespace Token

def startsWord (c : Char) : Bool := c.isAlpha || c == '_' || 127 < c.toNat

def inWord (c : Char) : Bool := startsWord c || c.isDigit || c == '$'

/-- The closing quote for an opening one. -/
def closing? (c : Char) : Option Char :=
  if c = '"' ∨ c = '\'' ∨ c = '\x60' then some c else if c = '[' then some ']' else none

/-- Reads up to a closing quote, which counts as text where it is doubled. -/
def quoted (close : Char) : List Char → Option (List Char × List Char)
  | [] => none
  | [c] => if c = close then some ([], []) else none
  | c :: d :: rest =>
    if c ≠ close then (quoted close (d :: rest)).map fun (s, rest) => (c :: s, rest)
    else if d = close ∧ close ≠ ']' then (quoted close rest).map fun (s, rest) => (c :: s, rest)
    else some ([], d :: rest)

/-- What follows a comment's end. -/
def afterComment : List Char → List Char
  | '*' :: '/' :: rest => rest
  | _ :: rest => afterComment rest
  | [] => []

/-- The tokens of a text, with at most `fuel` steps. -/
def read : (fuel : Nat) → List Char → Option (List Token)
  | _, [] => some []
  | 0, _ :: _ => none
  | fuel + 1, '-' :: '-' :: rest => read fuel (rest.dropWhile (· ≠ '\n'))
  | fuel + 1, '/' :: '*' :: rest => read fuel (afterComment rest)
  | fuel + 1, c :: rest =>
    if c.isWhitespace ∨ c = '\x0b' ∨ c = '\x0c' then read fuel rest
    else if startsWord c then
      (read fuel (rest.dropWhile inWord)).map
        (.word (String.ofList (c :: rest.takeWhile inWord)) :: ·)
    else if c.isDigit ∨ c = '.' then
      let more := fun (d : Char) => inWord d || d == '.'
      (read fuel (rest.dropWhile more)).map
        (.number (String.ofList (c :: rest.takeWhile more)) :: ·)
    else
      match closing? c with
      | some close =>
        match quoted close rest with
        | none => none
        | some (s, rest) =>
          let s := String.ofList s
          (read fuel rest).map ((if c = '\'' then .literal s else .name s) :: ·)
      | none => (read fuel rest).map (.sign c :: ·)

def ofText? (s : String) : Option (List Token) := read s.length s.toList

/-- Names and keywords do not depend on the case of ASCII letters. -/
def lower (s : String) : String := String.ofList (s.toList.map Char.toLower)

/-- The token is this keyword. -/
def isWord (s : String) : Token → Bool
  | .word t => lower t == s
  | _ => false

/-- The name that a token stands for, in lower case. -/
def toName? : Token → Option String
  | .word s | .name s | .literal s => some (lower s)
  | _ => none

/-- Splits behind the bracket that closes the innermost of `depth + 1` open ones. -/
def closeGroup : (depth : Nat) → List Token → Option (List Token × List Token)
  | _, [] => none
  | depth, .sign ')' :: rest =>
    match depth with
    | 0 => some ([], rest)
    | depth + 1 => (closeGroup depth rest).map fun (a, b) => (.sign ')' :: a, b)
  | depth, .sign '(' :: rest =>
    (closeGroup (depth + 1) rest).map fun (a, b) => (.sign '(' :: a, b)
  | depth, t :: rest => (closeGroup depth rest).map fun (a, b) => (t :: a, b)

/-- The parts between the commas that stand in no bracket. -/
def parts : (depth : Nat) → List Token → List (List Token)
  | _, [] => [[]]
  | depth, t :: rest =>
    let ps := parts (if t = .sign '(' then depth + 1 else if t = .sign ')' then depth - 1 else depth)
      rest
    if t = .sign ',' ∧ depth = 0 then [] :: ps
    else
      match ps with
      | p :: ps => (t :: p) :: ps
      | [] => [[t]]

/-- What follows a bracketed group, if one stands here. -/
def afterGroup : List Token → List Token
  | .sign '(' :: rest => ((closeGroup 0 rest).map (·.2)).getD []
  | ts => ts

/-- The names that lead the parts of a bracketed group. -/
def groupNames : List Token → List String
  | .sign '(' :: rest =>
    match closeGroup 0 rest with
    | some (inside, _) => (parts 0 inside).filterMap fun p => p.head?.bind toName?
    | none => []
  | _ => []

end Token

/-! ## Columns -/

structure Column where
  name : String
  affinity : Affinity
  required : Bool
  default : Cell
  /-- The column stands for the number of the row. -/
  rowNumber : Bool
  deriving DecidableEq, Repr

/-- Columns that no two rows may agree on. A row with a null in one of them is
free, and so is one that is not active if only active rows count. -/
structure UniqueKey where
  columns : List String
  activeOnly : Bool
  deriving DecidableEq, Repr

structure TableDefinition where
  columns : List Column
  keys : List UniqueKey
  /-- Rows are not numbered but ordered by the columns of the primary key. -/
  ordered : List String
  deriving DecidableEq, Repr

namespace TableDefinition

/-- The words that end a declared type. -/
def constraintWords : List String :=
  ["constraint", "primary", "not", "null", "unique", "check", "default", "collate", "references",
    "generated", "as"]

/-- The declared type, and what follows it. -/
def declaredType : List Token → List String × List Token
  | .word s :: rest =>
    if Token.lower s ∈ constraintWords then ([], .word s :: rest)
    else
      let (more, rest) := declaredType rest
      (s :: more, rest)
  | .name s :: rest | .literal s :: rest =>
    let (more, rest) := declaredType rest
    (s :: more, rest)
  | ts => ([], Token.afterGroup ts)

/-- The value of a default, as far as it is a constant. -/
def constant : List Token → Cell
  | .number s :: _ => (Cell.numeral? s.toList).getD .null
  | .sign '-' :: .number s :: _ => (Cell.numeral? ('-' :: s.toList)).getD .null
  | .sign '+' :: .number s :: _ => (Cell.numeral? s.toList).getD .null
  | .literal s :: _ | .name s :: _ => .ofText s
  | t :: _ => if t.isWord "true" then .integer 1 else if t.isWord "false" then .integer 0 else .null
  | [] => .null

/-- What the constraints behind a column's type say of it. -/
structure Constraints where
  primary : Bool
  descending : Bool
  unique : Bool
  required : Bool
  default : Cell

/-- Reads constraints in at most `fuel` steps. Those without a bearing on new
rows are passed over. -/
def constraints : (fuel : Nat) → List Token → Constraints → Constraints
  | _, [], c => c
  | 0, _ :: _, c => c
  | fuel + 1, t :: rest, c =>
    if t.isWord "primary" then
      let descending := match rest with
        | _ :: d :: _ => d.isWord "desc"
        | _ => false
      constraints fuel (rest.drop 1) { c with primary := true, descending := descending }
    else if t.isWord "not" then constraints fuel (rest.drop 1) { c with required := true }
    else if t.isWord "unique" then constraints fuel rest { c with unique := true }
    else if t.isWord "default" then
      let c := { c with default := constant rest }
      match rest with
      | .sign '(' :: _ => constraints fuel (Token.afterGroup rest) c
      | .sign _ :: rest => constraints fuel (rest.drop 1) c
      | rest => constraints fuel (rest.drop 1) c
    else if t.isWord "constraint" ∨ t.isWord "collate" ∨ t.isWord "references" then
      constraints fuel (rest.drop 1) c
    else if t = .sign '(' then constraints fuel (Token.afterGroup (t :: rest)) c
    else constraints fuel rest c

/-- One part of a definition's list: a column or a constraint on the table. -/
inductive Part
  | column (c : Column) (declared : String) (limits : Constraints)
  | primary (columns : List String)
  | unique (columns : List String)
  | other

def Part.ofTokens? : List Token → Option Part
  | [] => none
  | t :: rest =>
    if t.isWord "constraint" then
      match rest with
      | _ :: u :: rest =>
        if u.isWord "primary" then some (.primary (Token.groupNames (rest.drop 1)))
        else if u.isWord "unique" then some (.unique (Token.groupNames rest))
        else some .other
      | _ => none
    else if t.isWord "primary" then some (.primary (Token.groupNames (rest.drop 1)))
    else if t.isWord "unique" then some (.unique (Token.groupNames rest))
    else if t.isWord "check" ∨ t.isWord "foreign" then some .other
    else
      t.toName?.map fun name =>
        let (declared, rest) := declaredType rest
        let declared := Token.lower (" ".intercalate declared)
        let limits := constraints rest.length rest ⟨false, false, false, false, .null⟩
        let affinity := Affinity.ofType declared
        .column ⟨name, affinity, limits.required, affinity.apply limits.default, false⟩ declared limits

/-- The columns of the primary key. -/
def primaryKey (ps : List Part) : List String :=
  ps.flatMap fun
    | .column c _ limits => if limits.primary then [c.name] else []
    | .primary columns => columns
    | _ => []

/-- A primary key of one whole-number column stands for the number of the row. -/
def rowNumber? (ps : List Part) : Option String :=
  match primaryKey ps with
  | [name] =>
    if ps.any fun
      | .column c declared limits => c.name == name && declared == "integer" && !limits.descending
      | _ => false
    then some name else none
  | _ => none

def ofParts (ps : List Part) (unnumbered : Bool) : TableDefinition :=
  let key := primaryKey ps
  let named := if unnumbered then none else rowNumber? ps
  { columns := ps.filterMap fun
      | .column c _ _ => some { c with
          rowNumber := named == some c.name
          required := c.required || (unnumbered && key.contains c.name) }
      | _ => none
    keys := (if key = [] ∨ named.isSome then [] else [⟨key, false⟩]) ++ ps.filterMap fun
      | .column c _ limits => if limits.unique then some ⟨[c.name], false⟩ else none
      | .unique columns => some ⟨columns, false⟩
      | _ => none
    ordered := if unnumbered then key else [] }

/-- Reads the statement that makes a table. -/
def ofText? (sql : String) : Option TableDefinition := do
  let ts ← Token.ofText? sql
  let start := ts.dropWhile (· ≠ .sign '(')
  let (inside, options) ← Token.closeGroup 0 (start.drop 1)
  let ps ← (Token.parts 0 inside).mapM Part.ofTokens?
  some (ofParts ps (options.any (·.isWord "without")))

end TableDefinition

/-- Reads the statement that makes an index, if it is a unique one whose
condition, if any, is that the row is active. -/
def UniqueKey.ofText? (sql : String) : Option UniqueKey := do
  let ts ← Token.ofText? sql
  if !((ts.drop 1).head?.any (·.isWord "unique")) then none
  else
    let start := ts.dropWhile (· ≠ .sign '(')
    let columns := Token.groupNames start
    let condition := (Token.afterGroup start).filter fun t => t ≠ .sign '(' ∧ t ≠ .sign ')'
    match condition with
    | [] => some ⟨columns, false⟩
    | [w, column, .sign '=', .number "1"] =>
      if w.isWord "where" && column.toName? == some "active" then some ⟨columns, true⟩ else none
    | _ => none

end AttestedVault.Database
