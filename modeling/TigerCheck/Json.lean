/-!
# JSON values

Values as a text spells them: the members of an object keep their order, and a key may occur more
than once. Numbers with a fraction or an exponent keep their spelling, because nothing here computes
with them.

* `Json`: the values.
* `Json.isBlank`: the white space of the format.
* `Json.quoteTo`, `Json.compactTo`, `Json.prettyTo`: the text of a value, put in front of a text.
* `Json.compact`, `Json.pretty`: the text without blanks, and the text over several lines with two
  blanks for each level.
-/

namespace TigerCheck

/-- JSON values. -/
inductive Json where
  | null
  | bool (b : Bool)
  | int (n : Int)
  /-- A number that is not spelled as an integer: it has a fraction or an exponent, or is `-0`. -/
  | decimal (spelling : String)
  | str (s : String)
  /-- A string, or an object with a key, that denotes no text, because an escape in it gives one half
  of a surrogate pair without the other. -/
  | unpaired
  | arr (items : List Json)
  | obj (members : List (String × Json))
deriving Inhabited

namespace Json

/-- White space between the tokens of a text. -/
def isBlank (c : Char) : Bool := c == ' ' || c == '\n' || c == '\t' || c == '\r'

/-- The hexadecimal digit of a number below sixteen, in lower case. -/
def hexDigit (n : Nat) : Char :=
  if n < 10 then Char.ofNat (48 + n) else Char.ofNat (87 + n)

/-- The spelling of a character within quotes: the two signs that end or escape a string, and the
characters below the blank, are escaped. -/
def escaped (c : Char) : List Char :=
  if c = '"' then ['\\', '"']
  else if c = '\\' then ['\\', '\\']
  else if c = '\n' then ['\\', 'n']
  else if c = '\r' then ['\\', 'r']
  else if c = '\t' then ['\\', 't']
  else if c.toNat = 8 then ['\\', 'b']
  else if c.toNat = 12 then ['\\', 'f']
  else if c.toNat < 32 then ['\\', 'u', '0', '0', hexDigit (c.toNat / 16), hexDigit (c.toNat % 16)]
  else [c]

/-- The characters of a string with their escapes, in front of a text. -/
def escapeTo : List Char → List Char → List Char
  | [], rest => rest
  | c :: cs, rest => escaped c ++ escapeTo cs rest

/-- A quoted string in front of a text. -/
def quoteTo (s : String) (rest : List Char) : List Char :=
  '"' :: escapeTo s.toList ('"' :: rest)

mutual

/-- The text of a value without blanks, in front of a text. -/
def compactTo : Json → List Char → List Char
  | null, rest => 'n' :: 'u' :: 'l' :: 'l' :: rest
  | bool true, rest => 't' :: 'r' :: 'u' :: 'e' :: rest
  | bool false, rest => 'f' :: 'a' :: 'l' :: 's' :: 'e' :: rest
  | int n, rest => (toString n).toList ++ rest
  | decimal s, rest => s.toList ++ rest
  | str s, rest => quoteTo s rest
  | unpaired, rest => '"' :: '\\' :: 'u' :: 'd' :: '8' :: '0' :: '0' :: '"' :: rest
  | arr [], rest => '[' :: ']' :: rest
  | arr (v :: vs), rest => '[' :: compactTo v (compactItemsTo vs rest)
  | obj [], rest => '{' :: '}' :: rest
  | obj ((k, v) :: ms), rest => '{' :: quoteTo k (':' :: compactTo v (compactMembersTo ms rest))

/-- The items after the first, each behind a comma, and the closing bracket. -/
def compactItemsTo : List Json → List Char → List Char
  | [], rest => ']' :: rest
  | v :: vs, rest => ',' :: compactTo v (compactItemsTo vs rest)

/-- The members after the first, each behind a comma, and the closing brace. -/
def compactMembersTo : List (String × Json) → List Char → List Char
  | [], rest => '}' :: rest
  | (k, v) :: ms, rest => ',' :: quoteTo k (':' :: compactTo v (compactMembersTo ms rest))

end

/-- A line break and the blanks of a level, in front of a text. -/
def breakTo (level : Nat) (rest : List Char) : List Char :=
  '\n' :: (List.replicate (2 * level) ' ' ++ rest)

mutual

/-- The text of a value over several lines, in front of a text; the value begins on a line of the
given level. Empty lists and objects stay on their line. -/
def prettyTo (level : Nat) : Json → List Char → List Char
  | arr (v :: vs), rest =>
    '[' :: breakTo (level + 1) (prettyTo (level + 1) v (prettyItemsTo level vs rest))
  | obj ((k, v) :: ms), rest =>
    '{' :: breakTo (level + 1)
      (quoteTo k (':' :: ' ' :: prettyTo (level + 1) v (prettyMembersTo level ms rest)))
  | j, rest => compactTo j rest

/-- The items after the first, each on a line of its own, and the closing bracket. -/
def prettyItemsTo (level : Nat) : List Json → List Char → List Char
  | [], rest => breakTo level (']' :: rest)
  | v :: vs, rest =>
    ',' :: breakTo (level + 1) (prettyTo (level + 1) v (prettyItemsTo level vs rest))

/-- The members after the first, each on a line of its own, and the closing brace. -/
def prettyMembersTo (level : Nat) : List (String × Json) → List Char → List Char
  | [], rest => breakTo level ('}' :: rest)
  | (k, v) :: ms, rest =>
    ',' :: breakTo (level + 1)
      (quoteTo k (':' :: ' ' :: prettyTo (level + 1) v (prettyMembersTo level ms rest)))

end

/-- The text of a value without blanks. -/
def compact (j : Json) : String := String.ofList (compactTo j [])

/-- The text of a value over several lines. -/
def pretty (j : Json) : String := String.ofList (prettyTo 0 j [])

/-- A natural number as a value. -/
def nat (n : Nat) : Json := int n

/-- A value that may be missing, with `null` in its stead. -/
def ofOption {α : Type} (f : α → Json) : Option α → Json
  | none => null
  | some a => f a

end Json

end TigerCheck
