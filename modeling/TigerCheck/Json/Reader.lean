import TigerCheck.Json

/-!
# Reading JSON

The strict format: no comma after a last item, no comments, no sign or zero in front of a number
but `-`, no control characters within quotes, and only blanks around the value.

* `Json.stringBody`: the pieces of a string up to its closing quote.
* `Json.textOf?`: the text that the pieces denote, if the surrogates among them pair up.
* `Json.number`: a number, an integer where its spelling is that of one.
* `Json.value`, `Json.elements`, `Json.members`: values, and the insides of lists and objects.
* `Json.parse?`: the value that a whole text spells.
-/

namespace TigerCheck

namespace Json

/-- A text without the blanks at its front. -/
def skipBlanks (cs : List Char) : List Char := cs.dropWhile isBlank

/-! ## Strings -/

/-- What can stand within quotes: a character, or a 16-bit unit written by number. -/
inductive Piece where
  | char (c : Char)
  | unit (n : Nat)
deriving DecidableEq

/-- The value of a hexadecimal digit of either case. -/
def hexValue? (c : Char) : Option Nat :=
  if '0' ≤ c ∧ c ≤ '9' then some (c.toNat - 48)
  else if 'a' ≤ c ∧ c ≤ 'f' then some (c.toNat - 87)
  else if 'A' ≤ c ∧ c ≤ 'F' then some (c.toNat - 55)
  else none

/-- The number that four hexadecimal digits write. -/
def hexUnit? (a b c d : Char) : Option Nat := do
  let a ← hexValue? a
  let b ← hexValue? b
  let c ← hexValue? c
  let d ← hexValue? d
  return ((a * 16 + b) * 16 + c) * 16 + d

/-- The character that a one-letter escape stands for. -/
def escapeChar? (c : Char) : Option Char :=
  if c = '"' ∨ c = '\\' ∨ c = '/' then some c
  else if c = 'b' then some (Char.ofNat 8)
  else if c = 'f' then some (Char.ofNat 12)
  else if c = 'n' then some '\n'
  else if c = 'r' then some '\r'
  else if c = 't' then some '\t'
  else none

/-- The pieces of a string up to its closing quote, and the text behind the quote. -/
def stringBody : List Char → Option (List Piece × List Char)
  | [] => none
  | '"' :: rest => some ([], rest)
  | '\\' :: rest =>
    match rest with
    | 'u' :: a :: b :: c :: d :: rest => do
      let n ← hexUnit? a b c d
      let (ps, rest) ← stringBody rest
      return (.unit n :: ps, rest)
    | e :: rest => do
      let c ← escapeChar? e
      let (ps, rest) ← stringBody rest
      return (.char c :: ps, rest)
    | [] => none
  | c :: rest =>
    if c.toNat < 32 then none
    else do
      let (ps, rest) ← stringBody rest
      return (.char c :: ps, rest)

/-- The first half of a surrogate pair. -/
def isHighSurrogate (n : Nat) : Bool := 0xD800 ≤ n && n ≤ 0xDBFF

/-- The second half of a surrogate pair. -/
def isLowSurrogate (n : Nat) : Bool := 0xDC00 ≤ n && n ≤ 0xDFFF

/-- The characters that the pieces of a string denote. Two units that form a surrogate pair denote one
character; half a pair denotes none. -/
def charsOf? : List Piece → Option (List Char)
  | [] => some []
  | .char c :: ps => (c :: ·) <$> charsOf? ps
  | .unit n :: ps =>
    if isHighSurrogate n then
      match ps with
      | .unit m :: ps =>
        if isLowSurrogate m then
          (Char.ofNat (0x10000 + (n - 0xD800) * 0x400 + (m - 0xDC00)) :: ·) <$> charsOf? ps
        else none
      | _ => none
    else if isLowSurrogate n then none
    else (Char.ofNat n :: ·) <$> charsOf? ps

/-- The text that the pieces of a string denote. -/
def textOf? (ps : List Piece) : Option String := String.ofList <$> charsOf? ps

/-! ## Numbers -/

/-- A decimal digit. -/
def isDigit (c : Char) : Bool := '0' ≤ c && c ≤ '9'

/-- The number that decimal digits write, most significant digit first. -/
def digitsValue (ds : List Char) : Nat := ds.foldl (fun n c => n * 10 + (c.toNat - 48)) 0

/-- Whether digits may stand in front of the point: at least one, and no zero before others. -/
def isWhole : List Char → Bool
  | [] => false
  | ['0'] => true
  | c :: _ => c != '0'

/-- A point and digits, if the text begins with a point. -/
def fraction : List Char → Option (List Char × List Char)
  | '.' :: rest =>
    let ds := rest.takeWhile isDigit
    if ds.isEmpty then none else some ('.' :: ds, rest.dropWhile isDigit)
  | cs => some ([], cs)

/-- The sign of an exponent, which may be missing. -/
def exponentSign : List Char → List Char × List Char
  | '+' :: rest => (['+'], rest)
  | '-' :: rest => (['-'], rest)
  | cs => ([], cs)

/-- A letter `e` of either case, a sign and digits, if the text begins with such a letter. -/
def exponent : List Char → Option (List Char × List Char)
  | cs@(e :: rest) =>
    if e = 'e' ∨ e = 'E' then
      let (sign, rest) := exponentSign rest
      let ds := rest.takeWhile isDigit
      if ds.isEmpty then none else some (e :: sign ++ ds, rest.dropWhile isDigit)
    else some ([], cs)
  | [] => some ([], [])

/-- The number that a sign, digits, a fraction and an exponent spell. -/
def numberOf (negative : Bool) (whole frac exp : List Char) : Json :=
  let n := digitsValue whole
  if frac.isEmpty ∧ exp.isEmpty ∧ ¬(negative ∧ n = 0) then
    int (if negative then -(n : Int) else n)
  else
    decimal (String.ofList ((if negative then ['-'] else []) ++ whole ++ frac ++ exp))

/-- A number at the front of a text behind its sign. -/
def unsigned (negative : Bool) (cs : List Char) : Option (Json × List Char) := do
  let whole := cs.takeWhile isDigit
  if isWhole whole then
    let (frac, rest) ← fraction (cs.dropWhile isDigit)
    let (exp, rest) ← exponent rest
    return (numberOf negative whole frac exp, rest)
  else none

/-- A number at the front of a text. -/
def number : List Char → Option (Json × List Char)
  | '-' :: rest => unsigned true rest
  | cs => unsigned false cs

/-! ## Values -/

/-- The object of some members, if each of its keys denotes a text. -/
def object (ms : List (List Piece × Json)) : Json :=
  match ms.mapM fun (k, v) => (textOf? k).map (·, v) with
  | some members => obj members
  | none => unpaired

/-- The value that the pieces of a string denote. -/
def string (ps : List Piece) : Json :=
  match textOf? ps with
  | some s => str s
  | none => unpaired

mutual

/-- A value at the front of a text, behind blanks, and the text behind it. Each step takes a
character or goes one rule down, and the first argument bounds the number of steps. -/
def value : Nat → List Char → Option (Json × List Char)
  | 0, _ => none
  | steps + 1, cs =>
    match skipBlanks cs with
    | '{' :: rest =>
      match skipBlanks rest with
      | '}' :: rest => some (obj [], rest)
      | _ => (fun (ms, rest) => (object ms, rest)) <$> members steps rest
    | '[' :: rest =>
      match skipBlanks rest with
      | ']' :: rest => some (arr [], rest)
      | _ => (fun (vs, rest) => (arr vs, rest)) <$> elements steps rest
    | '"' :: rest => (fun (ps, rest) => (string ps, rest)) <$> stringBody rest
    | 't' :: 'r' :: 'u' :: 'e' :: rest => some (bool true, rest)
    | 'f' :: 'a' :: 'l' :: 's' :: 'e' :: rest => some (bool false, rest)
    | 'n' :: 'u' :: 'l' :: 'l' :: rest => some (null, rest)
    | cs => number cs

/-- The items of a list up to its closing bracket: at least one, with commas between them. -/
def elements : Nat → List Char → Option (List Json × List Char)
  | 0, _ => none
  | steps + 1, cs => do
    let (v, rest) ← value steps cs
    match skipBlanks rest with
    | ',' :: rest =>
      let (vs, rest) ← elements steps rest
      return (v :: vs, rest)
    | ']' :: rest => return ([v], rest)
    | _ => none

/-- The members of an object up to its closing brace: at least one, with commas between them. -/
def members : Nat → List Char → Option (List (List Piece × Json) × List Char)
  | 0, _ => none
  | steps + 1, cs =>
    match skipBlanks cs with
    | '"' :: rest => do
      let (k, rest) ← stringBody rest
      match skipBlanks rest with
      | ':' :: rest =>
        let (v, rest) ← value steps rest
        match skipBlanks rest with
        | ',' :: rest =>
          let (ms, rest) ← members steps rest
          return ((k, v) :: ms, rest)
        | '}' :: rest => return ([(k, v)], rest)
        | _ => none
      | _ => none
    | _ => none

end

/-- The value that a text spells; only blanks may stand behind it. A value of `n` characters takes
at most two steps for each of them. -/
def parse? (text : String) : Option Json :=
  let cs := text.toList
  match value (2 * cs.length + 2) cs with
  | some (v, rest) => if (skipBlanks rest).isEmpty then some v else none
  | none => none

end Json

end TigerCheck
