import QiongQi.JsonValues

/-! `JSON.parse` and `JSON.stringify` on documents. Numbers are exact here: a text is not
rounded to the nearest double, and is written out in full. -/
namespace QiongQi.JsonTexts
open JsonValues

def skipSpace (chars : List Char) : List Char :=
  chars.dropWhile fun c => c = ' ' || c = '\n' || c = '\r' || c = '\t'

def hexValue (c : Char) : Option Nat :=
  if '0' ≤ c ∧ c ≤ '9' then some (c.toNat - 48)
  else if 'a' ≤ c ∧ c ≤ 'f' then some (c.toNat - 87)
  else if 'A' ≤ c ∧ c ≤ 'F' then some (c.toNat - 55)
  else none

def escapedUnit (c : Char) : Option Nat :=
  match c with
  | '"' => some 34
  | '\\' => some 92
  | '/' => some 47
  | 'b' => some 8
  | 'f' => some 12
  | 'n' => some 10
  | 'r' => some 13
  | 't' => some 9
  | _ => none

/-- The code units of a string up to its closing quote, and what follows. -/
def stringUnits : List Char → Option (List Nat × List Char)
  | [] => none
  | '"' :: rest => some ([], rest)
  | '\\' :: 'u' :: a :: b :: c :: d :: rest => do
    let unit := 4096 * (← hexValue a) + 256 * (← hexValue b) + 16 * (← hexValue c) + (← hexValue d)
    let later ← stringUnits rest
    some (unit :: later.1, later.2)
  | '\\' :: c :: rest => do
    let unit ← escapedUnit c
    let later ← stringUnits rest
    some (unit :: later.1, later.2)
  | c :: rest =>
    if c.toNat < 32 then none
    else do
      let later ← stringUnits rest
      some (c.toNat :: later.1, later.2)

/-- Joins the halves of a pair; a half without the other has no character here. -/
def unitsToChars : List Nat → List Char
  | high :: low :: rest =>
    if 0xd800 ≤ high ∧ high < 0xdc00 ∧ 0xdc00 ≤ low ∧ low < 0xe000 then
      Char.ofNat (0x10000 + 0x400 * (high - 0xd800) + (low - 0xdc00)) :: unitsToChars rest
    else
      (if 0xd800 ≤ high ∧ high < 0xe000 then Char.ofNat 0xfffd else Char.ofNat high) ::
        unitsToChars (low :: rest)
  | [unit] => [if 0xd800 ≤ unit ∧ unit < 0xe000 then Char.ofNat 0xfffd else Char.ofNat unit]
  | [] => []

def parseString (chars : List Char) : Option (String × List Char) :=
  (stringUnits chars).map fun found => (String.ofList (unitsToChars found.1), found.2)

def digitsValue (digits : List Char) : Nat :=
  digits.foldl (fun value c => 10 * value + (c.toNat - 48)) 0

def isDigit (c : Char) : Bool := '0' ≤ c && c ≤ '9'

def powerOfTen (exponent : Int) : ℚ :=
  if 0 ≤ exponent then (10 : ℚ) ^ exponent.toNat else 1 / (10 : ℚ) ^ (-exponent).toNat

/-- The fraction digits of a number, and what follows. -/
def fractionDigits (chars : List Char) : Option (List Char × List Char) :=
  match chars with
  | '.' :: rest =>
    if (rest.takeWhile isDigit).isEmpty then none
    else some (rest.takeWhile isDigit, rest.dropWhile isDigit)
  | _ => some ([], chars)

/-- The exponent of a number, and what follows. -/
def exponentValue (chars : List Char) : Option (Int × List Char) :=
  match chars with
  | c :: rest =>
    if c = 'e' ∨ c = 'E' then
      let sign : Int := if rest.head? = some '-' then -1 else 1
      let digits := if rest.head? = some '-' ∨ rest.head? = some '+' then rest.drop 1 else rest
      if (digits.takeWhile isDigit).isEmpty then none
      else some (sign * digitsValue (digits.takeWhile isDigit), digits.dropWhile isDigit)
    else some (0, chars)
  | [] => some (0, [])

def parseNumber (chars : List Char) : Option (ℚ × List Char) := do
  let sign : ℚ := if chars.head? = some '-' then -1 else 1
  let chars := if chars.head? = some '-' then chars.drop 1 else chars
  let whole := if chars.head? = some '0' then ['0'] else chars.takeWhile isDigit
  if whole.isEmpty then none
  else
    let (fraction, chars) ← fractionDigits (chars.drop whole.length)
    let (exponent, chars) ← exponentValue chars
    some (sign * digitsValue (whole ++ fraction) * powerOfTen (exponent - fraction.length), chars)

def dropWord (word : String) (chars : List Char) : Option (List Char) :=
  if word.toList.isPrefixOf chars then some (chars.drop word.length) else none

mutual
/-- A value and what follows it. Each level of the fuel takes up a character. -/
def parseValue : Nat → List Char → Option (Json × List Char)
  | 0, _ => none
  | fuel + 1, chars =>
    match skipSpace chars with
    | '{' :: rest =>
      match skipSpace rest with
      | '}' :: rest => some (.object [], rest)
      | rest => parseMembers fuel [] rest
    | '[' :: rest =>
      match skipSpace rest with
      | ']' :: rest => some (.array [], rest)
      | rest => parseElements fuel [] rest
    | '"' :: rest => (parseString rest).map fun found => (.string found.1, found.2)
    | 't' :: rest => (dropWord "rue" rest).map fun rest => (.bool true, rest)
    | 'f' :: rest => (dropWord "alse" rest).map fun rest => (.bool false, rest)
    | 'n' :: rest => (dropWord "ull" rest).map fun rest => (.null, rest)
    | chars => (parseNumber chars).map fun found => (.number found.1, found.2)

/-- The members of an object. The last value of a key counts, in the place of the first. -/
def parseMembers : Nat → List (String × Json) → List Char → Option (Json × List Char)
  | 0, _, _ => none
  | fuel + 1, fields, chars =>
    match skipSpace chars with
    | '"' :: rest => do
      let (key, rest) ← parseString rest
      match skipSpace rest with
      | ':' :: rest =>
        let (value, rest) ← parseValue fuel rest
        let fields := assign fields key value
        match skipSpace rest with
        | ',' :: rest => parseMembers fuel fields rest
        | '}' :: rest => some (.object fields, rest)
        | _ => none
      | _ => none
    | _ => none

def parseElements : Nat → List Json → List Char → Option (Json × List Char)
  | 0, _, _ => none
  | fuel + 1, items, chars => do
    let (value, rest) ← parseValue fuel chars
    match skipSpace rest with
    | ',' :: rest => parseElements fuel (items ++ [value]) rest
    | ']' :: rest => some (.array (items ++ [value]), rest)
    | _ => none
end

/-- `JSON.parse(text)`; `none` where it throws. -/
def parse (text : String) : Option Json :=
  (parseValue (text.length + 1) text.toList).bind fun found =>
    if skipSpace found.2 = [] then some found.1 else none

def hexDigit (value : Nat) : Char := if value < 10 then Char.ofNat (48 + value) else Char.ofNat (87 + value)

def quoteChar (c : Char) : List Char :=
  if c = '"' then ['\\', '"']
  else if c = '\\' then ['\\', '\\']
  else if c.toNat = 8 then ['\\', 'b']
  else if c.toNat = 12 then ['\\', 'f']
  else if c = '\n' then ['\\', 'n']
  else if c = '\r' then ['\\', 'r']
  else if c = '\t' then ['\\', 't']
  else if c.toNat < 32 then ['\\', 'u', '0', '0', hexDigit (c.toNat / 16), hexDigit (c.toNat % 16)]
  else [c]

def quote (text : String) : String := String.ofList ('"' :: text.toList.flatMap quoteChar ++ ['"'])

/-- The decimal digits after the point, as many as the number has. -/
def fractionText : Nat → Nat → Nat → List Char
  | 0, _, _ => []
  | fuel + 1, remainder, denominator =>
    if remainder = 0 then []
    else hexDigit (10 * remainder / denominator) ::
      fractionText fuel (10 * remainder % denominator) denominator

def numberText (value : ℚ) : String :=
  let sign := if value < 0 then "-" else ""
  let whole := value.num.natAbs / value.den
  let fraction := fractionText value.den (value.num.natAbs % value.den) value.den
  sign ++ toString whole ++ if fraction.isEmpty then "" else "." ++ String.ofList fraction

mutual
/-- `JSON.stringify(value)`. -/
def stringify : Json → String
  | .null => "null"
  | .bool value => if value then "true" else "false"
  | .number value => numberText value
  | .string value => quote value
  | .array items => "[" ++ String.intercalate "," (itemTexts items) ++ "]"
  | .object fields => "\x7b" ++ String.intercalate "," (fieldTexts fields) ++ "\x7d"

def itemTexts : List Json → List String
  | [] => []
  | item :: rest => stringify item :: itemTexts rest

def fieldTexts : List (String × Json) → List String
  | [] => []
  | (key, value) :: rest => (quote key ++ ":" ++ stringify value) :: fieldTexts rest
end

end QiongQi.JsonTexts
