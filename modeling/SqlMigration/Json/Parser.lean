import SqlMigration.Json.Basic

/-! # Reading JSON

A reader takes a text and gives a value with the text after it. The number of characters bounds
the number of steps, so it serves as the measure of the recursion. Values nest at most 127 deep.
-/

namespace SqlMigration.Json

def isSpace (c : Char) : Bool := c = ' ' || c = '\n' || c = '\r' || c = '\t'

def skipSpace (s : Text) : Text := s.dropWhile isSpace

/-- The value of a hexadecimal digit. -/
def hexValue? (c : Char) : Option Nat :=
  if c.isDigit then some (c.toNat - '0'.toNat)
  else if 'a' ≤ c && c ≤ 'f' then some (c.toNat - 'a'.toNat + 10)
  else if 'A' ≤ c && c ≤ 'F' then some (c.toNat - 'A'.toNat + 10)
  else none

/-- Four hexadecimal digits. -/
def hex4? : Text → Option (Nat × Text)
  | a :: b :: c :: d :: s => do
      let a ← hexValue? a
      let b ← hexValue? b
      let c ← hexValue? c
      let d ← hexValue? d
      some (((a * 16 + b) * 16 + c) * 16 + d, s)
  | _ => none

/-- The character of an escape by number. A high surrogate needs a low one after it, and a low
one cannot stand alone. -/
def unicodeEscape? (s : Text) : Option (Char × Text) := do
  let (high, s) ← hex4? s
  if 0xd800 ≤ high && high < 0xdc00 then
    match s with
    | '\\' :: 'u' :: s =>
        let (low, s) ← hex4? s
        if 0xdc00 ≤ low && low < 0xe000 then
          some (Char.ofNat (0x10000 + (high - 0xd800) * 0x400 + (low - 0xdc00)), s)
        else none
    | _ => none
  else if 0xdc00 ≤ high && high < 0xe000 then none
  else some (Char.ofNat high, s)

/-- One character of a string, or its end. -/
def stringStep? : Text → Option (Option Char × Text)
  | [] => none
  | '"' :: s => some (none, s)
  | '\\' :: 'u' :: s => (unicodeEscape? s).map fun (c, s) => (some c, s)
  | '\\' :: e :: s =>
      let plain : Option Char :=
        match e with
        | '"' => some '"'
        | '\\' => some '\\'
        | '/' => some '/'
        | 'b' => some '\x08'
        | 'f' => some '\x0c'
        | 'n' => some '\n'
        | 'r' => some '\r'
        | 't' => some '\t'
        | _ => none
      plain.map fun c => (some c, s)
  | c :: s => if c.toNat < 0x20 || c = '\\' then none else some (some c, s)

/-- The rest of a string after its opening quote. -/
def stringTail? : Nat → Text → Option (Text × Text)
  | 0, _ => none
  | fuel + 1, s => do
      match ← stringStep? s with
      | (none, s) => some ([], s)
      | (some c, s) =>
          let (tail, s) ← stringTail? fuel s
          some (c :: tail, s)

/-- One digit or more. -/
def digits1? (s : Text) : Option (Text × Text) :=
  match s.takeWhile Char.isDigit with
  | [] => none
  | digits => some (digits, s.dropWhile Char.isDigit)

/-- The digits before the point: a zero, or digits that do not start with one. -/
def whole? (s : Text) : Option (Text × Text) := do
  let (digits, s) ← digits1? s
  if digits.head? = some '0' && digits.length ≠ 1 then none else some (digits, s)

def fraction? : Text → Option (Text × Text)
  | '.' :: s => (digits1? s).map fun (digits, s) => ('.' :: digits, s)
  | s => some ([], s)

/-- An exponent, if there is one. -/
def exponent? : Text → Option (Text × Text)
  | e :: s =>
      if e = 'e' || e = 'E' then
        match s with
        | '+' :: s => (digits1? s).map fun (digits, s) => (e :: '+' :: digits, s)
        | '-' :: s => (digits1? s).map fun (digits, s) => (e :: '-' :: digits, s)
        | s => (digits1? s).map fun (digits, s) => (e :: digits, s)
      else some ([], e :: s)
  | [] => some ([], [])

def number? (s : Text) : Option (Json × Text) := do
  let (sign, s) := match s with
    | '-' :: s => (['-'], s)
    | s => ([], s)
  let (whole, s) ← whole? s
  let (fraction, s) ← fraction? s
  let (exponent, s) ← exponent? s
  some (number (sign ++ whole ++ fraction ++ exponent), s)

mutual

/-- A value, with at most `depth` levels of arrays and objects. -/
def value? : Nat → Nat → Text → Option (Json × Text)
  | 0, _, _ => none
  | fuel + 1, depth, s =>
      match skipSpace s with
      | 'n' :: 'u' :: 'l' :: 'l' :: s => some (null, s)
      | 't' :: 'r' :: 'u' :: 'e' :: s => some (bool true, s)
      | 'f' :: 'a' :: 'l' :: 's' :: 'e' :: s => some (bool false, s)
      | '"' :: s => (stringTail? (s.length + 1) s).map fun (t, s) => (string t, s)
      | '[' :: s =>
          match depth with
          | 0 => none
          | depth + 1 =>
              match skipSpace s with
              | ']' :: s => some (array [], s)
              | s => (items? fuel depth s).map fun (items, s) => (array items, s)
      | '\x7b' :: s =>
          match depth with
          | 0 => none
          | depth + 1 =>
              match skipSpace s with
              | '\x7d' :: s => some (object [], s)
              | s => (fields? fuel depth s).map fun (fields, s) => (object fields, s)
      | s => number? s

/-- The items of an array that has some, and its closing bracket. -/
def items? : Nat → Nat → Text → Option (List Json × Text)
  | 0, _, _ => none
  | fuel + 1, depth, s => do
      let (item, s) ← value? fuel depth s
      match skipSpace s with
      | ',' :: s =>
          let (items, s) ← items? fuel depth s
          some (item :: items, s)
      | ']' :: s => some ([item], s)
      | _ => none

/-- The fields of an object that has some, and its closing brace. -/
def fields? : Nat → Nat → Text → Option (List (Text × Json) × Text)
  | 0, _, _ => none
  | fuel + 1, depth, s => do
      match skipSpace s with
      | '"' :: s =>
          let (name, s) ← stringTail? (s.length + 1) s
          match skipSpace s with
          | ':' :: s =>
              let (value, s) ← value? fuel depth s
              match skipSpace s with
              | ',' :: s =>
                  let (fields, s) ← fields? fuel depth s
                  some ((name, value) :: fields, s)
              | '\x7d' :: s => some ([(name, value)], s)
              | _ => none
          | _ => none
      | _ => none

end

/-- The value that a text holds, with nothing but space around it. -/
def parse? (s : Text) : Option Json := do
  let (json, s) ← value? (s.length + 1) 127 s
  if (skipSpace s).isEmpty then some json else none

end SqlMigration.Json
