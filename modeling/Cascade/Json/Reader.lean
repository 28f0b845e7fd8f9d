/-
  Cascade.Json.Reader
  ────────────────────────────────
  **READING JSON.**

  The grammar is that of JSON with three more numbers, `NaN`, `Infinity` and
  `-Infinity`.  An integer is exact and has at most 4300 digits; a number
  with a fraction or an exponent is the nearest double.  Of two members with
  one name the last counts, at the place of the first.  An escaped half of a
  pair is kept as it is.  Values may be nested to any depth: the recursion
  limit of an interpreter is left out.

  A syntax fault is found at the first place where no document can go on and
  carries the input from that place; `located` turns it into a message with
  line, column and offset.
-/
import Cascade.Number.Binary64
import Cascade.Table
import Cascade.Text.Digit
import Cascade.Value.Rendering

namespace Cascade.Json

open Cascade.Text

/-! ## §1. Faults. -/

/-- What is wrong where the reader stops. -/
inductive Problem
  | expectedValue
  | expectedName
  | expectedColon
  | expectedComma
  | unterminated
  | control
  | escape
  | unicodeEscape
  | extraData
  | byteOrderMark
  deriving DecidableEq, Repr

/-- The wording of a problem. -/
def Problem.message : Problem → Text
  | .expectedValue => "Expecting value"
  | .expectedName => "Expecting property name enclosed in double quotes"
  | .expectedColon => "Expecting ':' delimiter"
  | .expectedComma => "Expecting ',' delimiter"
  | .unterminated => "Unterminated string starting at"
  | .control => "Invalid control character at"
  | .escape => "Invalid \\escape"
  | .unicodeEscape => "Invalid \\uXXXX escape"
  | .extraData => "Extra data"
  | .byteOrderMark => "Unexpected UTF-8 BOM (decode using utf-8-sig)"

/-- Why a text is not read: a problem and the input from its place on, or an integer with
too many digits. -/
inductive Fault
  | malformed (problem : Problem) (input : Text)
  | tooManyDigits (count : Nat)
  deriving DecidableEq, Repr

/-- A problem in the document `whole`, `left` characters before its end: its wording with
the line and column, from 1, and the offset, from 0. -/
def located (whole : Text) (problem : Problem) (left : Nat) : Text :=
  let before := whole.take (whole.length - left)
  let line := before.count (.char '\n') + 1
  let column := (before.reverse.takeWhile (· ≠ .char '\n')).length + 1
  problem.message ++ ": line " ++ ofNat line ++ " column " ++ ofNat column ++
    " (char " ++ ofNat before.length ++ ")"

/-- The wording of a fault in the document `whole`. -/
def Fault.message (whole : Text) : Fault → Text
  | .malformed problem input => located whole problem input.length
  | .tooManyDigits count =>
    "Exceeds the limit (" ++ Text.ofNat digitLimit ++
      " digits) for integer string conversion: value has " ++ ofNat count ++
      " digits; use sys.set_int_max_str_digits() to increase the limit"

/-! ## §2. White space, numbers, words. -/

/-- The white space of JSON. -/
def isSpace (c : CodePoint) : Bool := c == ' ' || c == '\t' || c == '\n' || c == '\r'

/-- The input after its white space. -/
def skipSpace (t : Text) : Text := t.dropWhile isSpace

/-- Whether a character is an ASCII digit. -/
def isAsciiDigit (c : CodePoint) : Bool := 48 ≤ c.toNat && c.toNat ≤ 57

/-- The digits at the front, and the rest. -/
def digitsAt (t : Text) : Text × Text := (t.takeWhile isAsciiDigit, t.dropWhile isAsciiDigit)

/-- The number a row of ASCII digits stands for. -/
def natOf (digits : Text) : Nat := natOfDigits (digits.map fun c => c.toNat - 48)

/-- The integer part of a number: a single zero, or digits that begin with another one. -/
def integerAt? : Text → Option (Text × Text)
  | [] => none
  | c :: rest =>
    if c = '0' then some ([c], rest)
    else if isAsciiDigit c then some (digitsAt (c :: rest))
    else none

/-- The fraction of a number: a point with at least one digit after it. -/
def fractionAt : Text → Option Text × Text
  | .char '.' :: rest =>
    match digitsAt rest with
    | ([], _) => (none, .char '.' :: rest)
    | (digits, rest) => (some digits, rest)
  | rest => (none, rest)

/-- The sign of an exponent (true for minus), and the rest. -/
def exponentSign : Text → Bool × Text
  | .char '-' :: rest => (true, rest)
  | .char '+' :: rest => (false, rest)
  | rest => (false, rest)

/-- The exponent of a number: its mark, a sign or none, and at least one digit. -/
def exponentAt : Text → Option Int × Text
  | [] => (none, [])
  | c :: rest =>
    if c = 'e' ∨ c = 'E' then
      let (negative, digits, rest') :=
        let (negative, rest) := exponentSign rest
        (negative, digitsAt rest)
      if digits = [] then (none, c :: rest)
      else (some (if negative then -Int.ofNat (natOf digits) else Int.ofNat (natOf digits)), rest')
    else (none, c :: rest)

/-- The number at the front of the input. -/
def numberAt (t : Text) : Except Fault (Value × Text) :=
  let (negative, unsigned) := match t with
    | .char '-' :: rest => (true, rest)
    | rest => (false, rest)
  match integerAt? unsigned with
  | none => .error (.malformed .expectedValue t)
  | some (whole, rest) =>
    let (fraction, rest) := fractionAt rest
    let (exponent, rest) := exponentAt rest
    if fraction.isSome ∨ exponent.isSome then
      let digits := whole ++ fraction.getD []
      let power := exponent.getD 0 - Int.ofNat (fraction.getD []).length
      .ok (.float (Binary64.ofDecimal negative (natOf digits) power), rest)
    -- without fraction and exponent the number is exact
    else if digitLimit < whole.length then .error (.tooManyDigits whole.length)
    else
      .ok (.int (if negative then -Int.ofNat (natOf whole) else Int.ofNat (natOf whole)), rest)

/-- The words that are values. -/
def words : List (Text × Value) :=
  [("null", .null), ("true", .bool true), ("false", .bool false),
   ("NaN", .float .nan), ("Infinity", .float (.infinite false)),
   ("-Infinity", .float (.infinite true))]

/-- The word at the front of the input. -/
def wordAt? (t : Text) : Option (Value × Text) :=
  words.findSome? fun (word, v) => (dropStart? word t).map fun rest => (v, rest)

/-! ## §3. Strings. -/

/-- The character an escape letter stands for. -/
def escapedChar? : CodePoint → Option CodePoint
  | .char '"' => some '"'
  | .char '\\' => some '\\'
  | .char '/' => some '/'
  | .char 'b' => some '\x08'
  | .char 'f' => some '\x0c'
  | .char 'n' => some '\n'
  | .char 'r' => some '\r'
  | .char 't' => some '\t'
  | _ => none

/-- The value of a hexadecimal digit. -/
def hexValue? (c : CodePoint) : Option Nat :=
  let n := c.toNat
  if 48 ≤ n ∧ n ≤ 57 then some (n - 48)
  else if 97 ≤ n ∧ n ≤ 102 then some (n - 87)
  else if 65 ≤ n ∧ n ≤ 70 then some (n - 55)
  else none

/-- The number of four hexadecimal digits that are not the end of the input. -/
def hexUnit? : Text → Option Nat
  | a :: b :: c :: d :: _ :: _ => do
    let a ← hexValue? a
    let b ← hexValue? b
    let c ← hexValue? c
    let d ← hexValue? d
    return ((a * 16 + b) * 16 + c) * 16 + d
  | _ => none

/-- Whether a unit is the first half of a pair. -/
def isHighHalf (n : Nat) : Bool := 0xD800 ≤ n && n ≤ 0xDBFF

/-- Whether a unit is the second half of a pair. -/
def isLowHalf (n : Nat) : Bool := 0xDC00 ≤ n && n ≤ 0xDFFF

/-- The code point of a pair. -/
def ofPair (high low : Nat) : CodePoint :=
  .ofNat (0x10000 + (high - 0xD800) * 0x400 + (low - 0xDC00))

/-- Whether an escaped unit follows, with at least one character after it. -/
def unitFollows : Text → Bool
  | .char '\\' :: .char 'u' :: _ :: _ :: _ :: _ :: _ :: _ => true
  | _ => false

/-- The escape after a backslash: its code point and how many characters it takes.  A half
without the other one of its pair stands for itself. -/
def escapeAt (t : Text) : Except Fault (CodePoint × Nat) :=
  match t with
  | .char 'u' :: rest =>
    match hexUnit? rest with
    | none => .error (.malformed .unicodeEscape t)
    | some high =>
      let next := rest.drop 4
      if isHighHalf high ∧ unitFollows next then
        -- the second escape must be a whole one even when it completes no pair
        match hexUnit? (next.drop 2) with
        | none => .error (.malformed .unicodeEscape (next.drop 1))
        | some low =>
          if isLowHalf low then .ok (ofPair high low, 11) else .ok (.ofNat high, 5)
      else .ok (.ofNat high, 5)
  | c :: _ =>
    match escapedChar? c with
    | some c => .ok (c, 1)
    | none => .error (.malformed .escape (.char '\\' :: t))
  | [] => .error (.malformed .escape [.char '\\'])

/-- The string that continues after its first `skip` characters; `opened` is the input
from its opening quote on. -/
def stringFrom (opened : Text) : (skip : Nat) → Text → Except Fault (Text × Text)
  | _, [] => .error (.malformed .unterminated opened)
  | skip + 1, _ :: rest => stringFrom opened skip rest
  | 0, c :: rest =>
    if c = '"' then .ok ([], rest)
    else if c = '\\' then
      if rest = [] then .error (.malformed .unterminated opened)
      else do
        let (c, length) ← escapeAt rest
        let (cs, rest) ← stringFrom opened length rest
        return (c :: cs, rest)
    else if c.toNat < 32 then .error (.malformed .control (c :: rest))
    else do
      let (cs, rest) ← stringFrom opened 0 rest
      return (c :: cs, rest)

/-- The string whose opening quote has been read. -/
def stringAt (rest : Text) : Except Fault (Text × Text) := stringFrom (.char '"' :: rest) 0 rest

/-! ## §4. Values. -/

/-- The name of a member and the colon after it, with white space around. -/
def nameAt (t : Text) : Except Fault (Text × Text) :=
  match t with
  | .char '"' :: rest => do
    let (name, rest) ← stringAt rest
    match skipSpace rest with
    | .char ':' :: rest => return (name, skipSpace rest)
    | rest => .error (.malformed .expectedColon rest)
  | _ => .error (.malformed .expectedName t)

mutual

/-- The value at the front of the input; `steps` bounds the values still to be read. -/
def valueAt : (steps : Nat) → Text → Except Fault (Value × Text)
  | 0, t => .error (.malformed .expectedValue t)
  | steps + 1, t =>
    match t with
    | .char '"' :: rest => do
      let (s, rest) ← stringAt rest
      return (.str s, rest)
    | .char '{' :: rest =>
      match skipSpace rest with
      | .char '}' :: rest => .ok (.object [], rest)
      | rest => do
        let (members, rest) ← membersAt steps [] rest
        return (.object members, rest)
    | .char '[' :: rest =>
      match skipSpace rest with
      | .char ']' :: rest => .ok (.list [], rest)
      | rest => do
        let (items, rest) ← itemsAt steps rest
        return (.list items, rest)
    | _ =>
      match wordAt? t with
      | some (v, rest) => .ok (v, rest)
      | none => numberAt t

/-- The items of a list up to its closing bracket. -/
def itemsAt : (steps : Nat) → Text → Except Fault (List Value × Text)
  | 0, t => .error (.malformed .expectedValue t)
  | steps + 1, t => do
    let (item, rest) ← valueAt steps t
    match skipSpace rest with
    | .char ']' :: rest => return ([item], rest)
    | .char ',' :: rest =>
      let (items, rest) ← itemsAt steps (skipSpace rest)
      return (item :: items, rest)
    | rest => .error (.malformed .expectedComma rest)

/-- The members of an object up to its closing brace, added to those already read. -/
def membersAt : (steps : Nat) → List (Text × Value) → Text →
    Except Fault (List (Text × Value) × Text)
  | 0, _, t => .error (.malformed .expectedName t)
  | steps + 1, members, t => do
    let (name, rest) ← nameAt t
    let (v, rest) ← valueAt steps rest
    let members := Entries.insert name v members
    match skipSpace rest with
    | .char '}' :: rest => return (members, rest)
    | .char ',' :: rest => membersAt steps members (skipSpace rest)
    | rest => .error (.malformed .expectedComma rest)

end

/-- The value of a whole document.  A value takes at least one character, so the length of
the document bounds the number of nested steps. -/
def read (t : Text) : Except Fault Value :=
  if t.head? = some '\ufeff' then .error (.malformed .byteOrderMark t)
  else do
    let (v, rest) ← valueAt (2 * t.length + 2) (skipSpace t)
    match skipSpace rest with
    | [] => return v
    | rest => .error (.malformed .extraData rest)

end Cascade.Json
