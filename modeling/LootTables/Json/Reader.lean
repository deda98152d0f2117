import LootTables.Json.Value
import LootTables.Limits
import LootTables.Number.Integer

/-!
# Reading JSON

`Json.read` reads one value with blanks around it. The format is JSON with three more words,
`NaN`, `Infinity` and `-Infinity`; a number with a fraction or an exponent is the double nearest
to it, any other number an integer. A text that is refused is refused at the first place where it
cannot go on, and the message names that place.

The reader runs over what is left of the text. A `Failure` therefore keeps the rest of the text at
which it happened, and only `Json.read` turns it into a line, a column and an offset. Recursion
is on the number of containers that may still be opened; the items of one container are read by
`readSequence`, for which the length of the text is fuel enough, as every item takes a character.

How many containers may be opened is up to the caller. To tell the place of a fault takes room as
well, so where too little is left, a fault is a nesting that is too deep (`Failure.raisedIn`).
-/

namespace LootTables.Json

/-- What a text lacks, or has too much of, at some place. -/
inductive Fault where
  | value
  | fieldName
  | colon
  | comma
  /-- The string that starts here does not end. -/
  | unterminated
  /-- A control character stands unescaped in a string. -/
  | control
  | escape
  /-- An escape of a 16-bit unit has not four hexadecimal digits, or the text ends with it. -/
  | unitEscape
  | extraData
  | byteOrderMark
deriving DecidableEq

/-- The wording of a fault. -/
def Fault.text : Fault → Text
  | .value => "Expecting value"
  | .fieldName => "Expecting property name enclosed in double quotes"
  | .colon => "Expecting ':' delimiter"
  | .comma => "Expecting ',' delimiter"
  | .unterminated => "Unterminated string starting at"
  | .control => "Invalid control character at"
  | .escape => "Invalid \\escape"
  | .unitEscape => "Invalid \\uXXXX escape"
  | .extraData => "Extra data"
  | .byteOrderMark => "Unexpected UTF-8 BOM (decode using utf-8-sig)"

/-- For what there is no room. -/
inductive Overflow where
  /-- An array or object is nested too deeply. -/
  | container (kind : JsonKind)
  /-- A fault is nested too deeply to be told. -/
  | fault
deriving DecidableEq

/-- Why reading stopped; what a fault names is at the front of `rest`. -/
inductive Failure where
  | fault (what : Fault) (rest : Text)
  | tooDeep (what : Overflow)
  | numeral (error : NumeralError)

/-- A reader takes a result off the front of a text and gives the rest. -/
abbrev Reader (α : Type) := Text → Except Failure (α × Text)

/-- How much room it takes to tell a fault. -/
def tellingRoom : Nat := 3

/-- What becomes of a failure where so much room is left. That a value is missing is told only when
all containers are left, and an overlong numeral takes no room. -/
def Failure.raisedIn (room : Nat) : Failure → Failure
  | .fault .value rest => .fault .value rest
  | .fault what rest => if room < tellingRoom then .tooDeep .fault else .fault what rest
  | failure => failure

/-- A reader that is called where so much room is left. -/
def Reader.within {α : Type} (read : Reader α) (room : Nat) : Reader α := fun s =>
  (read s).mapError (Failure.raisedIn room)

theorem Reader.within_eq_ok_iff {α : Type} {read : Reader α} {room : Nat} {s : Text} {x : α × Text} :
    read.within room s = .ok x ↔ read s = .ok x := by
  unfold within
  cases read s with
  | error e => exact ⟨nofun, nofun⟩
  | ok x => exact Iff.rfl

/-! ### Characters -/

/-- The blanks between tokens: space, tab, line feed and carriage return. -/
def isBlank (c : CodePoint) : Bool :=
  c.val == 0x20 || c.val == 0x09 || c.val == 0x0A || c.val == 0x0D

def skipBlanks (s : Text) : Text := s.dropWhile isBlank

/-- The double quote around strings. -/
def stringMark : CodePoint := '\x22'

/-- The value of a hexadecimal digit of either case. -/
def hexDigit? (c : CodePoint) : Option Nat :=
  let n := c.val
  if 0x30 ≤ n ∧ n ≤ 0x39 then some (n - 0x30)
  else if 0x41 ≤ n ∧ n ≤ 0x46 then some (n - 0x41 + 10)
  else if 0x61 ≤ n ∧ n ≤ 0x66 then some (n - 0x61 + 10)
  else none

/-- The 16-bit unit written with four hexadecimal digits. -/
def hexUnit? (a b c d : CodePoint) : Option Nat := do
  let a ← hexDigit? a
  let b ← hexDigit? b
  let c ← hexDigit? c
  let d ← hexDigit? d
  return ((a * 16 + b) * 16 + c) * 16 + d

/-- The character that a one-letter escape stands for. -/
def letterEscape? (c : CodePoint) : Option CodePoint :=
  if c = stringMark ∨ c = '\\' ∨ c = '/' then some c
  else if c = 'b' then some '\x08'
  else if c = 'f' then some '\x0c'
  else if c = 'n' then some '\n'
  else if c = 'r' then some '\r'
  else if c = 't' then some '\t'
  else none

/-! ### Strings -/

/-- What is written between the marks of a string. -/
inductive Piece where
  /-- A character, as itself or as a one-letter escape. -/
  | point (c : CodePoint)
  /-- The escape of a 16-bit unit. -/
  | unit (n : Nat)

/-- Reads the pieces up to the closing mark. `opening` is the text from the opening mark on. -/
def readPieces (opening : Text) : Reader (List Piece)
  | [] => .error (.fault .unterminated opening)
  | c :: s =>
    if c = stringMark then .ok ([], s)
    else if c = '\\' then
      match s with
      | [] => .error (.fault .unterminated opening)
      | e :: t =>
        if e = 'u' then
          match t with
          | h₁ :: h₂ :: h₃ :: h₄ :: r =>
            match hexUnit? h₁ h₂ h₃ h₄, r.isEmpty with
            | some n, false => do
              let (pieces, r) ← readPieces opening r
              return (.unit n :: pieces, r)
            | _, _ => .error (.fault .unitEscape s)
          | _ => .error (.fault .unitEscape s)
        else
          match letterEscape? e with
          | some x => do
            let (pieces, r) ← readPieces opening t
            return (.point x :: pieces, r)
          | none => .error (.fault .escape (c :: s))
    else if c.val < 0x20 then .error (.fault .control (c :: s))
    else do
      let (pieces, r) ← readPieces opening s
      return (.point c :: pieces, r)

/-- The text that the pieces spell. The escape of a high surrogate and that of a low one directly
after it are one code point; any other surrogate stands for itself. -/
def spell : List Piece → Text
  | [] => []
  | .point c :: rest => c :: spell rest
  | [.unit n] => [.ofNat n]
  | .unit n :: .point c :: rest => .ofNat n :: c :: spell rest
  | .unit n :: .unit m :: rest =>
    if 0xD800 ≤ n ∧ n < 0xDC00 ∧ 0xDC00 ≤ m ∧ m < 0xE000 then
      .ofNat (0x10000 + (n - 0xD800) * 0x400 + (m - 0xDC00)) :: spell rest
    else .ofNat n :: spell (.unit m :: rest)

/-- Reads a string, its opening mark being at the front of `s`. -/
def readString : Reader Text := fun s => do
  let (pieces, r) ← readPieces s s.tail
  return (spell pieces, r)

/-! ### Numbers -/

/-- The leading digits and the rest. -/
def spanDigits (s : Text) : Text × Text := s.span CodePoint.isDigit

/-- Splits the integer part off: a zero, or digits that start with another one. -/
def readWhole (s : Text) : Option (Text × Text) :=
  match s with
  | [] => none
  | c :: r => if c = '0' then some (['0'], r) else if c.isDigit then some (spanDigits s) else none

/-- Splits a point with at least one digit off; without one the fraction is missing. -/
def readFraction (s : Text) : Option Text × Text :=
  match s with
  | c :: d :: r => if c = '.' ∧ d.isDigit then let (ds, r) := spanDigits (d :: r); (some ds, r)
    else (none, s)
  | _ => (none, s)

/-- Splits an `e` or `E`, a sign or none, and at least one digit off; otherwise the exponent is
missing and nothing of it is taken. -/
def readExponent (s : Text) : Option Int × Text :=
  match s with
  | c :: r =>
    if c = 'e' ∨ c = 'E' then
      let (negative, r) :=
        match r with
        | sign :: t => if sign = '-' then (true, t) else if sign = '+' then (false, t) else (false, r)
        | [] => (false, r)
      match spanDigits r with
      | ([], _) => (none, s)
      | (ds, r) =>
        let n : Int := Text.natOfDigits ds
        (some (if negative then -n else n), r)
    else (none, s)
  | [] => (none, s)

/-- Reads the longest number at the front of `s`. -/
def readNumber : Reader Number := fun s =>
  let (negative, unsigned) :=
    match s with
    | c :: r => if c = '-' then (true, r) else (false, s)
    | [] => (false, s)
  match readWhole unsigned with
  | none => .error (.fault .value s)
  | some (whole, r) =>
    let (fraction, r) := readFraction r
    let (exponent, r) := readExponent r
    match fraction, exponent with
    | none, none =>
      match readNumeral negative whole with
      | .ok n => .ok (.integer n, r)
      | .error e => .error (.numeral e)
    | fraction, exponent =>
      let fraction := fraction.getD []
      let digits := Text.natOfDigits (whole ++ fraction)
      .ok (.double (.ofDecimal negative ⟨digits, exponent.getD 0 - fraction.length⟩), r)

/-! ### Values -/

/-- The words and what they stand for. -/
def words : List (Text × Json) :=
  [("null", .null), ("true", .bool true), ("false", .bool false),
    ("NaN", .number (.double .nan)), ("Infinity", .number (.double (.infinite false))),
    ("-Infinity", .number (.double (.infinite true)))]

/-- The word at the front of `s`, if there is one. -/
def readWord? (s : Text) : Option (Json × Text) :=
  words.findSome? fun (word, value) => (Text.dropStart? word s).map (value, ·)

/-- Reads items with commas between them up to the closing bracket. -/
def readSequence {α : Type} (item : Reader α) (closing : CodePoint) : Nat → Reader (List α)
  | 0, s => .error (.fault .value s)
  | fuel + 1, s => do
    let (x, r) ← item s
    match skipBlanks r with
    | [] => .error (.fault .comma [])
    | c :: r =>
      if c = closing then return ([x], r)
      else if c = ',' then do
        let (xs, r) ← readSequence item closing fuel (skipBlanks r)
        return (x :: xs, r)
      else .error (.fault .comma (c :: r))

/-- Reads what follows an opening bracket: nothing but the closing one, or a sequence of items. -/
def readItems {α : Type} (item : Reader α) (closing : CodePoint) : Reader (List α) := fun s =>
  let s := skipBlanks s
  match s with
  | [] => readSequence item closing 1 s
  | c :: r => if c = closing then .ok ([], r) else readSequence item closing s.length s

/-- Reads a field: a string, a colon and a value. -/
def readField (value : Reader Json) : Reader (Text × Json) := fun s =>
  match s with
  | [] => .error (.fault .fieldName [])
  | c :: _ =>
    if c = stringMark then do
      let (name, r) ← readString s
      match skipBlanks r with
      | [] => .error (.fault .colon [])
      | d :: r =>
        if d = ':' then do
          let (v, r) ← value (skipBlanks r)
          return ((name, v), r)
        else .error (.fault .colon (d :: r))
    else .error (.fault .fieldName s)

/-- Reads the value at the front of `s`, where `depth` more containers may be opened. -/
def readValue (depth : Nat) : Reader Json := fun s =>
  match s with
  | [] => .error (.fault .value [])
  | c :: r =>
    if c = stringMark then do
      let (text, r) ← readString.within depth s
      return (.string text, r)
    else if c = '\x5b' then
      match depth with
      | 0 => .error (.tooDeep (.container .array))
      | depth + 1 => do
        let (items, r) ← Reader.within (readItems (readValue depth) '\x5d') depth r
        return (.array items, r)
    else if c = '\x7b' then
      match depth with
      | 0 => .error (.tooDeep (.container .object))
      | depth + 1 => do
        let (members, r) ← Reader.within (readItems (readField (readValue depth)) '\x7d') depth r
        return (.ofMembers members, r)
    else
      match readWord? s with
      | some (v, r) => .ok (v, r)
      | none => do
        let (n, r) ← readNumber s
        return (.number n, r)

/-! ### Documents -/

/-- A place in a text. -/
structure Place where
  line : Nat
  column : Nat
  /-- How many code points come before. -/
  offset : Nat
deriving DecidableEq

/-- The place in `s` that has `offset` code points before it; lines and columns count from one. -/
def Place.ofOffset (s : Text) (offset : Nat) : Place :=
  let before := s.take offset
  { line := before.count (('\n' : Char) : CodePoint) + 1
    column := (before.reverse.takeWhile (· ≠ (('\n' : Char) : CodePoint))).length + 1
    offset := offset }

/-- Why a text is no document. -/
inductive ReadError where
  | malformed (fault : Fault) (place : Place)
  | tooDeep (what : Overflow)
  | numeral (error : NumeralError)
deriving DecidableEq

/-- The wording of an overflow. -/
def Overflow.text : Overflow → Text
  | .container kind =>
    "maximum recursion depth exceeded while decoding a JSON "
      ++ (match kind with
        | .object => ("object" : Text)
        | _ => "array")
      ++ " from a unicode string"
  | .fault => "maximum recursion depth exceeded"

/-- The wording of a refusal. -/
def ReadError.message : ReadError → Text
  | .malformed fault place =>
    fault.text ++ ": line " ++ Text.ofNat place.line ++ " column " ++ Text.ofNat place.column
      ++ " (char " ++ Text.ofNat place.offset ++ ")"
  | .tooDeep what => what.text
  | .numeral e => e.message

/-- The refusal of the whole text `s` that a failure on the way means. -/
def Failure.inText (s : Text) : Failure → ReadError
  | .fault what rest => .malformed what (.ofOffset s (s.length - rest.length))
  | .tooDeep what => .tooDeep what
  | .numeral e => .numeral e

/-- Reads a document in which at most `limit` containers are open at once. -/
def read (s : Text) (limit : Nat := ({} : Limits).documents) : Except ReadError Json :=
  if s.head? = some (.ofNat 0xFEFF) then .error (.malformed .byteOrderMark (.ofOffset s 0))
  else
    match readValue limit (skipBlanks s) with
    | .error failure => .error (failure.inText s)
    | .ok (v, r) =>
      match skipBlanks r with
      | [] => .ok v
      | rest => .error ((Failure.fault .extraData rest).inText s)

end LootTables.Json
