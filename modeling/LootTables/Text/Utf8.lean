import LootTables.Text

/-!
# UTF-8

`encode` writes a text as bytes and refuses surrogates, which have no encoding of their own.
`decode` is strict: it accepts exactly the shortest encodings of the code points that are no
surrogates, and stops at the first sequence that cannot be completed.

Decoding is a machine that reads one byte at a time. Between two sequences it is `ready`; inside
one it knows how many continuation bytes are still due and in which range the next one lies. A
range other than `80..BF` follows the four first bytes after which some continuations would
encode a surrogate, a code point past the last one, or a code point with a shorter encoding.
A refused sequence is reported with all of its bytes that could still have begun a good one.
-/

namespace LootTables

/-- The content of a file. -/
abbrev Bytes := List UInt8

namespace Utf8

/-! ### Encoding -/

/-- The bytes of one code point: six bits to a continuation byte, the rest in the first one. -/
def encodePoint (c : CodePoint) : Bytes :=
  let n := c.val
  if n < 0x80 then [.ofNat n]
  else if n < 0x800 then [.ofNat (0xC0 + n / 64), .ofNat (0x80 + n % 64)]
  else if n < 0x10000 then
    [.ofNat (0xE0 + n / 4096), .ofNat (0x80 + n / 64 % 64), .ofNat (0x80 + n % 64)]
  else
    [.ofNat (0xF0 + n / 262144), .ofNat (0x80 + n / 4096 % 64), .ofNat (0x80 + n / 64 % 64),
      .ofNat (0x80 + n % 64)]

/-- A text that has no encoding: a run of surrogates stands at `position`. -/
structure EncodeError where
  /-- How many code points come before the run. -/
  position : Nat
  /-- The first surrogate of the run. -/
  first : CodePoint
  /-- How many surrogates follow each other there. -/
  count : Nat
deriving DecidableEq

/-- The bytes of a text, of which `position` code points came before. -/
def encodeFrom (position : Nat) : Text → Except EncodeError Bytes
  | [] => .ok []
  | c :: s =>
    if c.IsSurrogate then .error ⟨position, c, 1 + (s.takeWhile (·.IsSurrogate)).length⟩
    else (encodePoint c ++ ·) <$> encodeFrom (position + 1) s

/-- The bytes of a text; refused when it holds a surrogate. -/
def encode (s : Text) : Except EncodeError Bytes := encodeFrom 0 s

/-- The encoded length of a name. A surrogate counts as its three-byte pattern. -/
def encodedLength (s : Text) : Nat := (s.flatMap encodePoint).length

/-- The wording of a refusal. A run of surrogates names its first and last position. -/
def EncodeError.message (e : EncodeError) : Text :=
  let what : Text :=
    if e.count = 1 then "character '\\u" ++ Text.hex 4 e.first.val ++ "' in position "
      ++ Text.ofNat e.position
    else "characters in position " ++ Text.ofNat e.position ++ "-"
      ++ Text.ofNat (e.position + e.count - 1)
  "'utf-8' codec can't encode " ++ what ++ ": surrogates not allowed"

/-! ### Decoding -/

/-- Why a sequence of bytes is refused. -/
inductive Fault where
  /-- The byte begins no sequence. -/
  | start
  /-- A byte stands where no such continuation is allowed. -/
  | continuation
  /-- The bytes end inside the sequence. -/
  | truncated
deriving DecidableEq

/-- The wording of a fault. -/
def Fault.text : Fault → Text
  | .start => "invalid start byte"
  | .continuation => "invalid continuation byte"
  | .truncated => "unexpected end of data"

/-- A refused sequence. -/
structure DecodeError where
  fault : Fault
  /-- How many bytes come before the sequence. -/
  position : Nat
  /-- The bytes of the sequence that could still have begun a good one, at least the first. -/
  bytes : Bytes
deriving DecidableEq

/-- The wording of a refusal: a single byte is shown, of a longer sequence only the place. -/
def DecodeError.message (e : DecodeError) : Text :=
  let what : Text :=
    match e.bytes with
    | [b] => "byte 0x" ++ Text.hex 2 b.toNat ++ " in position " ++ Text.ofNat e.position
    | bs => "bytes in position " ++ Text.ofNat e.position ++ "-"
        ++ Text.ofNat (e.position + bs.length - 1)
  "'utf-8' codec can't decode " ++ what ++ ": " ++ e.fault.text

/-- Where the decoder stands. -/
inductive State where
  /-- Between two sequences. -/
  | ready
  /-- Inside a sequence: `due + 1` continuation bytes are to come, the next of them in
  `low..high`; `value` is what `seen`, the bytes read so far, contribute. -/
  | inside (due low high value : Nat) (seen : Bytes)

/-- What a first byte announces: the state it leads to, or the code point it encodes alone. -/
def begin (b : UInt8) : Except Fault (CodePoint ⊕ State) :=
  let n := b.toNat
  if n < 0x80 then .ok (.inl (.ofNat n))
  else if n < 0xC2 then .error .start
  else if n < 0xE0 then .ok (.inr (.inside 0 0x80 0xBF (n - 0xC0) [b]))
  else if n = 0xE0 then .ok (.inr (.inside 1 0xA0 0xBF 0 [b]))
  else if n = 0xED then .ok (.inr (.inside 1 0x80 0x9F 0xD [b]))
  else if n < 0xF0 then .ok (.inr (.inside 1 0x80 0xBF (n - 0xE0) [b]))
  else if n = 0xF0 then .ok (.inr (.inside 2 0x90 0xBF 0 [b]))
  else if n < 0xF4 then .ok (.inr (.inside 2 0x80 0xBF (n - 0xF0) [b]))
  else if n = 0xF4 then .ok (.inr (.inside 2 0x80 0x8F 4 [b]))
  else .error .start

/-- Decodes from a given state; `position` counts the bytes before the current sequence. -/
def decodeFrom (position : Nat) : State → Bytes → Except DecodeError Text
  | .ready, [] => .ok []
  | .inside _ _ _ _ seen, [] => .error ⟨.truncated, position, seen⟩
  | .ready, b :: bs =>
    match begin b with
    | .error fault => .error ⟨fault, position, [b]⟩
    | .ok (.inl c) => (c :: ·) <$> decodeFrom (position + 1) .ready bs
    | .ok (.inr state) => decodeFrom position state bs
  | .inside due low high value seen, b :: bs =>
    if low ≤ b.toNat ∧ b.toNat ≤ high then
      let value := 64 * value + (b.toNat - 0x80)
      match due with
      | 0 => (CodePoint.ofNat value :: ·) <$> decodeFrom (position + seen.length + 1) .ready bs
      | due + 1 => decodeFrom position (.inside due 0x80 0xBF value (seen ++ [b])) bs
    else .error ⟨.continuation, position, seen⟩

/-- The text that the bytes encode. -/
def decode (bs : Bytes) : Except DecodeError Text := decodeFrom 0 .ready bs

end Utf8

end LootTables
