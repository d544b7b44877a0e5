/-! # UTF-8

A decoder as a machine over bytes. Each maximal part of an ill-formed sequence gives one undecodable
item, `none`; surrogates, overlong forms and values above U+10FFFF are ill-formed at the first byte
that shows them. Reading with replacement turns such items into U+FFFD, strict reading refuses them.
-/
namespace WebAtlas.Utf8

/-- Between two bytes the decoder waits for a first byte, or for `missing` more bytes of a character
whose bits so far are `bits`, the next of which must lie between `low` and `high`. -/
inductive State
  | start
  | inside (missing : Nat) (bits : Nat) (low high : UInt8)
deriving DecidableEq, Repr

def first (b : UInt8) : State × List (Option Char) :=
  if b < 0x80 then (.start, [some (Char.ofNat b.toNat)])
  else if b < 0xC2 then (.start, [none])
  else if b < 0xE0 then (.inside 1 (b.toNat - 0xC0) 0x80 0xBF, [])
  else if b < 0xF0 then
    (.inside 2 (b.toNat - 0xE0) (if b = 0xE0 then 0xA0 else 0x80) (if b = 0xED then 0x9F else 0xBF), [])
  else if b < 0xF5 then
    (.inside 3 (b.toNat - 0xF0) (if b = 0xF0 then 0x90 else 0x80) (if b = 0xF4 then 0x8F else 0xBF), [])
  else (.start, [none])

/-- One byte. A byte that cannot continue a character ends it as undecodable and is read anew. -/
def step : State → UInt8 → State × List (Option Char)
  | .start, b => first b
  | .inside missing bits low high, b =>
    if low ≤ b && b ≤ high then
      let bits := bits * 64 + (b.toNat - 0x80)
      if missing ≤ 1 then (.start, [some (Char.ofNat bits)])
      else (.inside (missing - 1) bits 0x80 0xBF, [])
    else
      let (state, items) := first b
      (state, none :: items)

/-- The items of the bytes ahead; an unfinished character at the end is undecodable. -/
def itemsFrom : State → List UInt8 → List (Option Char)
  | .start, [] => []
  | .inside .., [] => [none]
  | state, b :: bytes =>
    let (next, items) := step state b
    items ++ itemsFrom next bytes

def items (bytes : List UInt8) : List (Option Char) := itemsFrom .start bytes

/-- Decodes with U+FFFD for each undecodable part. -/
def decode (bytes : List UInt8) : List Char := (items bytes).map (·.getD '\uFFFD')

def decodeStrict? (bytes : List UInt8) : Option (List Char) := (items bytes).mapM id

/-- Line ends: a carriage return, with or without a line feed after it, becomes a line feed. -/
def unifyLineEnds : List Char → List Char
  | [] => []
  | '\r' :: '\n' :: text => '\n' :: unifyLineEnds text
  | c :: text => (if c = '\r' then '\n' else c) :: unifyLineEnds text

end WebAtlas.Utf8
