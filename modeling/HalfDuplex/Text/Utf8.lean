/-!
# Reading UTF-8

Bytes are read into characters one at a time. A byte that cannot continue the
character begun before it ends that character as an invalid part and is read
again as a first byte.
-/

namespace HalfDuplex.Utf8

structure ByteRange where
  low : UInt8
  high : UInt8
deriving DecidableEq

def ByteRange.contains (r : ByteRange) (b : UInt8) : Bool := r.low ≤ b && b ≤ r.high

def continuation : ByteRange := ⟨0x80, 0xBF⟩

/-- The bytes that have to follow a first byte above `0x7F`; none if no
character begins with it. -/
def followers? (b : UInt8) : Option (List ByteRange) :=
  if b < 0xC2 then none
  else if b < 0xE0 then some [continuation]
  else if b = 0xE0 then some [⟨0xA0, 0xBF⟩, continuation]
  else if b = 0xED then some [⟨0x80, 0x9F⟩, continuation]
  else if b < 0xF0 then some [continuation, continuation]
  else if b = 0xF0 then some [⟨0x90, 0xBF⟩, continuation, continuation]
  else if b < 0xF4 then some [continuation, continuation, continuation]
  else if b = 0xF4 then some [⟨0x80, 0x8F⟩, continuation, continuation]
  else none

/-- The part of a character's number that its first byte holds, when `n` more
bytes follow. -/
def leadValue (b : UInt8) (n : Nat) : Nat := b.toNat % (1 <<< (6 - n))

inductive Progress where
  | between
  | inside (value : Nat) (next : ByteRange) (rest : List ByteRange)

/-- Reads a byte that begins something new. An invalid part reads as `none`. -/
def first (b : UInt8) : List (Option Char) × Progress :=
  if b < 0x80 then ([some (Char.ofNat b.toNat)], .between)
  else
    match followers? b with
    | some (r :: rest) => ([], .inside (leadValue b (rest.length + 1)) r rest)
    | _ => ([none], .between)

def step : Progress → UInt8 → List (Option Char) × Progress
  | .between, b => first b
  | .inside value r rest, b =>
    if r.contains b then
      let value := 64 * value + b.toNat % 64
      match rest with
      | [] => ([some (Char.ofNat value)], .between)
      | r :: rest => ([], .inside value r rest)
    else
      let (out, p) := first b
      (none :: out, p)

def readFrom : Progress → List UInt8 → List (Option Char)
  | .between, [] => []
  | .inside .., [] => [none]
  | p, b :: bs =>
    let (out, p) := step p b
    out ++ readFrom p bs

def read (bs : List UInt8) : List (Option Char) := readFrom .between bs

def text? (bs : List UInt8) : Option (List Char) := (read bs).mapM id

/-- The text that the bytes stand for, with a replacement character for every
invalid part. -/
def lossyText (bs : List UInt8) : List Char := (read bs).map fun c => c.getD '\ufffd'

end HalfDuplex.Utf8
