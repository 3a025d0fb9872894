import HalfDuplex.Word

/-!
# Spans of time

A span is a count of whole seconds that fits a word and fewer than 10^9
nanoseconds.
-/

namespace HalfDuplex

structure Span where
  seconds : Nat
  nanos : Nat
deriving DecidableEq

namespace Span

def nanosPerSecond : Nat := 1000000000

def zero : Span := ⟨0, 0⟩

def longest : Span := ⟨Word.largest, nanosPerSecond - 1⟩

def ofNanos (n : Nat) : Span := ⟨n / nanosPerSecond, n % nanosPerSecond⟩

def ofMicros (n : Nat) : Span := ofNanos (1000 * n)

def toNanos (s : Span) : Nat := s.seconds * nanosPerSecond + s.nanos

def toMillis (s : Span) : Nat := s.toNanos / 1000000

/-- The `k`-fold span, or the longest one if its seconds do not fit a word. The
nanoseconds are multiplied first and carry into the seconds. -/
def times (s : Span) (k : Nat) : Span :=
  let nanos := s.nanos * k
  let seconds := s.seconds * k + nanos / nanosPerSecond
  if seconds < Word.size then ⟨seconds, nanos % nanosPerSecond⟩ else longest

end Span

end HalfDuplex
