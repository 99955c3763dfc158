/-! Spans of time in whole nanoseconds. The greatest span is `2 ^ 64 - 1` seconds and 999999999
nanoseconds, and sums and multiples that would pass it stop there. -/

namespace HexSkirmish

structure Duration where
  nanos : Nat
deriving DecidableEq

namespace Duration

def maxNanos : Nat := 18446744073709551616 * 1000000000 - 1

def zero : Duration := ⟨0⟩

def ofParts (seconds nanos : Nat) : Duration := ⟨seconds * 1000000000 + nanos⟩

def ofMillis (n : Nat) : Duration := ⟨n * 1000000⟩

def add (a b : Duration) : Duration := ⟨min (a.nanos + b.nanos) maxNanos⟩

def scale (a : Duration) (n : Nat) : Duration := ⟨min (a.nanos * n) maxNanos⟩

/-- Whole seconds and the rest are rounded apart and then added. -/
def asSeconds (a : Duration) : Float32 :=
  Float32.ofNat (a.nanos / 1000000000) + Float32.ofNat (a.nanos % 1000000000) / 1000000000

end Duration

end HexSkirmish
