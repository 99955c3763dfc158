import HexSkirmish.Decimal.Shortest
import HexSkirmish.Single

/-! How messages write a single-precision number: the fewest digits that read back, never with an
exponent, and a sign also before a negative zero. -/

namespace HexSkirmish.Single

def text (s : Single) : String :=
  let bits := s.bits.toNat
  let sign := if bits / 2147483648 = 1 then "-" else ""
  match Decimal.Binary.ofBits .single (bits % 2147483648) with
  | .nan => "NaN"
  | .infinite => sign ++ "inf"
  | .zero => sign ++ "0"
  | .positive m e lowest =>
    let (digits, k) := Decimal.shortest m e lowest
    sign ++ Decimal.positional digits k

end HexSkirmish.Single
