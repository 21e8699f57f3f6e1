/-!
This module contains identifiers that are unlikely to be made twice: 122 random bits and six that
tell how the identifier was made, as hexadecimal digits in five groups.
-/

namespace StrategyDesk
namespace CommandLine

def hexDigits (count n : Nat) : String :=
  let ds := Nat.toDigits 16 (n % Nat.pow 16 count)
  String.ofList (List.replicate (count - ds.length) '0' ++ ds)

def randomIdentifier (a b c d e : Nat) : String :=
  let version := 0x4000 + c % 0x1000
  let variant := 0x8000 + d % 0x4000
  "-".intercalate [hexDigits 8 a, hexDigits 4 b, hexDigits 4 version, hexDigits 4 variant,
    hexDigits 12 e]

end CommandLine
end StrategyDesk
