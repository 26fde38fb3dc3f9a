/-!
# Numerals

Numbers are read from digits of a given radix, with as many leading zeros as the writer likes and
at most one plus sign in front.  The value must stay below a given bound.
-/

namespace MetaPostEditor
namespace Numeral

/-- The value of a digit; letters of either case are the digits from ten on. -/
def digit? (radix : Nat) (c : Char) : Option Nat :=
  let value :=
    if '0' ≤ c ∧ c ≤ '9' then some (c.toNat - '0'.toNat)
    else if 'a' ≤ c ∧ c ≤ 'z' then some (c.toNat - 'a'.toNat + 10)
    else if 'A' ≤ c ∧ c ≤ 'Z' then some (c.toNat - 'A'.toNat + 10)
    else none
  value.filter (· < radix)

/-- Reads digits, the most significant first, behind digits of the value `acc`. -/
def digits? (radix : Nat) : Nat → List Char → Option Nat
  | acc, [] => some acc
  | acc, c :: rest => do
    let d ← digit? radix c
    digits? radix (acc * radix + d) rest

/-- Reads a numeral whose value is below `bound`. -/
def read? (radix bound : Nat) (text : List Char) : Option Nat :=
  let digits := match text with
    | '+' :: rest => rest
    | _ => text
  if digits.isEmpty then none
  else (digits? radix 0 digits).filter (· < bound)

end Numeral
end MetaPostEditor
