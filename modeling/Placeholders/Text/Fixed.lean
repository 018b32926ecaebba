namespace Placeholders.Text

/-- A quotient rounded to the nearest whole number, a tie to the even one. -/
def roundedQuotient (num den : Nat) : Nat :=
  let q := num / den
  let r := num % den
  if 2 * r < den then q
  else if den < 2 * r then q + 1
  else if q % 2 = 0 then q
  else q + 1

/-- The hundredths of `significand * 2 ^ (exponent - 1075)`. They are known exactly and rounded
once. -/
def hundredths (significand exponent : Nat) : Nat :=
  if 1075 ≤ exponent then (significand * 100) <<< (exponent - 1075)
  else roundedQuotient (significand * 100) (1 <<< (1075 - exponent))

def pointed (n : Nat) : String :=
  let cents := n % 100
  toString (n / 100) ++ "." ++ (if cents < 10 then "0" else "") ++ toString cents

/-- The text of the double with these bits. A negative number keeps its sign when it rounds to
zero. -/
def twoPlaces (bits : UInt64) : String :=
  let n := bits.toNat
  let sign := if n.testBit 63 then "-" else ""
  let exponent := (n >>> 52) % 2048
  let fraction := n % (1 <<< 52)
  if exponent = 2047 then
    if fraction = 0 then sign ++ "inf" else "NaN"
  else if exponent = 0 then sign ++ pointed (hundredths fraction 1)
  else sign ++ pointed (hundredths (1 <<< 52 + fraction) exponent)

end Placeholders.Text
