/-!
The arithmetic of the event search, which is that of singles. Rounding gives the nearest number with
24 significant bits, the one with an even last bit if two are equally near. Arithmetic in single
precision is exact arithmetic with each result rounded, so a rational is all that is needed to hold
a value. Left out are negative numbers, infinities and numbers close to zero, which no score comes
to.
-/
namespace HandlerIndex.Single

def scale (q : Rat) : Int :=
  let guess : Int := (Nat.log2 q.num.natAbs : Int) - (Nat.log2 q.den : Int)
  if q < (2 : Rat) ^ guess then guess - 1 else guess

/-- The nearest whole number, the even one if two are equally near. -/
def nearest (q : Rat) : Int :=
  let below := q.floor
  let excess := q - below
  if excess < 1 / 2 then below
  else if 1 / 2 < excess then below + 1
  else if below % 2 = 0 then below
  else below + 1

def round (q : Rat) : Rat :=
  if q ≤ 0 then 0
  else
    let unit := (2 : Rat) ^ (scale q - 23)
    nearest (q / unit) * unit

def leadingBit : Nat := 8388608

def bits (q : Rat) : UInt32 :=
  if q ≤ 0 then 0
  else
    let significand := (q / (2 : Rat) ^ (scale q - 23)).floor
    UInt32.ofNat ((scale q + 127).toNat * leadingBit + significand.toNat - leadingBit)

end HandlerIndex.Single
