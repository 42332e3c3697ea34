import CalcScript.Floating.Rounding

/-!
# Exact operations on floating-point data

The four operations before rounding. On finite data they are the operations of the rational
numbers; the rules for infinities, zeros and `nan` are those of floating-point arithmetic. A zero
sum of numbers of different sign is positive, products and quotients take the sign their operands
give them.
-/

namespace CalcScript.Floating

/-- The sum. -/
def add : Floating → Floating → Floating
  | .nan, _ => .nan
  | _, .nan => .nan
  | .infinity s, .infinity t => if s = t then .infinity s else .nan
  | .infinity s, .finite _ _ => .infinity s
  | .finite _ _, .infinity t => .infinity t
  | .finite s m, .finite t n =>
    if s = t then .finite s (m + n)
    else if n < m then .finite s (m - n)
    else if m < n then .finite t (n - m)
    else .finite false 0

/-- The difference. -/
def sub (x y : Floating) : Floating := x.add y.neg

/-- The product. -/
def mul : Floating → Floating → Floating
  | .nan, _ => .nan
  | _, .nan => .nan
  | .infinity s, .infinity t => .infinity (s ^^ t)
  | .infinity s, .finite t n => if n = 0 then .nan else .infinity (s ^^ t)
  | .finite s m, .infinity t => if m = 0 then .nan else .infinity (s ^^ t)
  | .finite s m, .finite t n => .finite (s ^^ t) (m * n)

/-- The quotient. A number other than zero over zero is infinite. -/
def div : Floating → Floating → Floating
  | .nan, _ => .nan
  | _, .nan => .nan
  | .infinity _, .infinity _ => .nan
  | .infinity s, .finite t _ => .infinity (s ^^ t)
  | .finite s _, .infinity t => .finite (s ^^ t) 0
  | .finite s m, .finite t n =>
    if n = 0 then (if m = 0 then .nan else .infinity (s ^^ t))
    else .finite (s ^^ t) (m / n)

/-- Two operands are brought to single precision, the operation is done in double precision, and
its result is kept in single precision. -/
def inSingle (op : Floating → Floating → Floating) (x y : Floating) : Floating :=
  (op x.toSingle y.toSingle).toDouble.toSingle

end CalcScript.Floating
