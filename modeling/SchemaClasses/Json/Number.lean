import SchemaClasses.Decimal.Shortest
import SchemaClasses.Json.Token

set_option autoImplicit false

namespace SchemaClasses.Json

inductive Number where
  | integer (n : Int)
  | double (bits : UInt64)
deriving DecidableEq

namespace Number

def digit (c : Char) : Nat := c.toNat - '0'.toNat

def largestWord : Nat := Nat.pow 2 64 - 1

def largestExponent : Nat := Nat.pow 2 31 - 1

def collect : Nat → Text → Nat × Text
  | n, [] => (n, [])
  | n, d :: rest =>
    if 10 * n + digit d ≤ largestWord then collect (10 * n + digit d) rest else (n, d :: rest)

def scale? : Nat → Float → Int → Option Float
  | 0, f, _ => some f
  | steps + 1, f, exponent =>
    if 0 ≤ exponent ∧ exponent ≤ 308 then
      let scaled := f * Float.ofScientific 1 false exponent.toNat
      if scaled.isInf then none else some scaled
    else if exponent < 0 ∧ -308 ≤ exponent then
      some (f / Float.ofScientific 1 false exponent.natAbs)
    else if f == 0.0 then some f
    else if 0 ≤ exponent then none
    else scale? steps (f / Float.ofScientific 1 false 308) (exponent + 308)

def double? (negative : Bool) (significand : Nat) (exponent : Int) : Option Number :=
  (scale? (exponent.natAbs / 308 + 1) significand.toUInt64.toFloat exponent).map fun f =>
    double (if negative then -f else f).toBits

def withExponent? (negative : Bool) (significand : Nat) (start : Int) (below : Bool)
    (digits : Text) : Option Number :=
  let exponent := (Text.toNat? digits).getD 0
  if largestExponent < exponent then
    -- Zero stays zero under any exponent, and an exponent far too small makes zero.
    if significand ≠ 0 ∧ below = false then none else double? negative 0 0
  else double? negative significand (if below then start - exponent else start + exponent)

def ofInteger? (negative : Bool) (n : Nat) : Option Number :=
  if negative = false then some (integer n)
  else if 0 < n ∧ n ≤ Nat.pow 2 63 then some (integer (-n))
  else double? true n 0

def ofLiteral? (literal : NumberLiteral) : Option Number :=
  let (whole, left) := collect 0 literal.whole
  if left = [] ∧ literal.fraction = [] ∧ literal.exponent = none then
    ofInteger? literal.negative whole
  else
    let (significand, ignored) := collect whole literal.fraction
    let start : Int := left.length - (literal.fraction.length - ignored.length : Nat)
    match literal.exponent with
    | none => double? literal.negative significand start
    | some (below, digits) => withExponent? literal.negative significand start below digits

def positional : Decimal.Positional := ⟨-5, 15⟩

def renderDouble (bits : UInt64) : Text :=
  let magnitude := bits &&& 0x7fffffffffffffff
  let text :=
    if magnitude = 0 then "0.0".toList
    else (Decimal.shortest (.ofBits magnitude)).render positional
  if bits = magnitude then text else '-' :: text

def render : Number → Text
  | integer n => Text.ofInt n
  | double bits => renderDouble bits

end Number

end SchemaClasses.Json
