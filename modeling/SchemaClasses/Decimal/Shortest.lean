import SchemaClasses.Text.Basic

set_option autoImplicit false

/-!
The shortest decimal of a binary floating-point number. Every real between the midpoints to its two
neighbours rounds to the number, the midpoints themselves if its significand is even. The shortest
decimal lies on the coarsest decimal grid with a point in that interval; of two such points next to
the number the nearer is taken.
-/

namespace SchemaClasses.Decimal

structure Binary where
  significand : Nat
  exponent : Int
deriving DecidableEq

structure Expansion where
  digits : Nat
  exponent : Int
deriving DecidableEq

/-- A number and the ends of the interval that rounds to it, counted in units of a decimal grid. -/
structure Scaled where
  unit : Nat
  low : Nat
  value : Nat
  high : Nat
  closed : Bool

namespace Binary

def ofBits (bits : UInt64) : Binary :=
  let exponent := ((bits >>> 52) &&& 0x7ff).toNat
  let fraction := (bits &&& 0xfffffffffffff).toNat
  if exponent = 0 then ⟨fraction, -1074⟩ else ⟨Nat.pow 2 52 + fraction, (exponent : Int) - 1075⟩

def isLowest (b : Binary) : Bool := b.significand == Nat.pow 2 52 && decide (-1074 < b.exponent)

def onGrid (b : Binary) (grid : Int) : Scaled :=
  -- Quarters of the last place make both midpoints whole.
  let binary := b.exponent - 2
  let factor := Nat.pow 2 binary.toNat * Nat.pow 10 (-grid).toNat
  let quarters := 4 * b.significand
  { unit := Nat.pow 10 grid.toNat * Nat.pow 2 (-binary).toNat
    low := (if b.isLowest then quarters - 1 else quarters - 2) * factor
    value := quarters * factor
    high := (quarters + 2) * factor
    closed := b.significand % 2 == 0 }

end Binary

namespace Scaled

def holds (s : Scaled) (point : Nat) : Bool :=
  if s.closed then s.low ≤ point * s.unit && point * s.unit ≤ s.high
  else s.low < point * s.unit && point * s.unit < s.high

def point? (s : Scaled) : Option Nat :=
  let below := s.value / s.unit
  match s.holds below, s.holds (below + 1) with
  | false, false => none
  | true, false => some below
  | false, true => some (below + 1)
  | true, true =>
    let rest := 2 * (s.value % s.unit)
    if rest < s.unit ∨ (rest = s.unit ∧ below % 2 = 0) then some below else some (below + 1)

end Scaled

def coarsest (b : Binary) : Nat → Int → Expansion
  | 0, grid => ⟨0, grid⟩
  | finer + 1, grid =>
    match (b.onGrid grid).point? with
    | some digits => ⟨digits, grid⟩
    | none => coarsest b finer (grid - 1)

-- No double reaches ten to the 309, and each is a whole multiple of ten to the minus 1074.
def shortest (b : Binary) : Expansion := coarsest b (309 + 1075) 309

structure Positional where
  least : Int
  greatest : Int

def zeros (n : Nat) : Text := List.replicate n '0'

def signed (n : Int) : Text :=
  if n < 0 then '-' :: Text.ofNat n.natAbs else '+' :: Text.ofNat n.natAbs

def withPoint (digits : Text) (whole : Int) : Text :=
  if whole ≤ 0 then "0.".toList ++ zeros (-whole).toNat ++ digits
  else if (digits.length : Int) ≤ whole then
    digits ++ zeros (whole.toNat - digits.length) ++ ".0".toList
  else digits.take whole.toNat ++ '.' :: digits.drop whole.toNat

def scientific (digits : Text) (exponent : Int) : Text :=
  match digits with
  | [] => []
  | [d] => d :: 'e' :: signed exponent
  | d :: more => d :: '.' :: more ++ 'e' :: signed exponent

def Expansion.render (positional : Positional) (d : Expansion) : Text :=
  let digits := Text.ofNat d.digits
  let leading := d.exponent + digits.length - 1
  if positional.least ≤ leading ∧ leading ≤ positional.greatest then withPoint digits (leading + 1)
  else scientific digits leading

end SchemaClasses.Decimal
