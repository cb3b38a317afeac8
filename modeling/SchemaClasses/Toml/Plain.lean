import SchemaClasses.Text.Basic

set_option autoImplicit false

namespace SchemaClasses.Toml.Plain

def isDigits (p : Char → Bool) (s : Text) : Bool :=
  (Text.splitOn '_' s).all fun run => !run.isEmpty && run.all p

def hasLeadingZero (s : Text) : Bool := s.head? == some '0' && s != ['0']

def cutSign : Text → Bool × Text
  | '-' :: rest => (true, rest)
  | '+' :: rest => (false, rest)
  | s => (false, s)

def digit (c : Char) : Nat :=
  if c.isDigit then c.toNat - '0'.toNat else (c.toNat - 'A'.toNat) % 32 + 10

def valueOf (base : Nat) (s : Text) : Nat :=
  (s.filter (· ≠ '_')).foldl (fun n c => base * n + digit c) 0

def wordBound : Nat := Nat.pow 2 63

def isDecimalInteger (s : Text) : Bool :=
  let (negative, body) := cutSign s
  isDigits Char.isDigit body && !hasLeadingZero body
    && valueOf 10 body ≤ if negative then wordBound else wordBound - 1

def isHexDigit (c : Char) : Bool := c.isDigit || ('a' ≤ c && c ≤ 'f') || ('A' ≤ c && c ≤ 'F')

def isInteger (s : Text) : Bool :=
  match s with
  | '0' :: 'x' :: body => isDigits isHexDigit body && valueOf 16 body < wordBound
  | '0' :: 'o' :: body => isDigits (fun c => '0' ≤ c && c ≤ '7') body && valueOf 8 body < wordBound
  | '0' :: 'b' :: body =>
    isDigits (fun c => c == '0' || c == '1') body && valueOf 2 body < wordBound
  | _ => isDecimalInteger s

def cutAt (p : Char → Bool) (s : Text) : Text × Text := s.span fun c => !p c

def isTooLarge (significand : Nat) (exponent : Int) : Bool :=
  let limit := Nat.pow 2 1024 - Nat.pow 2 970
  let size := (Text.ofNat significand).length + exponent
  if significand = 0 ∨ size < 309 then false
  else if 309 < size then true
  else limit * Nat.pow 10 (-exponent).toNat ≤ significand * Nat.pow 10 exponent.toNat

def isDecimalFloat (s : Text) : Bool :=
  let (negative, body) := cutSign s
  let (mantissa, exponent) := cutAt (fun c => c == 'e' || c == 'E') body
  let (whole, fraction) := cutAt (· == '.') mantissa
  let exponentOk := exponent.isEmpty || isDigits Char.isDigit (cutSign exponent.tail).2
  let fractionOk := fraction.isEmpty || isDigits Char.isDigit fraction.tail
  let (below, digits) := cutSign exponent.tail
  let scale : Int := if below then -(valueOf 10 digits) else valueOf 10 digits
  let places := (fraction.tail.filter (· ≠ '_')).length
  isDigits Char.isDigit whole && !hasLeadingZero whole && fractionOk && exponentOk
    && !(fraction.isEmpty && exponent.isEmpty)
    && (negative || !isTooLarge (valueOf 10 (whole ++ fraction.tail)) (scale - places))

def isSpecialFloat (s : Text) : Bool :=
  let body := (cutSign s).2
  body == "inf".toList || body == "nan".toList

def digits? (count : Nat) (s : Text) : Option (Nat × Text) :=
  let digits := s.take count
  if digits.length = count ∧ digits.all Char.isDigit then some (valueOf 10 digits, s.drop count)
  else none

def twoDigits? (bound : Nat) (s : Text) : Option Text :=
  (digits? 2 s).bind fun (n, rest) => if n ≤ bound then some rest else none

def daysIn (year month : Nat) : Nat :=
  if month = 2 then (if year % 4 = 0 ∧ (year % 100 ≠ 0 ∨ year % 400 = 0) then 29 else 28)
  else if month ∈ [4, 6, 9, 11] then 30 else 31

def afterDate? (s : Text) : Option Text := do
  let (year, rest) ← digits? 4 s
  let (month, rest) ← digits? 2 (← Text.dropStart? ['-'] rest)
  let (day, rest) ← digits? 2 (← Text.dropStart? ['-'] rest)
  guard (1 ≤ month ∧ month ≤ 12 ∧ 1 ≤ day ∧ day ≤ daysIn year month)
  return rest

def afterTime? (s : Text) : Option Text := do
  let rest ← twoDigits? 59 (← Text.dropStart? [':'] (← twoDigits? 23 s))
  let rest ← twoDigits? 60 (← Text.dropStart? [':'] rest)
  match rest with
  | '.' :: rest => if rest.head?.any Char.isDigit then some (rest.dropWhile Char.isDigit) else none
  | rest => some rest

def isOffset (s : Text) : Bool :=
  match s with
  | [] => true
  | [c] => c == 'Z' || c == 'z'
  | sign :: rest =>
    (sign == '+' || sign == '-')
      && (((twoDigits? 23 rest).bind (Text.dropStart? [':'])).bind (twoDigits? 59)) == some []

def isMoment (s : Text) : Bool :=
  match afterDate? s with
  | none => afterTime? s == some []
  | some [] => true
  | some (c :: rest) =>
    (c == 'T' || c == 't' || c == ' ') && (afterTime? rest).any isOffset

def isWellFormed (s : Text) : Bool :=
  s == "true".toList || s == "false".toList || isInteger s || isDecimalFloat s || isSpecialFloat s
    || isMoment s

end SchemaClasses.Toml.Plain
