import SchemaClasses.Text.Basic

set_option autoImplicit false

namespace SchemaClasses.Text

def isBlank (c : Char) : Bool :=
  let n := c.toNat
  (9 ≤ n && n ≤ 13) || n == 32 || n == 0x85 || n == 0xA0 || n == 0x1680
    || (0x2000 ≤ n && n ≤ 0x200A) || n == 0x2028 || n == 0x2029 || n == 0x202F || n == 0x205F
    || n == 0x3000

def trimStart (s : Text) : Text := s.dropWhile isBlank

def trimEnd (s : Text) : Text := dropEndWhile isBlank s

def trim (s : Text) : Text := trimEnd (trimStart s)

def indentOf (s : Text) : Text := s.takeWhile isBlank

theorem indentOf_append_trimStart (s : Text) : indentOf s ++ trimStart s = s :=
  List.takeWhile_append_dropWhile

def words (s : Text) : List Text :=
  (splitWhere isBlank s).filter fun run => !run.isEmpty

def foldCase (c : Char) : Char :=
  if c = '\u017f' then 's' else if c = '\u212a' then 'k' else c.toLower

def isLetter (c : Char) : Bool := (foldCase c).isAlpha

def isWordStart (c : Char) : Bool := isLetter c || c == '_'

def isWordPart (c : Char) : Bool := isWordStart c || c.isDigit

def isTypePart (c : Char) : Bool :=
  isLetter c || c.isDigit || c == '_' || c == '.' || c == '<' || c == '>'

def dropStartFolded? : Text → Text → Option Text
  | [], s => some s
  | _ :: _, [] => none
  | p :: pattern, c :: rest => if p = foldCase c then dropStartFolded? pattern rest else none

def takeRun? (p : Char → Bool) (s : Text) : Option (Text × Text) :=
  match s.takeWhile p with
  | [] => none
  | run => some (run, s.dropWhile p)

def sameAscii (s t : Text) : Bool := s.map Char.toLower == t.map Char.toLower

def hexDigit? (c : Char) : Option Nat :=
  if c.isDigit then some (c.toNat - '0'.toNat)
  else if 'a' ≤ c ∧ c ≤ 'f' then some (c.toNat - 'a'.toNat + 10)
  else if 'A' ≤ c ∧ c ≤ 'F' then some (c.toNat - 'A'.toNat + 10)
  else none

def hexValue? (digits : Text) : Option Nat :=
  digits.foldlM (fun n d => (hexDigit? d).map (16 * n + ·)) 0

def charOfNat? (n : Nat) : Option Char := if n.isValidChar then some (Char.ofNat n) else none

end SchemaClasses.Text
