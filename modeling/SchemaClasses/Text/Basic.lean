set_option autoImplicit false

namespace SchemaClasses

abbrev Text := List Char

namespace Text

def consFirst (c : Char) : List Text → List Text
  | [] => [[c]]
  | piece :: pieces => (c :: piece) :: pieces

def splitWhere (separates : Char → Bool) : Text → List Text
  | [] => [[]]
  | c :: rest =>
    if separates c then [] :: splitWhere separates rest else consFirst c (splitWhere separates rest)

def splitOn (sep : Char) (s : Text) : List Text := splitWhere (· == sep) s

@[simp] theorem splitOn_nil (sep : Char) : splitOn sep [] = [[]] := rfl

theorem splitOn_cons (sep c : Char) (rest : Text) : splitOn sep (c :: rest) =
    if c = sep then [] :: splitOn sep rest else consFirst c (splitOn sep rest) := by
  simp [splitOn, splitWhere]

def joinWith (sep : Char) : List Text → Text
  | [] => []
  | [piece] => piece
  | piece :: next :: pieces => piece ++ sep :: joinWith sep (next :: pieces)

theorem splitOn_ne_nil (sep : Char) (s : Text) : splitOn sep s ≠ [] := by
  cases s with
  | nil => simp
  | cons c rest =>
    rw [splitOn_cons]
    split
    · simp
    · cases splitOn sep rest <;> simp [consFirst]

theorem joinWith_consFirst (sep c : Char) {pieces : List Text} (h : pieces ≠ []) :
    joinWith sep (consFirst c pieces) = c :: joinWith sep pieces := by
  match pieces, h with
  | [piece], _ => rfl
  | piece :: next :: rest, _ => rfl

theorem joinWith_nil_cons (sep : Char) {pieces : List Text} (h : pieces ≠ []) :
    joinWith sep ([] :: pieces) = sep :: joinWith sep pieces := by
  cases pieces with
  | nil => exact absurd rfl h
  | cons piece rest => rfl

@[simp] theorem joinWith_splitOn (sep : Char) (s : Text) : joinWith sep (splitOn sep s) = s := by
  induction s with
  | nil => rfl
  | cons c rest ih =>
    by_cases h : c = sep
    · simp [splitOn_cons, h, joinWith_nil_cons sep (splitOn_ne_nil sep rest), ih]
    · simp [splitOn_cons, h, joinWith_consFirst sep c (splitOn_ne_nil sep rest), ih]

theorem splitOn_of_notMem {sep : Char} {s : Text} (h : sep ∉ s) : splitOn sep s = [s] := by
  induction s with
  | nil => rfl
  | cons c rest ih =>
    have hc : c ≠ sep := fun e => h (e ▸ List.mem_cons_self)
    simp [splitOn_cons, hc, ih (fun m => h (List.mem_cons_of_mem _ m)), consFirst]

theorem splitOn_append_sep {sep : Char} {s : Text} (h : sep ∉ s) (rest : Text) :
    splitOn sep (s ++ sep :: rest) = s :: splitOn sep rest := by
  induction s with
  | nil => simp [splitOn_cons]
  | cons c tail ih =>
    have hc : c ≠ sep := fun e => h (e ▸ List.mem_cons_self)
    simp [splitOn_cons, hc, ih (fun m => h (List.mem_cons_of_mem _ m)), consFirst]

theorem splitOn_joinWith {sep : Char} {pieces : List Text} (hne : pieces ≠ [])
    (h : ∀ piece ∈ pieces, sep ∉ piece) : splitOn sep (joinWith sep pieces) = pieces := by
  match pieces, hne with
  | [piece], _ => exact splitOn_of_notMem (h piece List.mem_cons_self)
  | piece :: next :: rest, _ =>
    have ih : splitOn sep (joinWith sep (next :: rest)) = next :: rest :=
      splitOn_joinWith (by simp) (fun p hp => h p (List.mem_cons_of_mem _ hp))
    simp [joinWith, splitOn_append_sep (h piece List.mem_cons_self), ih]

def dropStart? : Text → Text → Option Text
  | [], s => some s
  | _ :: _, [] => none
  | p :: pattern, c :: rest => if p = c then dropStart? pattern rest else none

theorem dropStart?_eq_some_iff {pattern s rest : Text} :
    dropStart? pattern s = some rest ↔ s = pattern ++ rest := by
  induction pattern generalizing s with
  | nil => simp [dropStart?]
  | cons p pattern ih =>
    cases s with
    | nil => simp [dropStart?]
    | cons c s =>
      by_cases h : p = c
      · simp [dropStart?, h, ih]
      · simp [dropStart?, h, Ne.symm h]

def startsWith (pattern s : Text) : Bool := (dropStart? pattern s).isSome

def contains (pattern : Text) : Text → Bool
  | [] => startsWith pattern []
  | c :: rest => startsWith pattern (c :: rest) || contains pattern rest

def dropEndWhile (p : Char → Bool) (s : Text) : Text := (s.reverse.dropWhile p).reverse

def splitOnce? (sep : Char) : Text → Option (Text × Text)
  | [] => none
  | c :: rest =>
    if c = sep then some ([], rest)
    else (splitOnce? sep rest).map fun (before, after) => (c :: before, after)

def afterLast (sep : Char) (s : Text) : Text := (s.reverse.takeWhile (· ≠ sep)).reverse

-- The first number counts the characters of a match that are still to be passed.
def replaceFrom (pattern value : Text) : Nat → Text → Text
  | _, [] => []
  | skip + 1, _ :: rest => replaceFrom pattern value skip rest
  | 0, c :: rest =>
    if startsWith pattern (c :: rest) then
      value ++ replaceFrom pattern value (pattern.length - 1) rest
    else c :: replaceFrom pattern value 0 rest

def replaceAll (pattern value s : Text) : Text := replaceFrom pattern value 0 s

def ofNat (n : Nat) : Text := Nat.toDigits 10 n

def ofInt : Int → Text
  | .ofNat n => ofNat n
  | .negSucc n => '-' :: ofNat (n + 1)

def toNat? : Text → Option Nat
  | [] => none
  | c :: rest =>
    (c :: rest).foldlM
      (fun n d => if d.isDigit then some (10 * n + (d.toNat - '0'.toNat)) else none) 0

def byteLength : Text → Nat
  | [] => 0
  | c :: rest => c.utf8Size + byteLength rest

end Text

end SchemaClasses
