import SchemaClasses.Proofs.Schema.Spelling
import SchemaClasses.Proofs.Text.Occurrences

set_option autoImplicit false

namespace SchemaClasses.Schema

open Text

def escapeOf : Char → Text
  | '\\' => ['\\', '\\']
  | '"' => ['\\', '"']
  | '\n' => ['\\', 'n']
  | '\r' => ['\\', 'r']
  | c => [c]

theorem escapeOf_of_ne {c : Char} (noBackslash : c ≠ '\\') (noQuote : c ≠ '"') (noFeed : c ≠ '\n')
    (noReturn : c ≠ '\r') : escapeOf c = [c] := by
  unfold escapeOf
  split <;> simp_all

theorem escape_eq_flatMap (s : Text) : escape s = s.flatMap escapeOf := by
  fun_induction escape s <;> simp_all [escapeOf]

theorem escape_eq_replaceAll (s : Text) :
    escape s = replaceAll ['\r'] "\\r".toList (replaceAll ['\n'] "\\n".toList
      (replaceAll ['"'] "\\\"".toList (replaceAll ['\\'] "\\\\".toList s))) := by
  simp only [replaceAll_singleton, List.flatMap_assoc, escape_eq_flatMap]
  congr 1
  funext c
  unfold escapeOf
  split <;> simp_all

def escaped? : Char → Option Char
  | '\\' => some '\\'
  | '"' => some '"'
  | 'n' => some '\n'
  | 'r' => some '\r'
  | _ => none

inductive Stop where
  | finished
  | quote (after : Text)
  | lineEnd
  | otherEscape (c : Char)
  | loneBackslash
deriving DecidableEq

/-- What is read from left to right, and what the reading comes to an end at. -/
def unescape : Text → Text × Stop
  | [] => ([], .finished)
  | ['\\'] => ([], .loneBackslash)
  | '\\' :: c :: rest =>
    match escaped? c with
    | some d => (unescape rest).map (d :: ·) id
    | none => ([], .otherEscape c)
  | '"' :: after => ([], .quote after)
  | '\n' :: _ => ([], .lineEnd)
  | '\r' :: _ => ([], .lineEnd)
  | c :: rest => (unescape rest).map (c :: ·) id

theorem unescape_escapeOf (c : Char) (rest : Text) :
    unescape (escapeOf c ++ rest) = (unescape rest).map (c :: ·) id := by
  unfold escapeOf
  split <;> simp_all [unescape, escaped?]

theorem unescape_append (s rest : Text) :
    unescape (escape s ++ rest) = (unescape rest).map (s ++ ·) id := by
  rw [escape_eq_flatMap]
  induction s with
  | nil => rfl
  | cons c s ih =>
    rw [List.flatMap_cons, List.append_assoc, unescape_escapeOf, ih]
    rfl

theorem escapeOf_of_escaped? {c d : Char} (stands : escaped? c = some d) : escapeOf d = ['\\', c] := by
  unfold escaped? at stands
  split at stands <;> cases stands <;> rfl

theorem exists_escape_append (t : Text) :
    ∃ rest, t = escape (unescape t).1 ++ rest ∧ unescape rest = ([], (unescape t).2) := by
  fun_induction unescape t with
  | case1 => exact ⟨[], rfl, rfl⟩
  | case2 => exact ⟨['\\'], rfl, rfl⟩
  | case3 c rest d stands ih =>
    obtain ⟨left, whole, stops⟩ := ih
    refine ⟨left, ?_, stops⟩
    have front : escape (d :: (unescape rest).1) = '\\' :: c :: escape (unescape rest).1 := by
      simp [escape_eq_flatMap, escapeOf_of_escaped? stands]
    rw [Prod.map, front, List.cons_append, List.cons_append, ← whole]
  | case4 c rest other => exact ⟨'\\' :: c :: rest, rfl, by simp [unescape, other]⟩
  | case5 after => exact ⟨'"' :: after, rfl, rfl⟩
  | case6 | case7 => exact ⟨_, rfl, rfl⟩
  | case8 c rest alone other noQuote noFeed noReturn ih =>
    obtain ⟨left, whole, stops⟩ := ih
    -- A backslash is read either alone or with the character behind it.
    have noBackslash : c ≠ '\\' := by
      intro backslash
      cases rest with
      | nil => exact alone backslash rfl
      | cons d rest => exact other d rest backslash rfl
    refine ⟨left, ?_, stops⟩
    have front : escape (c :: (unescape rest).1) = c :: escape (unescape rest).1 := by
      simp [escape_eq_flatMap, escapeOf_of_ne noBackslash noQuote noFeed noReturn]
    rw [Prod.map, front, List.cons_append, ← whole]

theorem eq_nil_of_finished {t : Text} (stops : unescape t = ([], .finished)) : t = [] := by
  fun_cases unescape t <;> simp_all [unescape, Prod.map]

theorem eq_cons_of_quote {t after : Text} (stops : unescape t = ([], .quote after)) :
    t = '"' :: after := by
  fun_cases unescape t <;> simp_all [unescape, Prod.map]

theorem unescape_eq_iff {t s : Text} {stop : Stop} :
    unescape t = (s, stop) ↔ ∃ rest, t = escape s ++ rest ∧ unescape rest = ([], stop) := by
  constructor
  · intro read
    obtain ⟨rest, whole, stops⟩ := exists_escape_append t
    rw [read] at whole stops
    exact ⟨rest, whole, stops⟩
  · rintro ⟨rest, rfl, stops⟩
    rw [unescape_append, stops, Prod.map, List.append_nil]
    rfl

theorem unescape_eq_finished_iff {t s : Text} : unescape t = (s, .finished) ↔ t = escape s := by
  rw [unescape_eq_iff]
  constructor
  · rintro ⟨rest, rfl, stops⟩
    rw [eq_nil_of_finished stops, List.append_nil]
  · rintro rfl
    exact ⟨[], (List.append_nil _).symm, rfl⟩

theorem unescape_eq_quote_iff {t s after : Text} :
    unescape t = (s, .quote after) ↔ t = escape s ++ '"' :: after := by
  rw [unescape_eq_iff]
  constructor
  · rintro ⟨rest, rfl, stops⟩
    rw [eq_cons_of_quote stops]
  · rintro rfl
    exact ⟨_, rfl, rfl⟩

example : unescape "a\\\\\"b\\tc".toList = ("a\\".toList, .quote "b\\tc".toList) := by decide

theorem escape_injective : Function.Injective escape := by
  intro s other same
  have read := unescape_eq_finished_iff.mpr same
  rw [unescape_eq_finished_iff.mpr rfl] at read
  exact (Prod.mk.inj read).1

/-- The first literal of a line: what stands before its opening quote, what it holds, and what stands
behind its closing quote. -/
def firstLiteral? (line : Text) : Option (Text × Text × Text) :=
  match splitOnce? '"' line with
  | none => none
  | some (before, body) =>
    match unescape body with
    | (s, .quote after) => some (before, s, after)
    | _ => none

theorem firstLiteral?_iff {line before s after : Text} :
    firstLiteral? line = some (before, s, after) ↔
      '"' ∉ before ∧ line = before ++ (quote s ++ after) := by
  have closed : quote s ++ after = '"' :: (escape s ++ '"' :: after) := by simp [quote]
  rw [closed]
  constructor
  · intro found
    unfold firstLiteral? at found
    split at found
    · cases found
    · rename_i front body cut
      split at found
      · rename_i content behind read
        cases found
        obtain ⟨absent, whole⟩ := splitOnce?_eq_some_iff.mp cut
        exact ⟨absent, unescape_eq_quote_iff.mp read ▸ whole⟩
      · cases found
  · rintro ⟨absent, rfl⟩
    have read : unescape (escape s ++ '"' :: after) = (s, .quote after) := unescape_eq_quote_iff.mpr rfl
    rw [firstLiteral?, splitOnce?_append absent]
    simp only [read]

theorem quote_notMem_of_isTypeSign {s : Text} (signs : ∀ c ∈ s, isTypeSign c = true) : '"' ∉ s :=
  fun member => absurd (signs _ member) (by decide)

namespace PropertyModel

variable {property : PropertyModel}

theorem quote_notMem_accessors (plain : property.Plain) : '"' ∉ property.accessors := by
  have type := quote_notMem_of_isTypeSign (TypeName.isTypeSign_of_mem_render plain.type)
  have name : '"' ∉ property.name := by
    rw [plain.name]
    exact quote_notMem_of_isTypeSign fun c member =>
      isTypeSign_of_isPlain (Naming.plain_pascalCase _ c member)
  simp [accessors, indent, type, name]

theorem firstLiteral?_annotationLine (property : PropertyModel) :
    firstLiteral? property.annotationLine =
      some (indent 2 ++ "[Newtonsoft.Json.JsonProperty(".toList, property.jsonName,
        ", ".toList ++ property.handling ++ ")]".toList) :=
  firstLiteral?_iff.mpr ⟨by decide, by simp [annotationLine]⟩

theorem firstLiteral?_declaration (plain : property.Plain) {s : Text}
    (given : property.initializer? = some (.literal (quote s))) :
    firstLiteral? property.declaration = some (property.accessors ++ " = ".toList, s, [';']) := by
  have spelled : property.declaration = property.accessors ++ " = ".toList ++ quote s ++ [';'] := by
    rw [declaration, given]
    rfl
  rw [firstLiteral?_iff]
  constructor
  · have equals : '"' ∉ " = ".toList := by decide
    exact List.not_mem_append (quote_notMem_accessors plain) equals
  · rw [spelled]
    exact List.append_assoc _ _ _

end PropertyModel

structure LiteralReadBack (s : Text) : Prop where
  passes : escape s = replaceAll ['\r'] "\\r".toList (replaceAll ['\n'] "\\n".toList
    (replaceAll ['"'] "\\\"".toList (replaceAll ['\\'] "\\\\".toList s)))
  read : unescape (escape s) = (s, .finished)
  only : ∀ t, unescape t = (s, .finished) → t = escape s
  injective : ∀ other, escape other = escape s → other = s
  closed : ∀ line before after, firstLiteral? line = some (before, s, after) ↔
    '"' ∉ before ∧ line = before ++ (quote s ++ after)
  annotation : ∀ property : PropertyModel, property.jsonName = s →
    firstLiteral? property.annotationLine =
      some (indent 2 ++ "[Newtonsoft.Json.JsonProperty(".toList, s,
        ", ".toList ++ property.handling ++ ")]".toList)
  declaration : ∀ document path, ∀ model ∈ classes document (rootName document path),
    ∀ property ∈ model.properties, property.initializer? = some (.literal (quote s)) →
      firstLiteral? property.declaration = some (property.accessors ++ " = ".toList, s, [';'])

theorem string_literals_read_back (s : Text) : LiteralReadBack s where
  passes := escape_eq_replaceAll s
  read := unescape_eq_finished_iff.mpr rfl
  only := fun _ read => unescape_eq_finished_iff.mp read
  injective := fun _ same => escape_injective same
  closed := fun _ _ _ => firstLiteral?_iff
  annotation := by
    rintro property rfl
    exact property.firstLiteral?_annotationLine
  declaration := by
    intro document path model listed property member given
    have plain := plain_classes (plain_rootName document path) document model listed
    exact PropertyModel.firstLiteral?_declaration (plain.properties property member) given

def backslashes : Json.Value :=
  .object [
    ("properties".toList, .object [
      ("\\".toList, .object [("default".toList, .string "\\\"\\\r\n\\".toList)])])]

theorem backslashes_read_back :
    ∃ model ∈ classes backslashes (rootName backslashes ⟨"keys.json".toList⟩),
      ∃ property ∈ model.properties,
        property.initializer? = some (.literal (quote "\\\"\\\r\n\\".toList)) ∧
        firstLiteral? property.declaration =
          some (property.accessors ++ " = ".toList, "\\\"\\\r\n\\".toList, [';']) := by
  obtain ⟨model, listed, property, member, given⟩ :
      ∃ model ∈ classes backslashes (rootName backslashes ⟨"keys.json".toList⟩),
        ∃ property ∈ model.properties,
          property.initializer? = some (.literal (quote "\\\"\\\r\n\\".toList)) := by
    decide +kernel
  have literals := string_literals_read_back "\\\"\\\r\n\\".toList
  exact ⟨model, listed, property, member, given,
    literals.declaration _ _ model listed property member given⟩

end SchemaClasses.Schema
