import SchemaClasses.Path

set_option autoImplicit false

namespace SchemaClasses.CommandLine

structure Arguments where
  schema : Path
  outputDirectory? : Option Path
  outputFile : Text
  settingsFile? : Option Path
  namespaceName? : Option Text
  dryRun : Bool
  loggingFile? : Option Path
  reportFile? : Option Path
  verbosity : Nat
deriving DecidableEq

inductive Request where
  | run (arguments : Arguments)
  | help
  | version
deriving DecidableEq

inductive UsageError where
  | unknownOption
  | tooManyArguments
  | repeatedOption
  | missingValue
  | unexpectedValue
  | emptyPath
deriving DecidableEq

inductive Setting where
  | settingsFile
  | namespaceName
  | loggingFile
  | reportFile
deriving DecidableEq

inductive Switch where
  | dryRun
  | verbose
  | help
  | version
deriving DecidableEq

inductive OptionName where
  | setting (setting : Setting)
  | switch (switch : Switch)
deriving DecidableEq

namespace OptionName

def longNames : List (Text × OptionName) :=
  [("config".toList, setting .settingsFile), ("namespace".toList, setting .namespaceName),
    ("log-config".toList, setting .loggingFile), ("report".toList, setting .reportFile),
    ("dry-run".toList, switch .dryRun), ("verbose".toList, switch .verbose),
    ("help".toList, switch .help), ("version".toList, switch .version)]

def letters : List (Char × OptionName) :=
  [('c', setting .settingsFile), ('v', switch .verbose), ('h', switch .help),
    ('V', switch .version)]

end OptionName

inductive Ending where
  | request (request : Request)
  | error (error : UsageError)
deriving DecidableEq

structure Reading where
  places : List Text
  settings : List (Setting × Text)
  dryRun : Bool
  verbosity : Nat

namespace Reading

def start : Reading := ⟨[], [], false, 0⟩

def isPath (setting : Setting) : Bool := setting != .namespaceName

def setValue (setting : Setting) (value : Text) (reading : Reading) : Except Ending Reading :=
  if (reading.settings.lookup setting).isSome then .error (.error .repeatedOption)
  else if value = [] ∧ isPath setting then .error (.error .emptyPath)
  else .ok { reading with settings := reading.settings ++ [(setting, value)] }

def addPlace (value : Text) (reading : Reading) : Except Ending Reading :=
  if 3 ≤ reading.places.length then .error (.error .tooManyArguments)
  else if value = [] ∧ reading.places.length < 2 then .error (.error .emptyPath)
  else .ok { reading with places := reading.places ++ [value] }

def turnOn (switch : Switch) (reading : Reading) : Except Ending Reading :=
  match switch with
  | .help => .error (.request .help)
  | .version => .error (.request .version)
  | .verbose => .ok { reading with verbosity := reading.verbosity + 1 }
  | .dryRun =>
    if reading.dryRun then .error (.error .repeatedOption) else .ok { reading with dryRun := true }

def readLetters : Text → Reading → Except Ending (Option Setting × Reading)
  | [], reading => .ok (none, reading)
  | c :: rest, reading =>
    match OptionName.letters.lookup c with
    | none => .error (.error .unknownOption)
    | some (.switch switch) => do readLetters rest (← reading.turnOn switch)
    | some (.setting setting) =>
      match rest with
      | [] => .ok (some setting, reading)
      | '=' :: value => do return (none, ← reading.setValue setting value)
      | value => do return (none, ← reading.setValue setting value)

def readLong (argument : Text) (reading : Reading) : Except Ending (Option Setting × Reading) :=
  let (name, value?) := match Text.splitOnce? '=' argument with
    | some (name, value) => (name, some value)
    | none => (argument, none)
  match OptionName.longNames.lookup name, value? with
  | none, _ => .error (.error .unknownOption)
  | some (.switch _), some _ => .error (.error .unexpectedValue)
  | some (.switch switch), none => do return (none, ← reading.turnOn switch)
  | some (.setting setting), some value => do return (none, ← reading.setValue setting value)
  | some (.setting setting), none => .ok (some setting, reading)

def looksLikeOption (argument : Text) : Bool :=
  -- A dash alone is an argument like any other.
  argument.head? == some '-' && argument != ['-']

def readAll : (waiting : Option Setting) → (ended : Bool) → List Text → Reading →
    Except Ending Reading
  | some _, _, [], _ => .error (.error .missingValue)
  | none, _, [], reading => .ok reading
  | some setting, ended, argument :: rest, reading =>
    if looksLikeOption argument then .error (.error .missingValue)
    else do readAll none ended rest (← reading.setValue setting argument)
  | none, true, argument :: rest, reading => do readAll none true rest (← reading.addPlace argument)
  | none, false, argument :: rest, reading =>
    match argument with
    | ['-', '-'] => readAll none true rest reading
    | '-' :: '-' :: long => do
      let (waiting, reading) ← reading.readLong long
      readAll waiting false rest reading
    | '-' :: c :: letters => do
      let (waiting, reading) ← reading.readLetters (c :: letters)
      readAll waiting false rest reading
    | _ => do readAll none false rest (← reading.addPlace argument)

def path? (setting : Setting) (reading : Reading) : Option Path :=
  (reading.settings.lookup setting).map Path.mk

def standardSchema : Text := "schema.json".toList

def arguments (standardOutputFile : Text) (reading : Reading) : Arguments where
  schema := ⟨reading.places[0]?.getD standardSchema⟩
  outputDirectory? := reading.places[1]?.map Path.mk
  outputFile := reading.places[2]?.getD standardOutputFile
  settingsFile? := reading.path? .settingsFile
  namespaceName? := reading.settings.lookup .namespaceName
  dryRun := reading.dryRun
  loggingFile? := reading.path? .loggingFile
  reportFile? := reading.path? .reportFile
  verbosity := reading.verbosity

end Reading

def parse (standardOutputFile : Text) (arguments : List Text) : Except UsageError Request :=
  match Reading.readAll none false arguments .start with
  | .ok reading => .ok (.run (reading.arguments standardOutputFile))
  | .error (.request request) => .ok request
  | .error (.error error) => .error error

end SchemaClasses.CommandLine
