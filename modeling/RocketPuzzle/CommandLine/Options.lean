import RocketPuzzle.Text.Numeral

/-! # Options of the command line

What the words of a command line ask for. An option takes the rest of its word after an equals
sign, or the next word, which must not look like an option itself. No option may be given twice.
-/
namespace RocketPuzzle.CommandLine

/-- Where a program comes from. -/
inductive Input where
  /-- A file in the exchange format. -/
  | file (path : String)
  | script (text : String)
  | code (text : String)
  deriving DecidableEq, Repr

structure RunOptions where
  input : Input
  level : Option UInt32
  tutorial : Bool
  step : Bool
  realtime : Bool
  config : Option String
  levels : Option String
  deriving DecidableEq, Repr

inductive Action where
  | version
  | levels (path : Option String)
  | run (options : RunOptions)
  | share (input : Input) (level : Option UInt32)
  deriving DecidableEq, Repr

/-- An option as it was given: its name, and its value if it takes one. -/
structure Given where
  name : String
  value : Option String
  deriving DecidableEq, Repr

/-- The options that a subcommand knows. -/
structure Known where
  flags : List String
  valued : List String
  deriving DecidableEq, Repr

/-- The name and the value of a word that begins with two dashes, which have been taken off. -/
def nameAndValue (word : List Char) : String × Option String :=
  (String.ofList (word.takeWhile (· ≠ '=')),
    ((word.dropWhile (· ≠ '=')).tail?).map String.ofList)

/-- A word that cannot be the value of the option before it. A single dash can. -/
def looksLikeOption : List Char → Bool
  | '-' :: _ :: _ => true
  | _ => false

/-- The options in a row of words, in their order. Nothing but options is known. -/
def options? (known : Known) : List String → Option (List Given)
  | [] => some []
  | word :: rest =>
    match word.toList with
    | ['-', '-'] => if rest.isEmpty then some [] else none
    | '-' :: '-' :: body =>
      match nameAndValue body, rest with
      | (name, none), rest =>
        if name ∈ known.flags then (options? known rest).map (⟨name, none⟩ :: ·)
        else if name ∈ known.valued then
          match rest with
          | [] => none
          | value :: rest =>
            if looksLikeOption value.toList then none
            else (options? known rest).map (⟨name, some value⟩ :: ·)
        else none
      | (name, some value), rest =>
        if name ∈ known.valued then (options? known rest).map (⟨name, some value⟩ :: ·)
        else none
    | _ => none

/-- The options in a row of words, each given once at most. -/
def distinct? (known : Known) (words : List String) : Option (List Given) := do
  let given ← options? known words
  if (given.map (·.name)).Nodup then return given else none

def has (given : List Given) (name : String) : Bool := given.any (·.name = name)

/-- The value of an option, if it was given. -/
def find (given : List Given) (name : String) : Option String := do
  (← given.find? (·.name = name)).value

/-- The name of a file; it cannot be empty. -/
def path? (given : List Given) (name : String) : Option (Option String) :=
  match find given name with
  | none => some none
  | some "" => none
  | some path => some (some path)

/-- A number below `2 ^ 32`, perhaps after a sign. -/
def number? (text : List Char) : Option UInt32 :=
  match text with
  | '-' :: digits => do if (← Text.natural? digits) = 0 then return 0 else none
  | '+' :: digits => do Text.word32? (← Text.natural? digits)
  | digits => do Text.word32? (← Text.natural? digits)

def level? (given : List Given) : Option (Option UInt32) :=
  match find given "level" with
  | none => some none
  | some text => (number? text.toList).map some

/-- The program; it is given in exactly one way. -/
def input? (given : List Given) : Option Input := do
  match ← path? given "program", find given "script", find given "share" with
  | some path, none, none => return .file path
  | none, some text, none => return .script text
  | none, none, some code => return .code code
  | _, _, _ => none

def levelsAction? (words : List String) : Option Action := do
  let given ← distinct? ⟨[], ["levels"]⟩ words
  return .levels (← path? given "levels")

def shareAction? (words : List String) : Option Action := do
  let given ← distinct? ⟨[], ["program", "script", "share", "level"]⟩ words
  return .share (← input? given) (← level? given)

def runAction? (words : List String) : Option Action := do
  let given ← distinct?
    ⟨["tutorial", "step", "realtime"],
      ["program", "script", "share", "level", "config", "levels"]⟩ words
  if has given "tutorial" ∧ has given "level" then none
  return .run {
    input := ← input? given
    level := ← level? given
    tutorial := has given "tutorial"
    step := has given "step"
    realtime := has given "realtime"
    config := ← path? given "config"
    levels := ← path? given "levels" }

/-- The word asks for the version, whatever follows its first letter. -/
def asksVersion (word : String) : Bool :=
  word = "--version" || word.toList.take 2 = ['-', 'V']

/-- What a command line asks for, unless it is not understood. -/
def action? : List String → Option Action
  | "levels" :: words => levelsAction? words
  | "run" :: words => runAction? words
  | "share" :: words => shareAction? words
  | word :: _ => if asksVersion word then some .version else none
  | [] => none

end RocketPuzzle.CommandLine
