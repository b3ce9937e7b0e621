import Tangent.Decimal.Whole
import Tangent.Text.Quoted

/-! Flags of the command line, and how they are told from other arguments. -/

namespace Tangent.Cli

/-- What a flag is given. -/
inductive FlagKind where
  | text
  | integer
  | natural
  | switch
deriving DecidableEq, Repr

/-- A flag with its name and the letter that may stand for it. -/
structure Flag where
  name : String
  letter : Option Char
  kind : FlagKind
deriving DecidableEq, Repr

/-- A flag as messages name it. -/
def Flag.title (f : Flag) : String :=
  match f.letter with
  | some letter => s!"-{letter}, --{f.name}"
  | none => s!"--{f.name}"

/-- Whether a flag can stand without a value. -/
def Flag.standsAlone (f : Flag) : Bool := f.kind == .switch

/-- Why a value does not suit a flag. -/
def FlagKind.faultText (kind : FlagKind) (value : String) (fault : Decimal.WholeFault) : String :=
  let reader :=
    match kind with
    | .text => ""
    | .integer => "strconv.ParseInt"
    | .natural => "strconv.ParseUint"
    | .switch => "strconv.ParseBool"
  s!"{reader}: parsing {Text.quote value}: {fault.message}"

/-- Why arguments cannot be used. -/
inductive ArgumentError where
  | unknownFlag (name : String)
  | unknownLetter (letter : Char) (letters : String)
  | noValue (name : String)
  | noLetterValue (letter : Char) (letters : String)
  | malformed (argument : String)
  | badValue (flag : Flag) (value : String) (fault : Decimal.WholeFault)
  /-- An argument that is not expected, of a command, and what may have been meant. -/
  | unexpected (argument command : String) (meant : List String)
deriving DecidableEq, Repr

/-- The message of an argument error. -/
def ArgumentError.message : ArgumentError → String
  | .unknownFlag name => s!"unknown flag: --{name}"
  | .unknownLetter letter letters =>
    s!"unknown shorthand flag: {Text.quoteLetter letter} in -{letters}"
  | .noValue name => s!"flag needs an argument: --{name}"
  | .noLetterValue letter letters =>
    s!"flag needs an argument: {Text.quoteLetter letter} in -{letters}"
  | .malformed argument => s!"bad flag syntax: {argument}"
  | .badValue flag value fault =>
    s!"invalid argument {Text.quote value} for {Text.quote flag.title} flag: " ++
      flag.kind.faultText value fault
  | .unexpected argument command meant =>
    s!"unknown command {Text.quote argument} for {Text.quote command}" ++
      (if meant.isEmpty then ""
      else "\n\nDid you mean this?\n" ++ String.join (meant.map (fun name => s!"\t{name}\n")))

/-- What the flags say; absent where a flag was not given. -/
structure Options where
  configPath : String
  paths : Option Int64
  seed : Option UInt64
  listing : Bool
  eager : Option Bool
  metricsPath : String
  logLevel : Option String
  programPath : String
  outPath : String
  help : Bool

namespace Options

/-- What holds when no flag is given. -/
def initial : Options := ⟨"", none, none, false, none, "", none, "", "program.axp", false⟩

/-- The truth value of a text. -/
def switch? (value : String) : Except Decimal.WholeFault Bool :=
  if ["1", "t", "T", "TRUE", "true", "True"].contains value then .ok true
  else if ["0", "f", "F", "FALSE", "false", "False"].contains value then .ok false
  else .error .malformed

/-- Gives a flag a value. -/
def set (o : Options) (flag : Flag) (value : String) : Except ArgumentError Options := do
  let refuse (fault : Decimal.WholeFault) : ArgumentError := .badValue flag value fault
  match flag.name with
  | "config" => return { o with configPath := value }
  | "paths" =>
    let n ← (Decimal.readInteger value.toList).mapError refuse
    return { o with paths := some (Int64.ofInt n) }
  | "seed" =>
    let n ← (Decimal.readNatural value.toList).mapError refuse
    return { o with seed := some (UInt64.ofNat n) }
  | "dump" => return { o with listing := ← (switch? value).mapError refuse }
  | "eager" => return { o with eager := some (← (switch? value).mapError refuse) }
  | "metrics-out" => return { o with metricsPath := value }
  | "log-level" => return { o with logLevel := some value }
  | "program" => return { o with programPath := value }
  | "out" => return { o with outPath := value }
  | "help" => return { o with help := ← (switch? value).mapError refuse }
  -- The one flag without an option of its own is a switch, whose value is read all the same.
  | _ =>
    let _ ← (switch? value).mapError refuse
    return o

end Options

/-- The flags of every command. -/
def commonFlags : List Flag :=
  [⟨"config", some 'c', .text⟩, ⟨"paths", some 'n', .integer⟩, ⟨"seed", none, .natural⟩,
    ⟨"dump", none, .switch⟩, ⟨"eager", none, .switch⟩, ⟨"metrics-out", none, .text⟩,
    ⟨"log-level", none, .text⟩]

/-- The flag that asks for help. -/
def helpFlag : Flag := ⟨"help", some 'h', .switch⟩

/-- The flag with a name. -/
def byName? (flags : List Flag) (name : String) : Option Flag :=
  flags.find? (fun f => f.name == name)

/-- The flag with a letter. -/
def byLetter? (flags : List Flag) (letter : Char) : Option Flag :=
  flags.find? (fun f => f.letter == some letter)

/-- What an argument is. -/
inductive Argument where
  /-- Not a flag. -/
  | word
  /-- What follows are words. -/
  | wordsOnly
  /-- Flags with their values, and then one whose value follows or is missing. -/
  | flags (settings : List (Flag × String)) (waiting : Option (Flag × ArgumentError))

/-- A letter as a message cites it: of one that takes several bytes, the first byte of two. -/
def citedLetter (letter : Char) : Char := if letter.toNat < 0x80 then letter else '\u00c3'

/-- What letters start with that are meant for another reader. -/
def foreignStart : List Char := "test.".toList

/-- Reads letters, each of which is a flag, up to one that takes the rest as its value. -/
def readLetters (flags : List Flag) : List Char →
    Except ArgumentError (List (Flag × String) × Option (Flag × ArgumentError))
  | [] => .ok ([], none)
  | letter :: rest =>
    let letters := String.ofList (letter :: rest)
    if foreignStart.isPrefixOf (letter :: rest) then .ok ([], none)
    else match byLetter? flags letter with
    | none => .error (.unknownLetter (citedLetter letter) letters)
    | some f =>
      match rest with
      -- An equals sign with nothing after it is a value of its own.
      | '=' :: c :: cs => .ok ([(f, String.ofList (c :: cs))], none)
      | _ =>
        -- A switch takes no value, so the letter after it is a flag again.
        if f.standsAlone then
          (readLetters flags rest).map fun (settings, waiting) =>
            ((f, "true") :: settings, waiting)
        else if rest.isEmpty then .ok ([], some (f, .noLetterValue letter letters))
        else .ok ([(f, String.ofList rest)], none)

/-- Reads a flag after its two dashes. -/
def readName (flags : List Flag) (text : String) :
    Except ArgumentError (List (Flag × String) × Option (Flag × ArgumentError)) :=
  let name := String.ofList (text.toList.takeWhile (· != '='))
  match byName? flags name with
  | none => .error (.unknownFlag name)
  | some f =>
    match text.toList.dropWhile (· != '=') with
    | _ :: value => .ok ([(f, String.ofList value)], none)
    | [] =>
      if f.standsAlone then .ok ([(f, "true")], none)
      else .ok ([], some (f, .noValue name))

/-- Tells what an argument is. -/
def readArgument (flags : List Flag) (argument : String) : Except ArgumentError Argument :=
  match argument.toList with
  | ['-', '-'] => .ok .wordsOnly
  | '-' :: '-' :: c :: cs =>
    if c == '-' || c == '=' then .error (.malformed argument)
    else (readName flags (String.ofList (c :: cs))).map (fun found => .flags found.1 found.2)
  | '-' :: c :: cs => (readLetters flags (c :: cs)).map (fun found => .flags found.1 found.2)
  | _ => .ok .word

/-- Gives several flags their values. -/
def setAll (o : Options) (settings : List (Flag × String)) : Except ArgumentError Options :=
  settings.foldlM (fun o (flag, value) => o.set flag value) o

/-- Reads arguments: what the flags say, and the words between them. -/
def readArguments (flags : List Flag) (o : Options) :
    List String → Except ArgumentError (Options × List String)
  | [] => .ok (o, [])
  | argument :: rest => do
    match ← readArgument flags argument with
    | .wordsOnly => return (o, rest)
    | .word =>
      let (o, words) ← readArguments flags o rest
      return (o, argument :: words)
    | .flags settings none => readArguments flags (← setAll o settings) rest
    | .flags settings (some (flag, missing)) =>
      let o ← setAll o settings
      -- The value is the next argument, even if it looks like a flag.
      match rest with
      | [] => throw missing
      | value :: rest => readArguments flags (← o.set flag value) rest

/-- Whether a flag takes the argument after it for its value, as far as is known. -/
def takesNext (flags : List Flag) (argument : String) : Bool :=
  !argument.contains '=' &&
    match argument.toList with
    | '-' :: '-' :: name =>
      !((byName? flags (String.ofList name)).map Flag.standsAlone).getD false
    | ['-', letter] =>
      letter.toNat < 0x80 && !((byLetter? flags letter).map Flag.standsAlone).getD false
    | _ => false

/--
The first word that is not the value of a flag.

A flag that waits for its value before the last argument hides that argument.
-/
def firstWord? (flags : List Flag) : List String → Option String
  | [] => none
  | argument :: rest =>
    if argument == "--" then none
    else if takesNext flags argument then
      match rest with
      | _ :: next :: more => firstWord? flags (next :: more)
      | _ => none
    else if argument.isEmpty || argument.startsWith "-" then firstWord? flags rest
    else some argument

/-- The arguments without the first occurrence of a word that is not the value of a flag. -/
def withoutWord (flags : List Flag) (word : String) : List String → List String
  | [] => []
  | argument :: rest =>
    if argument == "--" then argument :: rest
    else if takesNext flags argument then
      match rest with
      | value :: more => argument :: value :: withoutWord flags word more
      | [] => [argument]
    else if argument == word then rest
    else argument :: withoutWord flags word rest

end Tangent.Cli
