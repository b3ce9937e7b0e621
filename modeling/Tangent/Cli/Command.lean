import Tangent.Cli.Flags
import Tangent.Session

/-! Commands of the command line, and what they do to files. -/

namespace Tangent.Cli

/-- What can be asked for. -/
inductive Command where
  | run
  | gradient
  | compile
  | version
deriving DecidableEq, Repr

/-- The name of the program. -/
def programName : String := "autoexpr"

namespace Command

/-- The commands in the order in which they are suggested. -/
def all : List Command := [.run, .gradient, .compile, .version]

/-- The name of a command. -/
def name : Command → String
  | .run => "run"
  | .gradient => "gradient"
  | .compile => "compile"
  | .version => "version"

/-- The command of a name. -/
def ofName? (name : String) : Option Command := all.find? (fun c => c.name == name)

/-- The flags a command has besides those of every command. -/
def ownFlags : Command → List Flag
  | .run => [⟨"program", some 'p', .text⟩]
  | .compile => [⟨"out", some 'o', .text⟩]
  | _ => []

/-- All flags of a command. -/
def flags (c : Command) : List Flag := commonFlags ++ c.ownFlags ++ [helpFlag]

end Command

/-- The edit distances of a list's beginnings from another list, given those for one item less. -/
def nextDistances (item : UInt8) (left : Nat) : List UInt8 → List Nat → List Nat
  | x :: xs, diagonal :: above :: rest =>
    let here := min (min (above + 1) (left + 1)) (if x == item then diagonal else diagonal + 1)
    here :: nextDistances item here xs (above :: rest)
  | _, _ => []

/-- How many bytes have to be changed, put in or taken out to make one list another. -/
def editDistance (a b : List UInt8) : Nat :=
  let start := List.range (b.length + 1)
  let last := a.foldl (fun row item =>
    (row.headD 0 + 1) :: nextDistances item (row.headD 0 + 1) b row) start
  last.getLast?.getD 0

/-- The word that asks for a script that completes command lines. -/
def scriptWord : String := "completion"

/-- The letters whose small form takes up another number of bytes, with that form. -/
def otherWidths : List (Nat × Nat) :=
  [(0x130, 0x69), (0x23a, 0x2c65), (0x23e, 0x2c66), (0x1e9e, 0xdf), (0x2126, 0x3c9),
    (0x212a, 0x6b), (0x212b, 0xe5), (0x2c62, 0x26b), (0x2c64, 0x27d), (0x2c6d, 0x251),
    (0x2c6e, 0x271), (0x2c6f, 0x250), (0x2c70, 0x252), (0x2c7e, 0x23f), (0x2c7f, 0x240),
    (0xa78d, 0x265), (0xa7aa, 0x266), (0xa7ab, 0x25c), (0xa7ac, 0x261), (0xa7ad, 0x26c),
    (0xa7ae, 0x26a), (0xa7b0, 0x29e), (0xa7b1, 0x287), (0xa7b2, 0x29d), (0xa7c5, 0x282),
    (0xa7cb, 0x264), (0xa7dc, 0x19b)]

/-- A letter in its small form, as far as that matters for a comparison with plain names. -/
def smallLetter (c : Char) : Char :=
  match otherWidths.lookup c.toNat with
  | some code => Char.ofNat code
  | none => c.toLower

/-- The names that may have been meant by a word: close to it, or starting with it. -/
def suggestions (word : String) : List String :=
  let lower (text : String) : List UInt8 :=
    (String.ofList (text.toList.map smallLetter)).toUTF8.toList
  -- Suggestions come from the names of commands, and the word for scripts is like one.
  (Command.all.map Command.name ++ [scriptWord]).filter fun name =>
    editDistance (lower word) (lower name) ≤ 2 || (lower word).isPrefixOf (lower name)

/-- What is printed when help is asked for. -/
def usage : String :=
  s!"usage: {programName} <command> [flags]\n\ncommands:\n" ++
    String.join (Command.all.map (fun c => s!"  {c.name}\n"))

/-- What is printed by the command for it. -/
def versionText : String := s!"{programName} v0.1.0-dev\n"

/-- Why a command line failed. -/
inductive CommandError where
  | arguments (cause : ArgumentError)
  | session (cause : SessionError)

/-- The message of a command error. -/
def CommandError.message : CommandError → String
  | .arguments cause => cause.message
  | .session cause => cause.message

/-- The description of a file. -/
def readConfig (path : String) : Task Config := do
  let bytes ← Action.ofExcept (((← get).disk.read path).mapError .configFile)
  Action.ofExcept ((Config.ofBytes bytes).mapError .config)

/-- A description with what the flags say put over it. -/
def overrideConfig (c : Config) (o : Options) : Config :=
  { c with
    paths := o.paths.getD c.paths
    randomSeed := o.seed.getD c.randomSeed
    runtime := { c.runtime with
      eager := o.eager.getD c.runtime.eager
      logLevel := o.logLevel.getD c.runtime.logLevel } }

/-- The description that the flags ask for. -/
def configOf (o : Options) : Task Config := do
  let c ← if o.configPath.isEmpty then pure Config.demo else readConfig o.configPath
  -- What the flags say is checked together with what the file says.
  let c := overrideConfig c o
  Action.ofExcept (c.validate.mapError .config)
  return c

/-- The least level that is logged. -/
def levelOf (c : Config) : Except LevelError Level :=
  if c.runtime.logLevel.isEmpty then .ok .info else Level.ofText c.runtime.logLevel

/-- The session that the flags ask for. -/
def openSession (platform : Platform) (o : Options) : Task Session := do
  let config ← configOf o
  let level ← Action.ofExcept ((levelOf config).mapError .logLevel)
  let s : Session := ⟨platform, config, level, o.listing, o.metricsPath, none, .empty⟩
  -- The paths of a saved program may replace the described ones, so data is drawn after it.
  let s ← if o.programPath.isEmpty then pure s else s.useProgram o.programPath o.paths.isSome
  return { s with data := s.config.inputs }

/-- Does what a command asks for. -/
def Command.perform (platform : Platform) (c : Command) (o : Options) : Task Unit := do
  match c with
  | .version => Task.print versionText
  | .run => (← openSession platform o).run
  | .gradient => (← openSession platform o).gradient
  | .compile => (← openSession platform o).compile o.outPath

/-- What arguments ask for. -/
inductive Request where
  | help
  | perform (command : Command) (options : Options)

/-- The word that asks for help, as a command does. -/
def helpWord : String := "help"

/-- The names of the programs there are scripts for. -/
def shellNames : List String := ["bash", "zsh", "fish", "powershell"]

/-- The flag that leaves descriptions out of a script. -/
def terseFlag : Flag := ⟨"no-descriptions", none, .switch⟩

/-- What is asked for by arguments among which there is no command. -/
def requestHelp (arguments : List String) : Except ArgumentError Request := do
  let _ ← readArguments (commonFlags ++ [helpFlag]) .initial arguments
  return .help

/-- What is asked for after the word for a script, whose text is not printed. -/
def requestScript (arguments : List String) : Except ArgumentError Request := do
  match (firstWord? commonFlags arguments).filter shellNames.contains with
  | none => requestHelp arguments
  | some shell =>
    let others := withoutWord commonFlags shell arguments
    let (o, words) ← readArguments (commonFlags ++ [terseFlag, helpFlag]) .initial others
    match words with
    | [] => return .help
    | word :: _ =>
      if o.help then return .help
      else throw (.unexpected word s!"{programName} {scriptWord} {shell}" [])

/-- What is asked for by arguments with a command. -/
def requestCommand (command : Command) (arguments : List String) :
    Except ArgumentError Request := do
  let (o, words) ← readArguments command.flags .initial arguments
  -- Help is given before words that are not expected are complained about.
  if o.help then return .help
  match words with
  | [] => return .perform command o
  | word :: _ => throw (.unexpected word s!"{programName} {command.name}" [])

/--
What arguments ask for; the command is the first word that is not the value of a flag.

Flags may stand before the command, which is taken out from among them.
-/
def request (arguments : List String) : Except ArgumentError Request :=
  match firstWord? commonFlags arguments with
  | none => requestHelp arguments
  | some word =>
    let others := withoutWord commonFlags word arguments
    match Command.ofName? word with
    | some command => requestCommand command others
    | none =>
      if word == helpWord then requestHelp others
      else if word == scriptWord then requestScript others
      else .error (.unexpected word programName (suggestions word))

/-- Runs a command line on some files, on a given machine. -/
def executeOn (platform : Platform) (disk : Disk) (arguments : List String) :
    Except (Halt CommandError) Unit × World :=
  match request arguments with
  | .error cause => (.error (.error (.arguments cause)), World.start disk)
  | .ok .help => (.ok (), { World.start disk with out := usage })
  | .ok (.perform command o) =>
    let (ended, w) := (command.perform platform o).outcome (World.start disk)
    (ended.mapError (·.map .session), w)

/-- Runs a command line on some files, with nothing told about the machine. -/
def execute (disk : Disk) (arguments : List String) : Except (Halt CommandError) Unit × World :=
  executeOn .plain disk arguments

end Tangent.Cli
