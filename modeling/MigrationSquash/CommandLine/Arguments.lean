import MigrationSquash.CommandLine.Terminal
import MigrationSquash.Squash

/-!
# Command lines

What the words of a command line ask for, and what is wrong with them.  An option takes
the next word as its value unless that word starts with a dash, and a mistake is only
reported once the option is complete.
-/

set_option autoImplicit false

namespace MigrationSquash.CommandLine

/-- The commands that take a directory. -/
inductive Command where
  | squash
  | convertToSql
  deriving DecidableEq, Repr

def Command.ofName? (name : Text) : Option Command :=
  if name = "squash".toList then some .squash
  else if name = "convert-to-sql".toList then some .convertToSql
  else none

/-- What can be given to a command. -/
inductive Parameter where
  | directory
  | year
  | target
  | skipSql
  | project
  | migration
  | historyTable
  | verbose
  | help
  deriving DecidableEq, Repr

namespace Parameter

/-- The options of a command. -/
def ofCommand : Command → List Parameter
  | .squash => [year, target, skipSql, project, historyTable, verbose, help]
  | .convertToSql => [project, migration, historyTable, verbose, help]

def longName : Parameter → Text
  | directory => "dir".toList
  | year => "year".toList
  | target => "target".toList
  | skipSql => "skip-sql".toList
  | project => "project".toList
  | migration => "migration".toList
  | historyTable => "history-table".toList
  | verbose => "verbose".toList
  | help => "help".toList

def shortName? : Parameter → Option Char
  | year => some 'y'
  | target => some 't'
  | project => some 'p'
  | migration => some 'm'
  | verbose => some 'v'
  | help => some 'h'
  | directory | skipSql | historyTable => none

/-- The name of the value, for parameters that take one. -/
def valueName? : Parameter → Option Text
  | directory => some "DIR".toList
  | year => some "YEAR".toList
  | target => some "TARGET".toList
  | project => some "PROJECT".toList
  | migration => some "MIGRATION".toList
  | historyTable => some "HISTORY_TABLE".toList
  | skipSql | verbose | help => none

def takesValue (parameter : Parameter) : Bool := parameter.valueName?.isSome

/-- Whether the value is a path, which cannot be empty. -/
def isPath : Parameter → Bool
  | directory | project => true
  | _ => false

/-- The parameter as messages show it. -/
def display (parameter : Parameter) : Text :=
  let long := "--".toList ++ parameter.longName
  match parameter, parameter.valueName? with
  | directory, some value => '<' :: value ++ ['>']
  | _, some value => long ++ " <".toList ++ value ++ ['>']
  | _, none => long

end Parameter

inductive UsageError where
  | unexpectedArgument (argument : Text)
  | unrecognizedCommand (name : Text)
  | missingValue (parameter : Parameter)
  | unexpectedValue (value : Text) (flag : Text)
  | repeated (parameter : Parameter)
  | missingArguments
  | missingCommand
  deriving DecidableEq, Repr

/-- The first line of what the program calls itself. -/
def about : Text := "Squash Entity Framework Core migrations into one".toList

/-- The words for a mistake.  Of a word that was given they repeat what a terminal shows. -/
def UsageError.message : UsageError → Text
  | unexpectedArgument argument =>
      "error: unexpected argument '".toList ++ Terminal.visible argument ++ "' found".toList
  | unrecognizedCommand name =>
      "error: unrecognized subcommand '".toList ++ Terminal.visible name ++ ['\'']
  | missingValue parameter =>
      "error: a value is required for '".toList ++ parameter.display ++
        "' but none was supplied".toList
  | unexpectedValue value flag =>
      "error: unexpected value '".toList ++ Terminal.visible value ++ "' for '".toList ++ flag ++
        "' found; no more were expected".toList
  | repeated parameter =>
      "error: the argument '".toList ++ parameter.display ++
        "' cannot be used multiple times".toList
  | missingArguments => "error: the following required arguments were not provided:".toList
  | missingCommand => about

/-- What a command line comes to instead of a command. -/
inductive Stop where
  | usage (error : UsageError)
  | help
  | version
  deriving DecidableEq, Repr

/-- What has been read: parameters with their values, and one that may wait for its
value. -/
structure Reading where
  settled : List (Parameter × Text)
  pending : Option (Parameter × Option Text)
  deriving DecidableEq, Repr

namespace Reading

def start : Reading := ⟨[], none⟩

def isSettled (reading : Reading) (parameter : Parameter) : Bool :=
  reading.settled.any (·.1 = parameter)

/-- Takes a parameter with its value, if it has one. -/
def accept (reading : Reading) (parameter : Parameter) (value : Option Text) :
    Except Stop Reading :=
  match parameter.takesValue, value with
  | true, none => .error (.usage (.missingValue parameter))
  | _, _ =>
      if reading.isSettled parameter then .error (.usage (.repeated parameter))
      else if parameter.isPath && value = some [] then
        .error (.usage (.missingValue parameter))
      else .ok { reading with settled := reading.settled ++ [(parameter, value.getD [])] }

/-- Takes the parameter that waits. -/
def settle (reading : Reading) : Except Stop Reading :=
  match reading.pending with
  | none => .ok reading
  | some (parameter, value) => { reading with pending := none }.accept parameter value

/-- Takes the parameter that waits and then another one. -/
def take (reading : Reading) (parameter : Parameter) (value : Option Text) :
    Except Stop Reading := do
  let settled ← reading.settle
  if parameter = .help then .error .help else settled.accept parameter value

/-- Lets a parameter wait. -/
def await (reading : Reading) (parameter : Parameter) (value : Option Text) :
    Except Stop Reading := do
  let settled ← reading.settle
  return { settled with pending := some (parameter, value) }

/-- Whether an option waits for the next word. -/
def awaitsValue (reading : Reading) : Option Parameter :=
  match reading.pending with
  | some (parameter, none) => some parameter
  | _ => none

def hasDirectory (reading : Reading) : Bool :=
  reading.isSettled .directory || reading.pending.any (·.1 = .directory)

def unexpected (argument : Text) : Except Stop Reading :=
  .error (.usage (.unexpectedArgument argument))

/-- Reads what stands after the two dashes of a word. -/
def long (reading : Reading) (command : Command) (word : Text) : Except Stop Reading :=
  let name := word.takeWhile (· ≠ '=')
  let value := (Text.after? ['='] (word.drop name.length))
  match (Parameter.ofCommand command).find? (·.longName = name) with
  | none => unexpected ("--".toList ++ name)
  | some parameter =>
      if parameter.takesValue then
        match value with
        | some value => reading.take parameter (some value)
        | none => reading.await parameter none
      else
        match value with
        | some value => .error (.usage (.unexpectedValue value parameter.display))
        | none => reading.take parameter none

/-- Reads the letters after the dash of a word.  What follows a letter that takes a value
is that value. -/
def short (reading : Reading) (command : Command) : Text → Except Stop Reading
  | [] => .ok reading
  | letter :: rest =>
      match (Parameter.ofCommand command).find? (·.shortName? = some letter) with
      | none => unexpected ['-', letter]
      | some parameter =>
          if parameter.takesValue then
            if rest.isEmpty then reading.await parameter none
            else reading.take parameter (some ((Text.after? ['='] rest).getD rest))
          else
            match reading.take parameter none with
            | .ok taken => taken.short command rest
            | .error stop => .error stop

/-- Reads a word that is not an option. -/
def positional (reading : Reading) (word : Text) : Except Stop Reading :=
  if reading.hasDirectory then unexpected word else reading.await .directory (some word)

/-- Reads the words after the command; after two dashes no word is an option. -/
def words (command : Command) : Bool → Reading → List Text → Except Stop Reading
  | _, reading, [] => reading.settle
  | true, reading, word :: rest =>
      match reading.positional word with
      | .ok next => words command true next rest
      | .error stop => .error stop
  | false, reading, word :: rest =>
      match word with
      | ['-', '-'] => words command true reading rest
      | '-' :: '-' :: name =>
          match reading.long command name with
          | .ok next => words command false next rest
          | .error stop => .error stop
      | '-' :: letter :: letters =>
          match reading.short command (letter :: letters) with
          | .ok next => words command false next rest
          | .error stop => .error stop
      | value =>
          let read : Except Stop Reading :=
            match reading.awaitsValue with
            | some parameter => .ok { reading with pending := some (parameter, some value) }
            | none => reading.positional value
          match read with
          | .ok next => words command false next rest
          | .error stop => .error stop

def value? (reading : Reading) (parameter : Parameter) : Option Text :=
  reading.settled.lookup parameter

end Reading

/-- What a command line asks for. -/
inductive Request where
  | squash (options : SquashOptions)
  | convert (options : ConvertOptions)
  deriving DecidableEq, Repr

/-- The request of a command with its parameters. -/
def request (command : Command) (directory : Path) (reading : Reading) : Request :=
  let settings : Conversion.Settings :=
    { project := reading.value? .project
      historyTable := (reading.value? .historyTable).getD Script.defaultHistoryTable
      verbose := reading.isSettled .verbose }
  match command with
  | .squash => .squash
      { directory, settings
        selection := ⟨reading.value? .year, reading.value? .target⟩
        skipConversion := reading.isSettled .skipSql }
  | .convertToSql => .convert
      { directory, settings, migration := reading.value? .migration }

/-- Reads the words that follow a command. -/
def parseCommand (command : Command) (words : List Text) : Except Stop Request := do
  let reading ← Reading.words command false .start words
  match reading.value? .directory with
  | some directory => return request command directory reading
  | none => .error (.usage .missingArguments)

/-- Reads the words after `help`, which may name a command. -/
def parseHelp : List Text → Stop
  | [] => .help
  | name :: rest =>
      if (Command.ofName? name).isSome || name = "help".toList then
        match rest with
        | [] => .help
        | next :: _ => .usage (.unrecognizedCommand next)
      else .usage (.unrecognizedCommand name)

/-- Reads an option that stands before a command. -/
def parseLeadingOption (long : Text) : Stop :=
  let name := long.takeWhile (· ≠ '=')
  let stop? : Option Stop :=
    if name = "help".toList then some .help
    else if name = "version".toList then some .version
    else none
  match stop?, Text.after? ['='] (long.drop name.length) with
  | some _, some value => .usage (.unexpectedValue value ("--".toList ++ name))
  | some stop, none => stop
  | none, _ => .usage (.unexpectedArgument ("--".toList ++ name))

/-- Reads the words of a command line. -/
def parse : List Text → Except Stop Request
  | [] => .error (.usage .missingCommand)
  | word :: rest =>
      match word with
      | ['-', '-'] =>
          match rest with
          | [] => .error (.usage .missingCommand)
          | name :: _ =>
              if (Command.ofName? name).isSome || name = "help".toList then
                .error (.usage (.unexpectedArgument name))
              else .error (.usage (.unrecognizedCommand name))
      | '-' :: '-' :: name => .error (parseLeadingOption name)
      | '-' :: letter :: _ =>
          if letter = 'h' then .error .help
          else if letter = 'V' then .error .version
          else .error (.usage (.unexpectedArgument ['-', letter]))
      | name =>
          match Command.ofName? name with
          | some command => parseCommand command rest
          | none =>
              if name = "help".toList then .error (parseHelp rest)
              else .error (.usage (.unrecognizedCommand name))

end MigrationSquash.CommandLine
