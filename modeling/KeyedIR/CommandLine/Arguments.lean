/-! # Arguments

The words after the program's name, read from left to right. Two flags may stand anywhere, once
before the command and once after it. Two dashes end the options; a single dash is a file name.
-/

namespace KeyedIR.CommandLine

set_option autoImplicit false

inductive Command where
  | listing (file : String)
  | relabel (source target : String)
  deriving DecidableEq

structure Flags where
  verbose : Bool := false
  noColor : Bool := false
  deriving DecidableEq

inductive Request where
  | run (flags : Flags) (command : Command)
  | version
  | help
  deriving DecidableEq

inductive UsageError where
  | missingCommand
  | unknownCommand (word : String)
  | unknownOption (word : String)
  | repeatedOption (word : String)
  | missingFile
  | emptyFile
  | tooManyFiles (word : String)
  deriving DecidableEq

def UsageError.message : UsageError → String
  | missingCommand => "error: a command is required"
  | unknownCommand word => s!"error: unrecognized command '{word}'"
  | unknownOption word => s!"error: unexpected argument '{word}' found"
  | repeatedOption word => s!"error: the argument '{word}' cannot be used multiple times"
  | missingFile => "error: a file name is missing"
  | emptyFile => "error: a file name must not be empty"
  | tooManyFiles word => s!"error: unexpected argument '{word}' found"

def isOption (word : String) : Bool :=
  match word.toList with
  | '-' :: _ :: _ => true
  | _ => false

/-- The word is a group of one-letter options that starts with a letter. -/
def startsGroup (letter : Char) (word : String) : Bool :=
  match word.toList with
  | '-' :: c :: _ => c == letter
  | _ => false

/-- The flags with one more set; none can be set twice. -/
def Flags.set (flags : Flags) (word : String) : Except UsageError Flags :=
  match word with
  | "--verbose" =>
    if flags.verbose then .error (.repeatedOption word) else .ok { flags with verbose := true }
  | "--no-color" =>
    if flags.noColor then .error (.repeatedOption word) else .ok { flags with noColor := true }
  | _ => .error (.unknownOption word)

def Flags.or (a b : Flags) : Flags := ⟨a.verbose || b.verbose, a.noColor || b.noColor⟩

/-- What follows a command, given how many files it takes: the flags and the files, or nothing if
help is asked for. -/
def readFiles (count : Nat) (flags : Flags) (ended : Bool) (files : List String) :
    List String → Except UsageError (Option (Flags × List String))
  | [] => if files.length < count then .error .missingFile else .ok (some (flags, files))
  | word :: rest =>
    if !ended && word == "--" then readFiles count flags true files rest
    else if !ended && isOption word then
      if word == "--help" || startsGroup 'h' word then .ok none
      else
        match flags.set word with
        | .ok flags => readFiles count flags ended files rest
        | .error e => .error e
    else if files.length == count then .error (.tooManyFiles word)
    else if word.isEmpty then .error .emptyFile
    else readFiles count flags ended (files ++ [word]) rest

/-- The command of a word: the number of files it takes, and what it does with them. -/
def command? (word : String) : Option (Nat × (List String → Option Command)) :=
  match word with
  | "show" => some (1, fun files => files[0]?.map .listing)
  | "rewrite" => some (2, fun files => files[0]?.bind fun s => files[1]?.map (.relabel s))
  | _ => none

/-- What is asked for by the command for help, given the words after it: at most one word, which is
the name of a command. -/
def readHelp : List String → Except UsageError Request
  | [] => .ok .help
  | word :: rest =>
    if word = "help" ∨ (command? word).isSome then
      match rest with
      | [] => .ok .help
      | next :: _ => .error (.unknownCommand next)
    else .error (.unknownCommand word)

/-- What the arguments ask for, with some flags already set. -/
def readRequest (flags : Flags) : List String → Except UsageError Request
  | [] => .error .missingCommand
  | word :: rest =>
    if isOption word then
      if word == "--version" || startsGroup 'V' word then .ok .version
      else if word == "--help" || startsGroup 'h' word then .ok .help
      else
        match flags.set word with
        | .ok flags => readRequest flags rest
        | .error e => .error e
    else if word == "help" then readHelp rest
    else
      match command? word with
      | none => .error (.unknownCommand word)
      | some (count, make) =>
        match readFiles count {} false [] rest with
        | .error e => .error e
        | .ok none => .ok .help
        | .ok (some (more, files)) =>
          match make files with
          | some command => .ok (.run (flags.or more) command)
          | none => .error .missingFile

def parse (arguments : List String) : Except UsageError Request := readRequest {} arguments

end KeyedIR.CommandLine
