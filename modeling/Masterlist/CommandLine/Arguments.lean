import Masterlist.Conversion
/-
  Arguments — what a command line asks for

  Arguments are read from the left. An option is given by its long name or its
  letter; letters may stand together, and a value may stand behind its option or
  be the next argument. The first argument that cannot be right ends the reading,
  and so does one that asks for the version or for help. What the arguments have
  to be together is looked at last.

  Correspondence:
    `Cli`                                      ↔ `Arguments`
    `parse` of a `Cli`                         ↔ `Arguments.read`
    the options that `main` makes of it        ↔ `Arguments.job`
    `init_logging`                             ↔ `Arguments.shows`
-/

namespace Masterlist

/-- What the arguments have said so far. -/
structure Arguments where
  input : Option Text
  output : Option Text
  report : Option Text
  strip : Bool
  check : Bool
  verbose : Nat
  quiet : Bool
  deriving DecidableEq, Repr

/-- Why the arguments do not ask for a conversion. -/
inductive Stop where
  /-- They are wrong. -/
  | usage
  /-- They ask for the version. -/
  | version
  /-- They ask for help. -/
  | help
  deriving DecidableEq, Repr

/-- An option of the command line. -/
inductive CommandOption where
  | output
  | report
  | strip
  | check
  | verbose
  | quiet
  | version
  | help
  deriving DecidableEq, Repr

namespace CommandOption

/-- Every option. -/
def all : List CommandOption :=
  [.output, .report, .strip, .check, .verbose, .quiet, .version, .help]

/-- The long name. -/
def longName : CommandOption → Text
  | .output => "output".toList
  | .report => "report".toList
  | .strip => "strip-comments".toList
  | .check => "check".toList
  | .verbose => "verbose".toList
  | .quiet => "quiet".toList
  | .version => "version".toList
  | .help => "help".toList

/-- The letter, if there is one. -/
def letter? : CommandOption → Option Char
  | .output => some 'o'
  | .report => none
  | .strip => none
  | .check => none
  | .verbose => some 'v'
  | .quiet => some 'q'
  | .version => some 'V'
  | .help => some 'h'

/-- Whether a value belongs to the option. -/
def takesValue : CommandOption → Bool
  | .output => true
  | .report => true
  | _ => false

end CommandOption

namespace Arguments

/-- Arguments that have said nothing. -/
def empty : Arguments := ⟨none, none, none, false, false, 0, false⟩

/-- The arguments with an option that takes no value. Only `verbose` may be given
more than once. -/
def setFlag (arguments : Arguments) : CommandOption → Except Stop Arguments
  | .strip => if arguments.strip then .error .usage else .ok { arguments with strip := true }
  | .check => if arguments.check then .error .usage else .ok { arguments with check := true }
  | .quiet => if arguments.quiet then .error .usage else .ok { arguments with quiet := true }
  | .verbose => .ok { arguments with verbose := arguments.verbose + 1 }
  | .version => .error .version
  | .help => .error .help
  | .output => .error .usage
  | .report => .error .usage

/-- The arguments with the value of an option. -/
def setValue (arguments : Arguments) (value : Text) : CommandOption → Except Stop Arguments
  | .output =>
    if arguments.output.isSome then .error .usage else .ok { arguments with output := some value }
  | .report =>
    if arguments.report.isSome then .error .usage else .ok { arguments with report := some value }
  | _ => .error .usage

/-- The arguments with an input. -/
def setInput (arguments : Arguments) (value : Text) : Except Stop Arguments :=
  if arguments.input.isSome then .error .usage else .ok { arguments with input := some value }

/-- What has been said, and the option whose value is the next argument. -/
abbrev Pending := Arguments × Option CommandOption

/-- The letters of one argument. An option that takes a value takes what is left,
without an equals sign in front. -/
def readLetters (arguments : Arguments) : Text → Except Stop Pending
  | [] => .ok (arguments, none)
  | c :: rest =>
    match CommandOption.all.find? (fun option => option.letter? == some c) with
    | none => .error .usage
    | some option =>
      if option.takesValue then
        match rest with
        | [] => .ok (arguments, some option)
        | '=' :: value => (arguments.setValue value option).map (fun a => (a, none))
        | value => (arguments.setValue value option).map (fun a => (a, none))
      else
        match arguments.setFlag option with
        | .error stop => .error stop
        | .ok next => readLetters next rest

/-- One argument by its long name, with the value behind an equals sign. -/
def readLong (arguments : Arguments) (text : Text) : Except Stop Pending :=
  let name := text.takeWhile (· != '=')
  let value? := Text.dropLeading? ['='] (text.dropWhile (· != '='))
  match CommandOption.all.find? (fun option => option.longName == name), value? with
  | none, _ => .error .usage
  | some option, some value => (arguments.setValue value option).map (fun a => (a, none))
  | some option, none =>
    if option.takesValue then .ok (arguments, some option)
    else (arguments.setFlag option).map (fun a => (a, none))

/-- One argument that is an option. -/
def readOption (arguments : Arguments) (text : Text) : Except Stop Pending :=
  match Text.dropLeading? "--".toList text with
  | some long => arguments.readLong long
  | none => arguments.readLetters text.tail

/-- Whether an argument is an option, or several. -/
def isOption (text : Text) : Bool := Text.startsWith ['-'] text && text != ['-']

/-- What has been said with one argument more, which is no option: the value of
the option before it, or the input. -/
def readPlain (pending : Pending) (text : Text) : Except Stop Arguments :=
  match pending.2 with
  | some option => pending.1.setValue text option
  | none => pending.1.setInput text

/-- What has been said with the arguments behind the mark that ends the options. -/
def readInputs : Arguments → List Text → Except Stop Arguments
  | arguments, [] => .ok arguments
  | arguments, text :: texts =>
    match arguments.setInput text with
    | .error stop => .error stop
    | .ok next => readInputs next texts

/-- What has been said with some arguments more. An option that is owed its value
takes no other option for it. -/
def readMore : Pending → List Text → Except Stop Arguments
  | (arguments, none), [] => .ok arguments
  | (_, some _), [] => .error .usage
  | (arguments, pending), text :: texts =>
    if isOption text then
      if pending.isSome then .error .usage
      else if text = "--".toList then readInputs arguments texts
      else
        match arguments.readOption text with
        | .error stop => .error stop
        | .ok next => readMore next texts
    else
      match readPlain (arguments, pending) text with
      | .error stop => .error stop
      | .ok next => readMore (next, none) texts

/-- Whether the arguments ask to be told of an entry of the log. -/
def shows (arguments : Arguments) (entry : LogEntry) : Bool :=
  !arguments.quiet && (entry.isWarning || arguments.verbose != 0)

/-- The job that the arguments ask for. -/
def job (arguments : Arguments) (input : Text) : Job :=
  let source := Source.ofText input
  { input := source
    output := (arguments.output.map Target.ofText).getD (Target.default source)
    report := arguments.report.map Target.ofText
    strip := arguments.strip
    checkOnly := arguments.check }

/-- The arguments with the input and the job they ask for, when they are right
together: there is an input, and they do not ask for quiet and for more. -/
def read (texts : List Text) : Except Stop (Arguments × Text × Job) :=
  match readMore (empty, none) texts with
  | .error stop => .error stop
  | .ok arguments =>
    match arguments.input with
    | none => .error .usage
    | some input =>
      if arguments.quiet && arguments.verbose != 0 then .error .usage
      else .ok (arguments, input, arguments.job input)

end Arguments

end Masterlist
