import HandlerIndex.Database

/-!
The argument reader of the command line. Options for every command may stand before its name or
after it, and those after it win. Reading goes from left to right and ends at the first mistake, or
at the first question for help. Left out are the texts of mistakes, which go to the error output,
and its guesses at misspelled names.
-/
namespace HandlerIndex.CommandLine

inductive CommandName where
  | index
  | lookup
  | events
  | status
  | watch
  | clear
  deriving DecidableEq, Repr

namespace CommandName

def all : List CommandName := [.index, .lookup, .events, .status, .watch, .clear]

def text : CommandName → String
  | .index => "index"
  | .lookup => "lookup"
  | .events => "events"
  | .status => "status"
  | .watch => "watch"
  | .clear => "clear"

def ofText? (name : String) : Option CommandName := all.find? (·.text == name)

end CommandName

inductive Command where
  | index
  | lookup (event : String) (json : Bool)
  | events (pattern : Option String) (limit : UInt64) (minFiles : Option UInt64)
  | status
  | watch
  | clear
  deriving DecidableEq, Repr

structure Request where
  root : String
  database : Option String
  command : Command
  deriving DecidableEq, Repr

inductive HelpTopic where
  | program
  | command (name : CommandName)
  | help
  deriving DecidableEq, Repr

inductive Invocation where
  | run (request : Request)
  | help (topic : HelpTopic)
  | version
  | misuse
  deriving DecidableEq, Repr

inductive Stop where
  | help
  | version
  | misuse
  deriving DecidableEq, Repr

structure OptionForm where
  name : String
  value : Option (String → Bool)

structure Arguments where
  options : List (String × String)
  words : List String

def Arguments.none : Arguments := ⟨[], []⟩

def Arguments.has (arguments : Arguments) (name : String) : Bool :=
  arguments.options.any (·.1 == name)

def Arguments.value? (arguments : Arguments) (name : String) : Option String :=
  (arguments.options.find? (·.1 == name)).map (·.2)

def readCount? (text : String) : Option UInt64 :=
  let digits := match text.toList with
    | '+' :: digits => digits
    | digits => digits
  let n := Nat.ofDigitChars 10 digits 0
  if digits.isEmpty || !digits.all Char.isDigit || n ≥ UInt64.size then none
  else some (UInt64.ofNat n)

def pathForm (name : String) : OptionForm := ⟨name, some fun value => !value.isEmpty⟩

def countForm (name : String) : OptionForm := ⟨name, some fun value => (readCount? value).isSome⟩

def flagForm (name : String) : OptionForm := ⟨name, none⟩

def commonForms : List OptionForm := [pathForm "root", pathForm "db"]

def CommandName.forms : CommandName → List OptionForm
  | .lookup => flagForm "json" :: commonForms
  | .events => countForm "limit" :: countForm "min-files" :: commonForms
  | _ => commonForms

def CommandName.wordLimit : CommandName → Nat
  | .lookup => 1
  | .events => 1
  | _ => 0

def isOption (argument : String) : Bool :=
  match argument.toList with
  | '-' :: _ :: _ => true
  | _ => false

def addOption (form : OptionForm) (value : String) (arguments : Arguments) :
    Except Stop Arguments :=
  if arguments.has form.name then .error .misuse
  else if form.value.all (· value) then
    .ok { arguments with options := (form.name, value) :: arguments.options }
  else .error .misuse

def splitOption (argument : String) : String × Option String :=
  let text := argument.toList.drop 2
  match text.dropWhile (· != '=') with
  | _ :: value => (String.ofList (text.takeWhile (· != '=')), some (String.ofList value))
  | [] => (String.ofList text, none)

def question (withVersion : Bool) (argument : String) : Option Stop :=
  if argument = "--help" ∨ "-h".toList.isPrefixOf argument.toList then some .help
  else if withVersion ∧
    (argument = "--version" ∨ "-V".toList.isPrefixOf argument.toList) then some .version
  else none

def readOption (forms : List OptionForm) (withVersion : Bool) (argument : String)
    (next : Option String) (arguments : Arguments) : Except Stop (Arguments × Bool) :=
  match question withVersion argument with
  | some stop => .error stop
  | none =>
    let (name, value) := splitOption argument
    match forms.find? (·.name == name) with
    | none => .error .misuse
    | some form =>
      if !"--".toList.isPrefixOf argument.toList then .error .misuse
      else
        match form.value, value, next with
        | none, none, _ => do .ok (← addOption form "" arguments, false)
        | none, some _, _ => .error .misuse
        | some _, some value, _ => do .ok (← addOption form value arguments, false)
        | some _, none, some value =>
          if isOption value then .error .misuse else do .ok (← addOption form value arguments, true)
        | some _, none, none => .error .misuse

def readBefore (arguments : Arguments) :
    List String → Except Stop (Arguments × String × List String)
  | [] => .error .misuse
  | argument :: rest =>
    if argument = "--" then .error .misuse
    else if isOption argument then
      match readOption commonForms true argument rest.head? arguments with
      | .error stop => .error stop
      | .ok (arguments, false) => readBefore arguments rest
      | .ok (arguments, true) =>
        match rest with
        | _ :: rest => readBefore arguments rest
        | [] => .error .misuse
    else .ok (arguments, argument, rest)

def addWord (limit : Nat) (word : String) (arguments : Arguments) : Except Stop Arguments :=
  if arguments.words.length < limit then .ok { arguments with words := arguments.words ++ [word] }
  else .error .misuse

def readAfter (command : CommandName) (arguments : Arguments) : List String → Except Stop Arguments
  | [] => .ok arguments
  | argument :: rest =>
    if argument = "--" then
      rest.foldlM (fun arguments word => addWord command.wordLimit word arguments) arguments
    else if isOption argument then
      match readOption command.forms false argument rest.head? arguments with
      | .error stop => .error stop
      | .ok (arguments, false) => readAfter command arguments rest
      | .ok (arguments, true) =>
        match rest with
        | _ :: rest => readAfter command arguments rest
        | [] => .error .misuse
    else
      match addWord command.wordLimit argument arguments with
      | .error stop => .error stop
      | .ok arguments => readAfter command arguments rest

def defaultLimit : UInt64 := 50

def toCommand? (command : CommandName) (arguments : Arguments) : Option Command :=
  match command with
  | .index => some .index
  | .lookup => arguments.words.head?.map fun event => .lookup event (arguments.has "json")
  | .events =>
    let limit := ((arguments.value? "limit").bind readCount?).getD defaultLimit
    some (.events arguments.words.head? limit ((arguments.value? "min-files").bind readCount?))
  | .status => some .status
  | .watch => some .watch
  | .clear => some .clear

def helpOn : List String → Invocation
  | [] => .help .program
  | [name] =>
    match CommandName.ofText? name with
    | some command => .help (.command command)
    | none => if name = "help" then .help .help else .misuse
  | _ => .misuse

def Invocation.ofStop (topic : HelpTopic) : Stop → Invocation
  | .help => .help topic
  | .version => .version
  | .misuse => .misuse

def Invocation.ofArguments (arguments : List String) : Invocation :=
  match readBefore .none arguments with
  | .error stop => .ofStop .program stop
  | .ok (before, name, rest) =>
    if name = "help" then helpOn rest
    else
      match CommandName.ofText? name with
      | none => .misuse
      | some commandName =>
        match readAfter commandName .none rest with
        | .error stop => .ofStop (.command commandName) stop
        | .ok after =>
          match toCommand? commandName after with
          | none => .misuse
          | some command =>
            .run {
              root := ((after.value? "root").or (before.value? "root")).getD "."
              database := (after.value? "db").or (before.value? "db")
              command := command }

end HandlerIndex.CommandLine
