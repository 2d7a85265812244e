import ScriptLexer.Console

namespace ScriptLexer.Console

/-! What the words of a command line ask for.  Switches may stand anywhere among the
files, with one dash or two, and take a Boolean value behind an equals sign.  Each
word that cannot be followed is a complaint, and after any complaint nothing is run.
Help and the version are given as soon as they are asked for, and no word behind is read.

Left out is what the LLVM command line library adds of its own: its other options, which
are unknown here, files of further words (`@file`), the names it suggests for a
misspelled option, and its own options and groups in the text of the help.
-/

inductive Switch where
  | quiet
  | showSource
deriving DecidableEq

namespace Switch

def all : List Switch :=
  [quiet, showSource]

def name : Switch → String
  | quiet => "quiet"
  | showSource => "show-source"

def description : Switch → String
  | quiet => "Do not print tokens, only diagnostics"
  | showSource => "Print the offending source line under each error"

def ofName? (text : String) : Option Switch :=
  all.find? fun switch => switch.name == text

def set (switch : Switch) (value : Bool) (options : Options) : Options :=
  match switch with
  | quiet => { options with quiet := value }
  | showSource => { options with showSource := value }

/-- Reads the value of a switch.  An empty one is no different from none at all. -/
def value? (text : String) : Option Bool :=
  if text ∈ ["", "true", "TRUE", "True", "1"] then some true
  else if text ∈ ["false", "FALSE", "False", "0"] then some false
  else none

end Switch

inductive Word where
  | file (name : String)
  | option (name : String) (value : Option String)
  /-- Two dashes alone: all further words are files. -/
  | filesOnly
deriving DecidableEq

namespace Word

/-- The name of an option ends at the first equals sign, if there is one. -/
def ofOption (text : List Char) : Word :=
  let name := String.ofList (text.takeWhile (· ≠ '='))
  match text.dropWhile (· ≠ '=') with
  | [] => .option name none
  | _ :: value => .option name (some (.ofList value))

/-- Reads a word.  A dash alone is a file. -/
def ofString (word : String) : Word :=
  match word.toList with
  | ['-', '-'] => .filesOnly
  | '-' :: '-' :: text => ofOption text
  | '-' :: first :: text => ofOption (first :: text)
  | _ => .file word

end Word

inductive Complaint where
  | unknown (word : String)
  | repeated (option : String)
  | notBoolean (option value : String)
  | valueGiven (option value : String)
deriving DecidableEq

namespace Complaint

def about (option message : String) : String :=
  "for the " ++ (if option.length = 1 then "-" else "--") ++ option ++ " option: " ++ message

def message : Complaint → String
  | unknown word => "Unknown command line argument '" ++ word ++ "'.  Try: 'hakarl --help'"
  | repeated option => about option "may only occur zero or one times!"
  | notBoolean option value =>
      about option ("'" ++ value ++ "' is invalid value for boolean argument! Try 0 or 1")
  | valueGiven option value =>
      about option ("does not allow a value! '" ++ value ++ "' specified.")

def line (complaint : Complaint) : Piece :=
  ⟨.error, programName ++ ascii ": " ++ complaint.message.toUTF8.toList ++ ascii "\n"⟩

end Complaint

/-- The name and the description of each switch, the descriptions below one another. -/
def help : Transcript :=
  let width := (Switch.all.map fun switch => switch.name.length).foldl max 0
  let row (switch : Switch) : Bytes :=
    ascii "  --" ++ ascii switch.name ++
      List.replicate (width - switch.name.length) Byte.space ++
      ascii " - " ++ ascii switch.description ++ ascii "\n"
  [⟨.output, ascii "OVERVIEW: Hakarl scanner\n\nUSAGE: " ++ programName ++
    ascii " [options] [script]\n\nOPTIONS:\n" ++ Switch.all.flatMap row⟩]

inductive Action where
  | version
  | help
  | run (options : Options) (files : List String)
  /-- Nothing is run after a complaint. -/
  | refuse
deriving DecidableEq

structure Request where
  complaints : List Complaint
  action : Action
deriving DecidableEq

namespace Request

/-- What has been read of a command line. -/
structure Given where
  options : Options := {}
  switches : List Switch := []
  files : List String := []
  complaints : List Complaint := []
deriving DecidableEq

namespace Given

def complain (given : Given) (complaint : Complaint) : Given :=
  { given with complaints := given.complaints ++ [complaint] }

def addFiles (given : Given) (names : List String) : Given :=
  { given with files := given.files ++ names }

/-- Sets a switch, which may be given once, be its value right or wrong. -/
def turn (given : Given) (switch : Switch) (value : String) : Given :=
  if switch ∈ given.switches then given.complain (.repeated switch.name)
  else
    let seen := { given with switches := switch :: given.switches }
    match Switch.value? value with
    | some value => { seen with options := switch.set value given.options }
    | none => seen.complain (.notBoolean switch.name value)

def request (given : Given) (action : Action) : Request :=
  ⟨given.complaints, action⟩

/-- What is done when all words have been read. -/
def finished (given : Given) : Request :=
  given.request (if given.complaints = [] then .run given.options given.files else .refuse)

end Given

/-- An option that is no switch but asks for something of its own. -/
def inquiry? : String → Option Action
  | "version" => some .version
  | "help" | "h" => some .help
  | _ => none

def ofWordsFrom (given : Given) : List String → Request
  | [] => given.finished
  | word :: words =>
      match Word.ofString word with
      | .filesOnly => (given.addFiles words).finished
      | .file name => ofWordsFrom (given.addFiles [name]) words
      | .option name value =>
          match inquiry? name, Switch.ofName? name, value with
          | some action, _, none => given.request action
          | some _, _, some value => ofWordsFrom (given.complain (.valueGiven name value)) words
          | none, some switch, value => ofWordsFrom (given.turn switch (value.getD "")) words
          | none, none, _ => ofWordsFrom (given.complain (.unknown word)) words

def ofWords (words : List String) : Request :=
  ofWordsFrom {} words

end Request

end ScriptLexer.Console
