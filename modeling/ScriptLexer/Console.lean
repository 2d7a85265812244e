import ScriptLexer.Console.Transcript
import ScriptLexer.Scan

namespace ScriptLexer.Console

/-! The command line program: what a run writes and how it ends, as a function of
all that it is given.
-/

structure Options where
  /-- Write no tokens. -/
  quiet : Bool := false
  /-- Write the line of the script under each diagnostic. -/
  showSource : Bool := true
deriving DecidableEq

/-- Why a file gives no content. -/
inductive OpenFailure where
  | noSuchFile
  | permissionDenied
  | isDirectory
  | other (reason : Bytes)
deriving DecidableEq

def OpenFailure.reason : OpenFailure → Bytes
  | .noSuchFile => ascii "No such file or directory"
  | .permissionDenied => ascii "Permission denied"
  | .isDirectory => ascii "Is a directory"
  | .other reason => reason

inductive Exit where
  | success
  | cannotOpen
  | wrongUsage
  | faultyScript
deriving DecidableEq

def Exit.status : Exit → Nat
  | .success => 0
  | .cannotOpen => 1
  | .wrongUsage => 64
  | .faultyScript => 65

structure Report where
  exit : Exit
  transcript : Transcript
deriving DecidableEq

def programName : Bytes := ascii "hakarl"

def version : Transcript :=
  [⟨.output, programName ++ ascii " 0.1.0\n"⟩]

def usage : Report where
  exit := .wrongUsage
  transcript := [⟨.output, ascii "Usage: " ++ programName ++ ascii " [script]\n"⟩]

def openFailed (name : Bytes) (failure : OpenFailure) : Report where
  exit := .cannotOpen
  transcript :=
    [⟨.errorLabel, programName⟩,
      ⟨.error, ascii "cannot open file '" ++ name ++ ascii "': " ++ failure.reason ++ ascii "\n"⟩]

def tokenLines (options : Options) (tokens : List Token) : Transcript :=
  if options.quiet then []
  else tokens.map fun token => ⟨.output, token.display ++ [Byte.newline]⟩

/-- A line of the script with its number.  Carriage returns at its end are not
shown. -/
def excerpt (sourcePieces : List Bytes) (line : Nat) : Transcript :=
  if line = 0 then []
  else match sourcePieces[line - 1]? with
    | none => []
    | some piece =>
        [⟨.error, ascii "  " ++ Numeral.ofNat line ++ ascii " | " ++ trimReturns piece ++
          ascii "\n"⟩]

def diagnosticLines (options : Options) (sourcePieces : List Bytes) (diagnostic : Diagnostic) :
    Transcript :=
  [⟨.error, ascii "[line " ++ Numeral.ofNat diagnostic.line ++ ascii "] "⟩,
    ⟨.emphasis, ascii "Error"⟩,
    ⟨.error, ascii ": " ++ diagnostic.message ++ ascii "\n"⟩] ++
    (if options.showSource then excerpt sourcePieces diagnostic.line else [])

/-- The tokens of a source and, after all of them, its diagnostics. -/
def scanLines (options : Options) (source : Bytes) (result : Scan) : Transcript :=
  let sourcePieces := pieces source
  tokenLines options result.tokens ++
    result.diagnostics.flatMap (diagnosticLines options sourcePieces)

def errorCount (count : Nat) : Transcript :=
  [⟨.noteLabel, programName⟩,
    ⟨.error, Numeral.ofNat count ++ ascii (if count = 1 then " error" else " errors") ++
      ascii " generated.\n"⟩]

def runFile (options : Options) (content : Bytes) : Report :=
  let result := scan content
  let written := scanLines options content result
  if result.diagnostics = [] then ⟨.success, written⟩
  else ⟨.faultyScript, written ++ errorCount result.diagnostics.length⟩

def promptMark : Transcript :=
  [⟨.output, ascii "> "⟩]

/-- What follows a line that was typed.  It is not written a second time. -/
def answerLine (options : Options) (line : Bytes) : Transcript :=
  scanLines { options with showSource := false } line (scan line)

def promptEnd : Transcript :=
  [⟨.output, ascii "\n"⟩]

/-- The prompt takes each line for itself, and faults do not make it fail. -/
def runPrompt (options : Options) (input : Bytes) : Report where
  exit := .success
  transcript :=
    (lines input).flatMap (fun line => promptMark ++ answerLine options line) ++
      promptMark ++ promptEnd

/-- A run of the program on its positional arguments, with what opening a single
one of them gives and what there is to read without any. -/
def run (options : Options) (files : List Bytes) (opened : Except OpenFailure Bytes)
    (input : Bytes) : Report :=
  match files with
  | [] => runPrompt options input
  | [name] =>
      match opened with
      | .error failure => openFailed name failure
      | .ok content => runFile options content
  | _ :: _ :: _ => usage

end ScriptLexer.Console
