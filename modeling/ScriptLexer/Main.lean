import ScriptLexer.Console.Request

namespace ScriptLexer.Main

/-! The program on a terminal: it reads, asks `Console` what to write, and writes. -/

open Console

def toStream (stream : IO.FS.Stream) (bytes : Bytes) : IO Unit := do
  stream.write (ByteArray.mk bytes.toArray)
  stream.flush

def writePiece (piece : Piece) : IO Unit := do
  match piece.channel with
  | .output => toStream (← IO.getStdout) piece.text
  | .error | .emphasis => toStream (← IO.getStderr) piece.text
  | .errorLabel => toStream (← IO.getStderr) (piece.text ++ ascii ": error: ")
  | .noteLabel => toStream (← IO.getStderr) (piece.text ++ ascii ": note: ")

def write (transcript : Transcript) : IO Unit :=
  transcript.joined.forM writePiece

def finish (report : Report) : IO UInt32 := do
  write report.transcript
  return report.exit.status.toUInt32

def openFile (name : String) : IO (Except OpenFailure Bytes) := do
  try
    return .ok (← IO.FS.readBinFile name).toList
  catch failure =>
    return .error (match failure with
      | .noFileOrDirectory .. => .noSuchFile
      | .permissionDenied .. => .permissionDenied
      | .inappropriateType .. => .isDirectory
      | _ => .other failure.toString.toUTF8.toList)

/-- Reads up to the next newline, which is dropped.  There is no line if there
is no byte left. -/
partial def readLine? (stream : IO.FS.Stream) (before : Bytes) : IO (Option Bytes) := do
  match (← stream.read 1).toList with
  | [] => return if before.isEmpty then none else some before.reverse
  | byte :: _ =>
      if byte = Byte.newline then return some before.reverse
      else readLine? stream (byte :: before)

/-- Answers each line as soon as it has been typed. -/
partial def prompt (options : Options) : IO UInt32 := do
  write promptMark
  match ← readLine? (← IO.getStdin) [] with
  | none =>
      write promptEnd
      return 0
  | some line =>
      write (answerLine options line)
      prompt options

def start (words : List String) : IO UInt32 := do
  let request := Request.ofWords words
  write (request.complaints.map Complaint.line)
  match request.action with
  | .version =>
      write version
      return 0
  | .help =>
      write help
      return 0
  | .refuse => return 1
  | .run options [] => prompt options
  | .run options [name] =>
      let opened ← openFile name
      finish (run options [name.toUTF8.toList] opened [])
  | .run options files => finish (run options (files.map (·.toUTF8.toList)) (.ok []) [])

end ScriptLexer.Main

def main (words : List String) : IO UInt32 :=
  ScriptLexer.Main.start words
