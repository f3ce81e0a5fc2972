import LispReader.CommandLine.Answer

/-! The program: files, standard input and the two output channels around the answers. -/
namespace LispReader.CommandLine

def Output.emit (o : Output) : IO Unit := do
  let stdout ← IO.getStdout
  let stderr ← IO.getStderr
  stdout.putStr o.out
  stdout.flush
  stderr.putStr o.err
  stderr.flush

/-- Writes an answer. A program that was cut short says why and exits with code one. -/
def Answer.emit (a : Answer) : IO UInt32 := do
  a.output.emit
  match a.exit with
  | .ok code => return code.toUInt32
  | .error condition =>
    Output.emit (.toErr (condition.message ++ "\n"))
    return 1

/-- The bytes of a file. -/
def readBytes (path : Path) : IO (Except FileFault (List UInt8)) := do
  try
    let bytes ← IO.FS.readBinFile path.text
    return .ok bytes.toList
  catch
    | .inappropriateType _ 20 _ => return .error .notDirectory
    | .inappropriateType _ _ _ => return .error .isDirectory
    | _ => return .error .notFound

/-- Responds to the input piece by piece until it ends or the session does. Each piece but the last
ends in a line feed. -/
partial def converse (o : Options) (input : IO.FS.Stream) : IO UInt32 := do
  let piece ← input.getLine
  if piece.isEmpty then endOfSession.emit
  else
    let stretch := respondAll o (inputLines piece)
    stretch.output.emit
    match stretch.ending with
    | some exit => Answer.emit ⟨{}, exit⟩
    | none => converse o input

/-- Does what a command line asks for. -/
def perform (arguments : List String) : IO UInt32 := do
  match taskOf arguments with
  | .print answer => answer.emit
  | .text o source => (answerText o "<expr>" source).emit
  | .file o name =>
    let bytes ← readBytes (.ofString name)
    (answerFile o (fun _ => bytes) name).emit
  | .session o =>
    Output.emit (.toOut (banner ++ prompt))
    converse o (← IO.getStdin)

end LispReader.CommandLine

def main (arguments : List String) : IO UInt32 := LispReader.CommandLine.perform arguments
