import PhraseStructure.CommandLine.Session

/-!
# The program

The command line program. The files that the options name are read first, and the input is read
after the prompt has been printed; all else is computed from what was read.
-/

namespace PhraseStructure.CommandLine

def failureNumber (code : UInt32) : Nat := (if code < 0x80000000 then code else 0 - code).toNat

def failure (code : UInt32) (details : String) : FileError :=
  match failureNumber code with
  | 2 => .notFound
  | 20 => .notDirectory
  | 21 => .isDirectory
  | number => .refused details number

/-- The reason why the system refuses to read a file. -/
def reason : IO.Error → FileError
  | .noFileOrDirectory _ code details => failure code details
  | .inappropriateType _ code details => failure code details
  | .permissionDenied _ code details => failure code details
  | .resourceExhausted _ code details => failure code details
  | .invalidArgument _ code details => failure code details
  | .otherError code details => failure code details
  | _ => .refused "Input/output error" 5

def contents (path : String) : IO (Except FileError ByteArray) := do
  try
    return .ok (← IO.FS.readBinFile path)
  catch e => return .error (reason e)

def gather (o : Options) : IO Reading := do
  let found ← (o.grammar.toList ++ o.file.toList).mapM fun path => return (path, ← contents path)
  return fun path => (found.lookup path).getD (.error .notFound)

/-- Reads the input up to the end of its first line. -/
partial def inputLine (input : IO.FS.Stream) (line : ByteArray) : IO ByteArray := do
  let byte ← input.read 1
  if byte.isEmpty || byte.toList == [10] then return line ++ byte
  else inputLine input (line ++ byte)

/-- Writes what an outcome has for the two streams, except for what has been printed already. -/
def finish (printed : String) (o : Outcome) : IO UInt32 := do
  IO.print (o.output.drop printed.length).toString
  IO.eprint o.complaint
  return o.code

end PhraseStructure.CommandLine

open PhraseStructure PhraseStructure.CommandLine

def main (arguments : List String) : IO UInt32 := do
  match Request.ofArguments arguments with
  | .ok (.parse o) =>
    let read ← gather o
    match Session.loadGrammar read o, o.file with
    | .ok _, none =>
      IO.print Session.prompt
      (← IO.getStdout).flush
      let line ← inputLine (← IO.getStdin) ByteArray.empty
      finish Session.prompt (Session.run read line o)
    | _, _ => finish "" (Session.run read ByteArray.empty o)
  | _ => finish "" (outcome (fun _ => .error .notFound) ByteArray.empty arguments)
