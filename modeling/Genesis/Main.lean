import Genesis.Cli.Run

/-! The program: makes a genesis as its command line asks for, and puts it into a folder. -/

namespace Genesis.Cli

def explain : List String → String
  | [] => ""
  | [reason] => "Error: " ++ reason
  | [reason, cause] => "Error: " ++ reason ++ "\n\nCaused by:\n    " ++ cause
  | reason :: causes =>
    let lines := causes.zipIdx.map fun (cause, i) => "\n    " ++ toString i ++ ": " ++ cause
    "Error: " ++ reason ++ "\n\nCaused by:" ++ String.join lines

def usage : String :=
  let line (flag : Flag) : String :=
    match flag.effect with
    | .switch _ => "  --" ++ flag.name ++ "\n"
    | .value _ => "  --" ++ flag.name ++ " <VALUE>\n"
  "Usage: genesis [OPTIONS]\n\nOptions:\n" ++ String.join (Flag.all.map line) ++
    "  -h, --help\n  -V, --version"

def version : String := "genesis 0.1.0"

/-- The bytes from which all keys of a run are spread out. -/
def entropySize : USize := 32

def commit (o : Options) (t : FileTree) : IO Unit := do
  IO.FS.createDirAll o.outputFolder
  for (name, bytes) in t.filesIn o.folder do
    IO.FS.writeBinFile (o.outputFolder ++ "/" ++ name) bytes

def start (words : List String) : IO UInt32 := do
  match Invocation.ofWords words with
  | .help => IO.println usage; return 0
  | .version => IO.println version; return 0
  | .misuse word => IO.eprintln (explain [misuseMessage word]); return 2
  | .run options =>
    let entropy ← IO.getRandomBytes entropySize
    match options.run (.ofEntropy entropy.toList) {} with
    | none => return 1 -- not reached, as the run goes on for ever
    | some (.ok (), tree) => commit options tree; return 0
    | some (.error failure, _) => IO.eprintln (explain failure.chain); return 1

end Genesis.Cli

def main (words : List String) : IO UInt32 := Genesis.Cli.start words
