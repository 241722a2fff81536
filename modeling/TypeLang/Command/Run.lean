import TypeLang.Command.Options
import TypeLang.Decoder.Run
import TypeLang.Json.Text
import TypeLang.Schema.Builder

/-!
# The command

The command reads a payload by one or more schema files and shows the value as JSON.  It sees the
files and the standard input as they are handed to it, and what it writes is a value too.
-/

namespace TypeLang.Command

/-- What the command finds around it. -/
structure Surroundings where
  /-- The content of a file, if there is one. -/
  file? : String → Option (List UInt8)
  stdin : List UInt8

/-- What the command leaves. -/
structure Report where
  exitCode : UInt32
  stdout : String
  stderr : String
  deriving DecidableEq, Repr

/-- Why the command fails. -/
inductive Fault where
  | schemaMissing (path : String)
  | schemaNotText (path : String)
  | schemaFaulty (path : String) (cause : SchemaFault)
  /-- The files together make no schema. -/
  | noSchema (cause : SchemaFault)
  /-- The payload cannot be read, or nothing can be read by this schema. -/
  | unreadable (cause : Wire.Fault)
  | payloadMissing
  | payloadNotHex (cause : Text.HexFault)

/-- How a missing file is reported. -/
def missingFile : String :=
  "No such file or directory (os error 2)"

/-- The wording of a fault. -/
def Fault.message : Fault → String
  | schemaMissing path => path ++ ": " ++ missingFile
  | schemaNotText path => path ++ ": stream did not contain valid UTF-8"
  | schemaFaulty path cause => path ++ ": " ++ cause.message
  | noSchema cause => cause.message
  | unreadable cause => cause.message
  | payloadMissing => missingFile
  | payloadNotHex cause => cause.message

/-- Queues the declarations of a schema file. -/
def addFile (world : Surroundings) (b : Builder) (file : SchemaFile) : Except Fault Builder :=
  match world.file? file.path with
  | none => .error (.schemaMissing file.path)
  | some content =>
    match Text.unutf8 content with
    | .error _ => .error (.schemaNotText file.path)
    | .ok text =>
      match b.addSource text file.origin with
      | (_, some fault) => .error (.schemaFaulty file.path fault)
      | (b, none) => .ok b

/-- The octets of the payload. -/
def payloadOf (world : Surroundings) (options : Options) : Except Fault (List UInt8) := do
  let content ←
    if options.payload = "-" then pure world.stdin
    else
      match world.file? options.payload with
      | some content => pure content
      | none => throw .payloadMissing
  if options.hex then
    (Text.unhex (content.filter fun b => !Text.isAsciiBlankOctet b)).mapError .payloadNotHex
  else
    return content

/-- The value that a reader finds at the start of some octets. -/
def valueAtStart (reader : Wire.Reader Value) (octets : List UInt8) : Except Fault Value :=
  match reader (Wire.Cursor.start octets) with
  | .done value _ => .ok value
  | .failed fault _ => .error (.unreadable fault)

/-- The value that the command shows. -/
def evaluate (world : Surroundings) (options : Options) : Except Fault Value := do
  let builder ← options.schemas.foldlM (addFile world) Builder.empty
  let schema ← builder.build.mapError .noSchema
  let defaults : Limits := {}
  let limits := { defaults with maxInflated := options.maxInflated.getD defaults.maxInflated }
  let decoder ← (Decoder.ofSchema schema limits).mapError .unreadable
  let payload ← payloadOf world options
  let reader :=
    match options.type with
    | some type => decoder.readType type
    | none => decoder.readObject
  valueAtStart reader payload

/-- The options, for a reader of the terminal. -/
def helpText : String :=
  "Decode a TL payload against one or more schema files and print it as JSON.\n\n" ++
  "Usage: [OPTIONS] --schema <SCHEMAS> <PAYLOAD>\n\n" ++
  "Arguments:\n" ++
  "  <PAYLOAD>  Payload file, or `-` for stdin\n\n" ++
  "Options:\n" ++
  "  -s, --schema <SCHEMAS>             Schema file, optionally suffixed with `:mtproto`, " ++
  "`:api` or `:secret`\n" ++
  "  -t, --type <TY>                    Decode as this type expression instead of a top-level " ++
  "object\n" ++
  "      --hex                          The payload is hex text\n" ++
  "      --max-inflated <MAX_INFLATED>  Inflated size cap for `gzip_packed`, in bytes\n" ++
  "  -h, --help                         Print help\n"

/-- What the command does with its words. -/
def run (world : Surroundings) (words : List String) : Report :=
  match Invocation.ofWords words with
  | .help => ⟨0, helpText, ""⟩
  | .misuse => ⟨2, "", "usage: [OPTIONS] --schema <SCHEMAS> <PAYLOAD>\n"⟩
  | .read options =>
    match evaluate world options with
    | .ok value => ⟨0, value.toJson.pretty ++ "\n", ""⟩
    | .error fault => ⟨1, "", "✗ " ++ fault.message ++ "\n"⟩

end TypeLang.Command
