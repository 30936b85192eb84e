import HologramLive.Inference.Stream
import HologramLive.Lib.Lines
import HologramLive.Lib.Utf8
import HologramLive.Serde
import HologramLive.Store.Names

namespace HologramLive.Inference
open Lib

/-- Cap on a single buffered NDJSON line while streaming. -/
def maxStreamLineBytes : Nat := 1024 * 1024

def newline : UInt8 := 10

/-- One NDJSON line of a streaming response. -/
structure OllamaStreamLine where
  response : String := ""
  done : Bool := false
  promptEvalCount : Option UInt64 := none
  evalCount : Option UInt64 := none

namespace OllamaStreamLine

def shape : StructShape where
  fields := [("response", true), ("done", true), ("prompt_eval_count", false), ("eval_count", false)]
  denyUnknownFields := false

def count (document : Json) : Option UInt64 := (Json.asUnsigned 64 document).map UInt64.ofNat

def ofJson (document : Json) : Option OllamaStreamLine := do
  match ← shape.read document with
  | [response, done, promptEvalCount, evalCount] =>
    some
      { response := ← Json.defaulted Json.asStr "" response
        done := ← Json.defaulted Json.asBool false done
        promptEvalCount := ← Json.optional count promptEvalCount
        evalCount := ← Json.optional count evalCount }
  | _ => none

/-- `serde_json::from_str`. -/
def fromStr (codec : JsonCodec) (refusal : Bytes → String) (text : String) :
    Except String OllamaStreamLine :=
  codec.read refusal ofJson (Utf8.encode text)

end OllamaStreamLine

/-- What the reader is set up with: the line parser, the model's name and the one reading of
its clock. -/
structure OllamaReader where
  parse : String → Except String OllamaStreamLine
  model : String
  elapsedMillis : Nat

namespace OllamaReader
variable (reader : OllamaReader)

def summary (parsed : OllamaStreamLine) : CompletionSummary :=
  ⟨reader.model, TokenUsage.fromCounts parsed.promptEvalCount parsed.evalCount,
    reader.elapsedMillis⟩

/-- What a line that parses sends. -/
def lineEvents (parsed : OllamaStreamLine) : CompletionStream :=
  (if parsed.response = "" then [] else [Except.ok (CompletionEvent.delta parsed.response)]) ++
  (if parsed.done then [Except.ok (CompletionEvent.done (reader.summary parsed))] else [])

/-- What one complete line sends, and whether the reader returns after it. -/
def readLine (line : Bytes) : CompletionStream × Bool :=
  let trimmed := Store.trim (Utf8.decodeLossy line)
  if trimmed = "" then ([], false)
  else match reader.parse trimmed with
    | .error error => ([.error (.protocol s!"parse ollama stream line: {error}")], true)
    | .ok parsed => (reader.lineEvents parsed, parsed.done)

def readLines : List Bytes → CompletionStream × Bool
  | [] => ([], false)
  | line :: rest =>
    let (events, returned) := reader.readLine line
    if returned then (events, true)
    else
      let (others, returned) := readLines rest
      (events ++ others, returned)

def exceeded : LiveError :=
  .protocol s!"ollama stream line exceeded {maxStreamLineBytes} bytes without a newline"

def ended : LiveError := .protocol "ollama stream ended before a done line"

/-- The reader task: complete lines are taken out of the buffer as their newlines arrive. -/
def readBody (buffered : Bytes) : List (Except String Bytes) → CompletionStream
  | [] => [.error ended]
  | .error error :: _ => [.error (.transport s!"ollama stream failed: {error}")]
  | .ok chunk :: rest =>
    let buffered := buffered ++ chunk
    if maxStreamLineBytes < buffered.length ∧ newline ∉ buffered then [.error exceeded]
    else
      let (lines, buffered) := Lines.split newline buffered
      let (events, returned) := reader.readLines lines
      if returned then events else events ++ readBody buffered rest

/-- The events of a response body. -/
def completeStream (chunks : List (Except String Bytes)) : CompletionStream :=
  reader.readBody [] chunks

end OllamaReader
end HologramLive.Inference
