import HologramLive.Inference.Ollama

namespace HologramLive.Gateway
open Inference

structure OllamaMessage where
  role : String
  content : String

namespace OllamaMessage

def toJson (message : OllamaMessage) : Json :=
  .ofFields [("role", some (.string message.role)), ("content", some (.string message.content))]

end OllamaMessage

/-- One NDJSON line. `/api/generate` carries `response`; `/api/chat` carries `message`. -/
structure StreamLine where
  model : String
  createdAt : String
  response : Option String
  message : Option OllamaMessage
  done : Bool
  doneReason : Option String
  promptEvalCount : Option UInt64
  evalCount : Option UInt64

namespace StreamLine

def count (value : UInt64) : Json := .number value.toNat

def toJson (line : StreamLine) : Json :=
  .ofFields
    [("model", some (.string line.model)), ("created_at", some (.string line.createdAt)),
      ("response", line.response.map .string), ("message", line.message.map OllamaMessage.toJson),
      ("done", some (.bool line.done)), ("done_reason", line.doneReason.map .string),
      ("prompt_eval_count", line.promptEvalCount.map count),
      ("eval_count", line.evalCount.map count)]

end StreamLine

/-- Error rendered in Ollama's plain envelope. -/
def errorBody (error : LiveError) : Json := .ofFields [("error", some (.string error.message))]

/-- Which field carries the text. -/
inductive LineShape where
  | response
  | message

/-- One response: what it is served as, and the clock it stamps its lines with. -/
structure OllamaGateway where
  model : String
  shape : LineShape
  now : Nat → String

namespace OllamaGateway
variable (gateway : OllamaGateway)

def line (position : Nat) (text : Option String) (done : Bool)
    (summary : Option CompletionSummary) : StreamLine :=
  let usage := summary.bind CompletionSummary.usage
  { model := gateway.model
    createdAt := gateway.now position
    response := match gateway.shape with
      | .response => text
      | .message => none
    message := match gateway.shape with
      | .response => none
      | .message => text.map fun content => { role := "assistant", content }
    done
    doneReason := if done then some "stop" else none
    promptEvalCount := usage.map TokenUsage.promptTokens
    evalCount := usage.map TokenUsage.completionTokens }

/-- The lines of the body, from a position on. A stream that ends without an ending is closed
like one that is done. -/
def ndjson (position : Nat) : CompletionStream → List Json
  | [] => [(gateway.line position none true none).toJson]
  | .ok (.delta text) :: events =>
    (gateway.line position (some text) false none).toJson :: ndjson (position + 1) events
  | .ok (.done summary) :: _ => [(gateway.line position none true (some summary)).toJson]
  | .error error :: _ => [errorBody error]

/-- The body that is written, every line with its newline. -/
def ndjsonResponse (codec : JsonCodec) (events : CompletionStream) : Bytes :=
  ((gateway.ndjson 0 events).map fun document => codec.toVec document ++ [newline]).flatten

end OllamaGateway
end HologramLive.Gateway
