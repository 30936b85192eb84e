import HologramLive.Inference.Stream
import HologramLive.Serde

namespace HologramLive.Gateway
open Inference

structure ChunkDelta where
  role : Option String := none
  content : Option String := none

structure ChunkChoice where
  index : Nat
  delta : ChunkDelta
  finishReason : Option String

structure Usage where
  promptTokens : Nat
  completionTokens : Nat
  totalTokens : Nat

structure ChatCompletionChunk where
  id : String
  object : String
  created : Nat
  model : String
  choices : List ChunkChoice
  usage : Option Usage

structure OpenAiErrorBody where
  message : String
  kind : String
  code : Option String

def ChunkDelta.toJson (delta : ChunkDelta) : Json :=
  .ofFields [("role", delta.role.map .string), ("content", delta.content.map .string)]

def ChunkChoice.toJson (choice : ChunkChoice) : Json :=
  .ofFields
    [("index", some (.number choice.index)), ("delta", some choice.delta.toJson),
      ("finish_reason", some (.ofOption .string choice.finishReason))]

def Usage.ofTokens (usage : TokenUsage) : Usage :=
  ⟨usage.promptTokens.toNat, usage.completionTokens.toNat, usage.total⟩

def Usage.toJson (usage : Usage) : Json :=
  .ofFields
    [("prompt_tokens", some (.number usage.promptTokens)),
      ("completion_tokens", some (.number usage.completionTokens)),
      ("total_tokens", some (.number usage.totalTokens))]

def ChatCompletionChunk.toJson (chunk : ChatCompletionChunk) : Json :=
  .ofFields
    [("id", some (.string chunk.id)), ("object", some (.string chunk.object)),
      ("created", some (.number chunk.created)), ("model", some (.string chunk.model)),
      ("choices", some (.array (chunk.choices.map ChunkChoice.toJson))),
      ("usage", chunk.usage.map Usage.toJson)]

def OpenAiErrorBody.ofError (error : LiveError) : OpenAiErrorBody :=
  match error with
  | .notFound _ => ⟨error.message, "not_found_error", some error.code⟩
  | .config _ | .protocol _ | .invalidHolo _ =>
    ⟨error.message, "invalid_request_error", some error.code⟩
  | _ => ⟨error.message, "server_error", some error.code⟩

/-- The envelope an error is reported in. -/
def OpenAiErrorBody.envelope (body : OpenAiErrorBody) : Json :=
  .ofFields
    [("error", some (.ofFields
      [("message", some (.string body.message)), ("type", some (.string body.kind)),
        ("code", some (.ofOption .string body.code))]))]

/-- What one server-sent event carries. -/
inductive SseData where
  | chunk (chunk : ChatCompletionChunk)
  | failure (body : OpenAiErrorBody)
  | done

/-- The text of an event's data. -/
def SseData.encode (codec : JsonCodec) : SseData → Bytes
  | .chunk value => codec.toVec value.toJson
  | .failure body => codec.toVec body.envelope
  | .done => "[DONE]".toByteArray.data.toList

structure OpenAiGateway where
  id : String
  created : Nat
  model : String
  includeUsage : Bool

namespace OpenAiGateway
variable (gateway : OpenAiGateway)

def chunk (choices : List ChunkChoice) (usage : Option Usage) : ChatCompletionChunk :=
  ⟨gateway.id, "chat.completion.chunk", gateway.created, gateway.model, choices, usage⟩

def stop : ChatCompletionChunk := gateway.chunk [⟨0, {}, some "stop"⟩] none

/-- What follows a stream that has not failed. -/
def close (usage : Option TokenUsage) : List SseData :=
  .chunk gateway.stop ::
    ((if gateway.includeUsage then usage.toList.map fun usage =>
        SseData.chunk (gateway.chunk [] (some (Usage.ofTokens usage))) else []) ++ [SseData.done])

def streamEvents : CompletionStream → List SseData
  | [] => gateway.close none
  | .ok (.delta text) :: events =>
    .chunk (gateway.chunk [⟨0, { content := some text }, none⟩] none) :: streamEvents events
  | .ok (.done summary) :: _ => gateway.close summary.usage
  | .error error :: _ => [.failure (.ofError error), .done]

/-- The events of a streamed chat completion. -/
def chat (events : CompletionStream) : List SseData :=
  .chunk (gateway.chunk [⟨0, { role := some "assistant" }, none⟩] none) ::
    gateway.streamEvents events

def streamChat (codec : JsonCodec) (events : CompletionStream) : List Bytes :=
  (gateway.chat events).map (SseData.encode codec)

end OpenAiGateway
end HologramLive.Gateway
