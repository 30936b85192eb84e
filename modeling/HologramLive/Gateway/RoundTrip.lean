import HologramLive.Gateway.OllamaCompat
import HologramLive.Gateway.OpenaiCompat
import HologramLive.Inference.Chunking

namespace HologramLive.Gateway
open Lib Inference OllamaReader

/-- The engine's reader, for a server that answers as the gateway does. -/
def readerOf (codec : JsonCodec) (refusal : Bytes → String) (model : String)
    (elapsedMillis : Nat) : OllamaReader where
  parse := OllamaStreamLine.fromStr codec refusal
  model
  elapsedMillis

/-- A document that is written as one line of text, with nothing around it, and reads back. -/
structure Spells (codec : JsonCodec) (document : Json) : Prop where
  keeps : codec.Keeps document
  oneLine : newline ∉ codec.toVec document
  text : ∃ text, codec.toVec document = Utf8.encode text ∧ Store.trim text = text ∧ text ≠ ""

/-- The same text, the same kind of ending and the same usage. -/
def Delivered (events : CompletionStream) (texts : List String) (ending : Ending) : Prop :=
  ∃ read readEnding, Contract events read readEnding ∧ wholeText read = wholeText texts ∧
    (readEnding.Clean ↔ ending.Clean) ∧ readEnding.usage = ending.usage

/-- A line that says the answer is complete. -/
def ClaimsDone (document : Json) : Prop :=
  ∃ entries, document = .object entries ∧ entries.lookup "done" = some (.bool true)

def Stops (data : SseData) : Prop :=
  ∃ chunk, data = .chunk chunk ∧ ∃ choice ∈ chunk.choices, choice.finishReason = some "stop"

section
variable {codec : JsonCodec} {refusal : Bytes → String} {model : String} {elapsedMillis : Nat}
  {gateway : OllamaGateway} {document : Json} {parsed : OllamaStreamLine}
  {stream : CompletionStream} {texts : List String} {ending : Ending} {chunks : List Bytes}

theorem count_count (value : UInt64) :
    OllamaStreamLine.count (StreamLine.count value) = some value := by
  rw [OllamaStreamLine.count, StreamLine.count, Json.asUnsigned_number value.toNat_lt]
  simp

/-- What the reader makes of a line the gateway wrote. -/
theorem ofJson_line (line : StreamLine) : OllamaStreamLine.ofJson line.toJson =
    some ⟨line.response.getD "", line.done, line.promptEvalCount, line.evalCount⟩ := by
  have hcount (value : Option UInt64) :
      Json.optional OllamaStreamLine.count (value.map StreamLine.count) = some value :=
    Json.optional_skipped (fun found _ => count_count found) fun _ => Json.noConfusion
  have htext : Json.defaulted Json.asStr "" (line.response.map .string) =
      some (line.response.getD "") := by
    cases line.response <;> rfl
  have hdone : Json.defaulted Json.asBool false (some (.bool line.done)) = some line.done := rfl
  rw [OllamaStreamLine.ofJson, StreamLine.toJson, StructShape.read_written (by simp)
    (fun h => by cases h)]
  simp [OllamaStreamLine.shape, StructShape.names, List.lookup_cons, hcount, htext, hdone]

theorem ofJson_errorBody (error : LiveError) :
    OllamaStreamLine.ofJson (errorBody error) = some {} := by
  rw [OllamaStreamLine.ofJson, errorBody, StructShape.read_written (by simp)
    (fun h => by cases h)]
  rfl

theorem readLine_document (h : Spells codec document)
    (hread : OllamaStreamLine.ofJson document = some parsed) :
    (readerOf codec refusal model elapsedMillis).readLine (codec.toVec document ++ [newline]) =
      ((readerOf codec refusal model elapsedMillis).lineEvents parsed, parsed.done) := by
  obtain ⟨text, htext, htrim, hne⟩ := h.text
  have hnewline : [newline] = Utf8.encode "\n" := by decide
  have hwhite : ∀ c ∈ "\n".toList, Store.isWhitespace c = true := by
    intro c hc
    obtain rfl : c = '\n' := by simpa using hc
    decide
  have hpadded : Store.trim (text ++ "\n") = text := by
    rw [← String.toList_inj, Store.trim_toList, String.toList_append, Strip.strip_right hwhite,
      ← Store.trim_toList, htrim]
  have hline : Store.trim (Utf8.decodeLossy (codec.toVec document ++ [newline])) = text := by
    rw [htext, hnewline, ← Utf8.encode_append, Utf8.decodeLossy_encode, hpadded]
  have hparse : (readerOf codec refusal model elapsedMillis).parse text = .ok parsed := by
    have hkept := @JsonCodec.Keeps.read _ _ codec refusal _ document h.keeps hread
    rw [htext] at hkept
    exact hkept
  simp only [readLine, hline, hne, hparse, ↓reduceIte]

/-- What the terminal line sends, and whether it is one. -/
def terminal (reader : OllamaReader) : Ending → CompletionStream × Bool
  | .done summary => ([.ok (.done ⟨reader.model, summary.usage, reader.elapsedMillis⟩)], true)
  | .failed _ => ([], false)

theorem fromCounts_usage (usage : Option TokenUsage) :
    TokenUsage.fromCounts (usage.map TokenUsage.promptTokens)
      (usage.map TokenUsage.completionTokens) = usage := by
  cases usage <;> rfl

theorem summary_line (reader : OllamaReader) (position : Nat) (summary : CompletionSummary) :
    reader.summary ⟨(gateway.line position none true (some summary)).response.getD "", true,
      (gateway.line position none true (some summary)).promptEvalCount,
      (gateway.line position none true (some summary)).evalCount⟩ =
      ⟨reader.model, summary.usage, reader.elapsedMillis⟩ := by
  have husage := fromCounts_usage summary.usage
  simp only [OllamaReader.summary, OllamaGateway.line, Option.bind_some, husage]

/-- The lines of a body, read one after another. -/
theorem readLines_ndjson (position : Nat) (hshape : gateway.shape = .response)
    (hspells : ∀ document ∈ gateway.ndjson position (deltas texts ++ [ending.item]),
      Spells codec document) :
    (readerOf codec refusal model elapsedMillis).readLines
        ((gateway.ndjson position (deltas texts ++ [ending.item])).map
          fun document => codec.toVec document ++ [newline]) =
      (deltas (texts.filter (· ≠ "")) ++
          (terminal (readerOf codec refusal model elapsedMillis) ending).1,
        (terminal (readerOf codec refusal model elapsedMillis) ending).2) := by
  induction texts generalizing position with
  | nil =>
    cases ending with
    | done summary =>
      have hspell : Spells codec (gateway.line position none true (some summary)).toJson :=
        hspells _ List.mem_cons_self
      have hline := @readLine_document codec refusal model elapsedMillis _ _ hspell (ofJson_line _)
      have hresponse : (gateway.line position none true (some summary)).response = none := by
        simp [OllamaGateway.line, hshape]
      have hdone : (gateway.line position none true (some summary)).done = true := rfl
      have hsent := @summary_line gateway (readerOf codec refusal model elapsedMillis) position summary
      rw [hresponse, Option.getD_none] at hsent hline
      rw [hdone] at hline
      simp only [OllamaReader.lineEvents, hsent, ↓reduceIte] at hline
      simp [OllamaGateway.ndjson, Ending.item, readLines, hline, terminal]
    | failed error =>
      have hspell : Spells codec (errorBody error) := hspells _ List.mem_cons_self
      have hline := @readLine_document codec refusal model elapsedMillis _ _ hspell
        (ofJson_errorBody error)
      simp [OllamaGateway.ndjson, Ending.item, readLines, hline, terminal, OllamaReader.lineEvents]
  | cons text texts ih =>
    have hspell : Spells codec (gateway.line position (some text) false none).toJson :=
      hspells _ List.mem_cons_self
    have hline := @readLine_document codec refusal model elapsedMillis _ _ hspell (ofJson_line _)
    have hresponse : (gateway.line position (some text) false none).response = some text := by
      simp [OllamaGateway.line, hshape]
    have hdone : (gateway.line position (some text) false none).done = false := rfl
    rw [hresponse, hdone] at hline
    have hrest := ih (position + 1) fun document hdocument =>
      hspells document (List.mem_cons_of_mem _ hdocument)
    by_cases hempty : text = ""
    · subst hempty
      simp [OllamaGateway.ndjson, readLines, hline, OllamaReader.lineEvents, hrest]
    · simp [OllamaGateway.ndjson, readLines, hline, OllamaReader.lineEvents, hrest, hempty]

/-- The body is the lines that were written, and nothing after them. -/
theorem lines_ndjsonResponse (hspells : ∀ document ∈ gateway.ndjson 0 stream, Spells codec document) :
    lines (gateway.ndjsonResponse codec stream) =
      (gateway.ndjson 0 stream).map fun document => codec.toVec document ++ [newline] := by
  have hopen : ∀ line ∈ (gateway.ndjson 0 stream).map codec.toVec, newline ∉ line := by
    intro line hline
    obtain ⟨document, hdocument, rfl⟩ := List.mem_map.mp hline
    exact (hspells document hdocument).oneLine
  have hsplit := Lines.split_lines hopen
  rw [List.map_map] at hsplit
  rw [lines, OllamaGateway.ndjsonResponse]
  exact congrArg Prod.fst hsplit

theorem terminal_delta (reader : OllamaReader) (text : String) :
    .ok (.delta text) ∉ (terminal reader ending).1 := by
  cases ending <;> simp [terminal]

/-- What is read of a body that the reader is not cut off from. -/
theorem ndjson_delivered (hshape : gateway.shape = .response) (hcontract : Contract stream texts ending)
    (hspells : ∀ document ∈ gateway.ndjson 0 stream, Spells codec document) :
    Delivered ((readerOf codec refusal model elapsedMillis).bodyEvents
      (gateway.ndjsonResponse codec stream)) texts ending := by
  rw [bodyEvents, lines_ndjsonResponse hspells]
  rw [Contract] at hcontract
  subst hcontract
  rw [readLines_ndjson 0 hshape hspells]
  refine ⟨texts.filter (· ≠ ""), ?_⟩
  cases ending with
  | done summary =>
    exact ⟨.done ⟨model, summary.usage, elapsedMillis⟩, rfl, wholeText_nonempty texts, Iff.rfl, rfl⟩
  | failed error =>
    refine ⟨.failed ended, ?_, wholeText_nonempty texts, Iff.rfl, rfl⟩
    simp [Contract, terminal, Ending.item]

/-- Where the reader is cut off, it has told the start of the text. -/
theorem ndjson_refused (hshape : gateway.shape = .response) (hcontract : Contract stream texts ending)
    (hspells : ∀ document ∈ gateway.ndjson 0 stream, Spells codec document)
    (hchunks : chunks.flatten = gateway.ndjsonResponse codec stream)
    (hcut : (readerOf codec refusal model elapsedMillis).CutAt [] chunks count) :
    ∃ read missing, (∀ text ∈ read, text ≠ "") ∧
      ((readerOf codec refusal model elapsedMillis).readLines
        (lines (chunks.take count).flatten)).1 = deltas read ∧
      wholeText texts = wholeText read ++ missing := by
  obtain ⟨read, hnonempty, hread⟩ := hcut.ending
  have hgoing := hcut.going
  rw [List.nil_append] at hgoing
  have hbody : gateway.ndjsonResponse codec stream =
      (chunks.take count).flatten ++ (chunks.drop count).flatten := by
    rw [← hchunks, ← List.flatten_append, List.take_append_drop]
  have hlines := lines_ndjsonResponse hspells
  rw [hbody, lines_append] at hlines
  rw [Contract] at hcontract
  subst hcontract
  have hall := @readLines_ndjson codec refusal model elapsedMillis gateway texts ending 0 hshape hspells
  rw [← hlines, readLines_append, if_neg (by simp [hgoing]), hread] at hall
  have hprefix : deltas read <+: deltas (texts.filter (· ≠ "")) ++
      (terminal (readerOf codec refusal model elapsedMillis) ending).1 :=
    ⟨_, (Prod.mk.inj hall).1⟩
  obtain ⟨rest, hrest⟩ := deltas_prefix hprefix (terminal_delta _)
  refine ⟨read, wholeText rest, hnonempty, hread, ?_⟩
  rw [← wholeText_append, hrest, wholeText_nonempty]

theorem errorBody_claims (error : LiveError) : ¬ClaimsDone (errorBody error) := by
  rintro ⟨entries, hentries, hdone⟩
  cases hentries
  simp [Json.written, List.lookup_cons] at hdone

theorem line_claims {position : Nat} {text : Option String} {summary : Option CompletionSummary} :
    ¬ClaimsDone (gateway.line position text false summary).toJson := by
  rintro ⟨entries, hentries, hdone⟩
  cases hentries
  rw [lookup_written (by simp)] at hdone
  simp [List.lookup_cons, OllamaGateway.line] at hdone

/-- Only a source that is done has a line that says so. -/
theorem ndjson_claims {position : Nat}
    (h : ∃ document ∈ gateway.ndjson position (deltas texts ++ [ending.item]), ClaimsDone document) :
    ending.Clean := by
  obtain ⟨document, hdocument, hclaims⟩ := h
  induction texts generalizing position with
  | nil =>
    cases ending with
    | done summary => trivial
    | failed error =>
      obtain rfl := List.mem_singleton.mp hdocument
      exact absurd hclaims (errorBody_claims error)
  | cons text texts ih =>
    rcases List.mem_cons.mp hdocument with rfl | hrest
    · exact absurd hclaims line_claims
    · exact ih hrest

theorem open_chunk {gateway : OpenAiGateway} {choice : ChunkChoice}
    (h : choice.finishReason = none) : ¬Stops (.chunk (gateway.chunk [choice] none)) := by
  rintro ⟨chunk, hchunk, found, hfound, hreason⟩
  cases hchunk
  obtain rfl := List.mem_singleton.mp hfound
  rw [h] at hreason
  cases hreason

theorem streamEvents_stops {gateway : OpenAiGateway} {data : SseData}
    (hdata : data ∈ gateway.streamEvents (deltas texts ++ [ending.item])) (h : Stops data) :
    ending.Clean := by
  induction texts with
  | nil =>
    cases ending with
    | done summary => trivial
    | failed error =>
      obtain ⟨chunk, rfl, -⟩ := h
      simp [Ending.item, OpenAiGateway.streamEvents] at hdata
  | cons text texts ih =>
    rcases List.mem_cons.mp hdata with rfl | hrest
    · exact absurd h (open_chunk rfl)
    · exact ih hrest

theorem chat_stops {gateway : OpenAiGateway}
    (h : ∃ data ∈ gateway.chat (deltas texts ++ [ending.item]), Stops data) : ending.Clean := by
  obtain ⟨data, hdata, hstops⟩ := h
  rcases List.mem_cons.mp hdata with rfl | hevents
  · exact absurd hstops (open_chunk rfl)
  · exact streamEvents_stops hevents hstops

/-- What the gateway writes the engine reads back, unless a chunk leaves more of a line than
the reader buffers; then it is told so. -/
theorem ndjson_round_trip (hshape : gateway.shape = .response)
    (hcontract : Contract stream texts ending)
    (hspells : ∀ document ∈ gateway.ndjson 0 stream, Spells codec document)
    (hchunks : chunks.flatten = gateway.ndjsonResponse codec stream) :
    (¬(readerOf codec refusal model elapsedMillis).Cut chunks →
      Delivered ((readerOf codec refusal model elapsedMillis).completeStream (chunks.map .ok))
        texts ending) ∧
    ((readerOf codec refusal model elapsedMillis).Cut chunks → ∃ read missing,
      Contract ((readerOf codec refusal model elapsedMillis).completeStream (chunks.map .ok))
        read (.failed exceeded) ∧ wholeText texts = wholeText read ++ missing) ∧
    (∀ other : OllamaGateway,
      (∃ document ∈ other.ndjson 0 stream, ClaimsDone document) → ending.Clean) ∧
    ∀ other : OpenAiGateway, (∃ data ∈ other.chat stream, Stops data) → ending.Clean := by
  have hcases := @readBody_cases (readerOf codec refusal model elapsedMillis) [] chunks (by simp)
  simp only [List.nil_append] at hcases
  refine ⟨?_, ?_, ?_, ?_⟩
  · intro hwhole
    obtain ⟨count, hcount, -⟩ | ⟨-, hbody⟩ := hcases
    · exact absurd ⟨count, hcount⟩ hwhole
    · rw [completeStream, hbody, hchunks]
      exact ndjson_delivered hshape hcontract hspells
  · intro hcut
    obtain ⟨count, hcount, hbody⟩ | ⟨hnone, -⟩ := hcases
    · obtain ⟨read, missing, -, hread, htext⟩ := ndjson_refused hshape hcontract hspells hchunks hcount
      refine ⟨read, missing, ?_, htext⟩
      rw [Contract, completeStream, hbody, hread]
      rfl
    · obtain ⟨count, hcount⟩ := hcut
      exact absurd hcount (hnone count)
  · intro other h
    rw [Contract] at hcontract
    rw [hcontract] at h
    exact ndjson_claims h
  · intro other h
    rw [Contract] at hcontract
    rw [hcontract] at h
    exact chat_stops h

end
def sampleGateway : OllamaGateway := ⟨"m", .response, fun _ => "t"⟩

def opening : Bytes :=
  Utf8.encode "\x7b\"model\":\"m\",\"created_at\":\"t\",\"response\":\""

def closing : Bytes := Utf8.encode "\",\"done\":false\x7d"

def doneText : Bytes := Utf8.encode
  "\x7b\"model\":\"m\",\"created_at\":\"t\",\"done\":true,\"done_reason\":\"stop\"\x7d"

def deltaDocument (text : String) : Json := (sampleGateway.line 0 (some text) false none).toJson

def doneDocument : Json := (sampleGateway.line 1 none true (some ⟨"m", none, 1⟩)).toJson

/-- The serializer as it writes and reads the lines of one gateway, for texts it need not
escape. -/
def sampleCodec : JsonCodec where
  toVec
    | .object entries =>
      match entries.lookup "response" with
      | some (.string text) => opening ++ Utf8.encode text ++ closing
      | _ => doneText
    | _ => []
  fromSlice bytes :=
    if opening.isPrefixOf bytes then
      match Utf8.decode ((bytes.drop opening.length).rdrop closing.length) with
      | some text => .ok (deltaDocument text)
      | none => .error "invalid unicode code point at line 1 column 45"
    else if bytes = doneText then .ok doneDocument
    else .error "expected value at line 1 column 1"

def sampleStream (text : String) : CompletionStream := bufferedStream ⟨text, "m", 1, none⟩

theorem toVec_delta (text : String) :
    sampleCodec.toVec (deltaDocument text) = opening ++ Utf8.encode text ++ closing := rfl

theorem toVec_done : sampleCodec.toVec doneDocument = doneText := rfl

theorem sample_keeps (text : String) : sampleCodec.Keeps (deltaDocument text) := by
  have hprefix : opening.isPrefixOf (opening ++ Utf8.encode text ++ closing) = true := by simp
  have hmiddle : ((opening ++ Utf8.encode text ++ closing).drop opening.length).rdrop
      closing.length = Utf8.encode text := by
    rw [List.append_assoc, List.drop_left, List.rdrop_append_length]
  rw [JsonCodec.Keeps, toVec_delta]
  simp only [sampleCodec, hprefix, hmiddle, Utf8.decode_encode, ↓reduceIte]

theorem sample_keeps_done : sampleCodec.Keeps doneDocument := by
  have hprefix : opening.isPrefixOf doneText = false := by decide
  rw [JsonCodec.Keeps, toVec_done]
  simp only [sampleCodec, hprefix, Bool.false_eq_true, ↓reduceIte]

theorem sample_ndjson (text : String) :
    sampleGateway.ndjson 0 (sampleStream text) = [deltaDocument text, doneDocument] := rfl

theorem sample_spells : ∀ document ∈ sampleGateway.ndjson 0 (sampleStream "hi"),
    Spells sampleCodec document := by
  rw [sample_ndjson, List.forall_mem_cons, List.forall_mem_singleton]
  constructor
  · refine ⟨sample_keeps "hi", by rw [toVec_delta]; decide,
      "\x7b\"model\":\"m\",\"created_at\":\"t\",\"response\":\"hi\",\"done\":false\x7d", ?_, ?_, ?_⟩
    · rw [toVec_delta]
      decide
    · decide
    · decide
  · refine ⟨sample_keeps_done, by rw [toVec_done]; decide,
      "\x7b\"model\":\"m\",\"created_at\":\"t\",\"done\":true,\"done_reason\":\"stop\"\x7d", ?_, ?_, ?_⟩
    · rfl
    · decide
    · decide

theorem ndjson_round_trip_sample :
    Delivered ((readerOf sampleCodec (fun _ => "") "m" 1).completeStream
        [.ok (sampleGateway.ndjsonResponse sampleCodec (sampleStream "hi"))]) ["hi"]
      (.done ⟨"m", none, 1⟩) := by
  have hround := @ndjson_round_trip sampleCodec (fun _ => "") "m" 1 sampleGateway
    (sampleStream "hi") ["hi"] (.done ⟨"m", none, 1⟩)
    [sampleGateway.ndjsonResponse sampleCodec (sampleStream "hi")] rfl rfl sample_spells (by simp)
  refine hround.1 ?_
  rintro ⟨count, -, ⟨chunk, hchunk, hopen⟩, -⟩
  obtain rfl := List.mem_singleton.mp (List.mem_of_getElem? hchunk)
  refine hopen ?_
  simp [OllamaGateway.ndjsonResponse, sample_ndjson]

/-- A buffered reply of 1 MiB. -/
def longText : String := String.ofList (List.replicate maxStreamLineBytes 'x')

/-- Its body, cut where the text ends. -/
def cutBody : List Bytes :=
  [opening ++ List.replicate maxStreamLineBytes 120,
    closing ++ [newline] ++ (doneText ++ [newline])]

theorem cutBody_flatten :
    cutBody.flatten = sampleGateway.ndjsonResponse sampleCodec (sampleStream longText) := by
  have htext : Utf8.encode longText = List.replicate maxStreamLineBytes 120 :=
    Utf8.encode_replicate (by decide) _
  rw [OllamaGateway.ndjsonResponse, sample_ndjson, List.map_cons, List.map_cons, toVec_delta,
    toVec_done, htext, cutBody]
  simp only [List.flatten_cons, List.flatten_nil, List.map_nil, List.append_nil, List.append_assoc]

theorem ndjson_cut :
    Contract (sampleStream longText) [longText] (.done ⟨"m", none, 1⟩) ∧
      cutBody.flatten = sampleGateway.ndjsonResponse sampleCodec (sampleStream longText) ∧
      (readerOf sampleCodec (fun _ => "") "m" 1).completeStream (cutBody.map .ok) =
        [.error exceeded] := by
  refine ⟨rfl, cutBody_flatten, ?_⟩
  have hopen : newline ∉ opening ++ List.replicate maxStreamLineBytes 120 := by
    intro hmem
    rcases List.mem_append.mp hmem with hmem | hmem
    · revert hmem
      decide
    · have := List.eq_of_mem_replicate hmem
      revert this
      decide
  have hlength : maxStreamLineBytes <
      (opening ++ List.replicate maxStreamLineBytes 120).length := by
    have hopening : 0 < opening.length := by decide
    rw [List.length_append, List.length_replicate]
    omega
  rw [completeStream, cutBody, List.map_cons, readBody, List.nil_append, if_pos ⟨hlength, hopen⟩]

end HologramLive.Gateway
