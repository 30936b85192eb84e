import HologramLive.Lib.Utf8
import HologramLive.Lifecycle.Running

namespace HologramLive.Lifecycle
open Lib

def viewIntentVersion : Nat := 1

def applicationInvokeIntent : String := "application.invoke"

def maxIntentPayloadBytes : Nat := 64 * 1024

def maxIntentOutputs : Nat := 16

def maxIntentOutputBytes : Nat := 1024 * 1024

/-- Texts the standard library words: a quoted string, and why bytes are no UTF-8. -/
structure StandardTexts where
  quoted : String → String
  utf8Error : Bytes → String

structure ViewAttachmentId where
  token : String
  applicationKappa : String
  layerPosition : Nat

structure ViewIntentRequest where
  version : Nat
  name : String
  payload : String

def ViewIntentRequest.validate (texts : StandardTexts) (request : ViewIntentRequest) :
    Except String Unit :=
  if request.version ≠ viewIntentVersion then
    .error <| s!"unsupported portable View intent version {request.version}; expected " ++
      s!"{viewIntentVersion}"
  else if request.name ≠ applicationInvokeIntent then
    .error <| s!"unsupported portable View intent {texts.quoted request.name}; expected " ++
      s!"{texts.quoted applicationInvokeIntent}"
  else if request.payload.utf8ByteSize > maxIntentPayloadBytes then
    .error <| s!"portable View intent payload is {request.payload.utf8ByteSize} bytes; maximum is " ++
      s!"{maxIntentPayloadBytes}"
  else .ok ()

structure ViewIntentResponse where
  version : Nat
  outputs : List String

def intentOutput (texts : StandardTexts) : Bytes × Nat → Except String String
  | (output, index) =>
    match Utf8.decode output with
    | some text => .ok text
    | none =>
      .error s!"portable View intent output {index} is not UTF-8: {texts.utf8Error output}"

/-- What a View is told of the invocation its intent led to. -/
def intentResponse (texts : StandardTexts) :
    Except LiveError LayerInvocation → Except String ViewIntentResponse
  | .error error => .error error.message
  | .ok outcome =>
    if outcome.outputs.length > maxIntentOutputs then
      .error <| s!"portable View intent returned {outcome.outputs.length} outputs; maximum is " ++
        s!"{maxIntentOutputs}"
    else do
      let outputs ← outcome.outputs.zipIdx.mapM (intentOutput texts)
      let outputBytes := (outcome.outputs.map List.length).sum
      if outputBytes > maxIntentOutputBytes then
        .error <| s!"portable View intent returned {outputBytes} bytes; maximum is " ++
          s!"{maxIntentOutputBytes}"
      else .ok { version := viewIntentVersion, outputs }

/-- Where one `handle` has got to, by the gate its broker shares. -/
inductive Intent where
  | arrived (gate : Nat) (id : ViewAttachmentId) (request : ViewIntentRequest)
  | waiting (gate : Nat) (primary : PreparedApplicationLayer) (request : ViewIntentRequest)
  | holding (gate : Nat) (primary : PreparedApplicationLayer) (request : ViewIntentRequest)
  | calling (gate : Nat) (primary : PreparedApplicationLayer) (inputs : List Bytes)
  | responded (response : Except String ViewIntentResponse)

namespace Intent

def holds : Intent → Nat → Bool
  | .holding held _ _, gate => gate = held
  | .calling held _ _, gate => gate = held
  | _, _ => false

/-- The checks an intent passes before it waits for its gate. -/
def entitle (texts : StandardTexts) (applicationKappa : String)
    (primary : Option PreparedApplicationLayer) (id : ViewAttachmentId)
    (request : ViewIntentRequest) : Except String PreparedApplicationLayer := do
  request.validate texts
  if id.applicationKappa ≠ applicationKappa then
    .error "portable View intent does not belong to this application"
  else
    match primary with
    | none => .error "portable View application primary is not ready"
    | some primary => .ok primary

/-- One step of an intent, told which gates are free and, by gate, the application
and the bound primary of its broker. -/
def step (texts : StandardTexts) (applicationKappa : Nat → String)
    (primary : Nat → Option PreparedApplicationLayer) (free : Nat → Bool) :
    Intent → Answer → Option Intent
  | .arrived gate id request, .silent =>
    match entitle texts (applicationKappa gate) (primary gate) id request with
    | .error error => some (.responded (.error error))
    | .ok primary => some (.waiting gate primary request)
  | .waiting gate primary request, .silent =>
    if free gate then some (.holding gate primary request) else none
  | .holding gate primary request, .silent =>
    some (.calling gate primary [Utf8.encode request.payload])
  | .calling _ _ _, .invoked result => some (.responded (intentResponse texts result))
  | _, _ => none

/-- The gate an intent past its checks uses, with the layer it is for. -/
def target : Intent → Option (Nat × PreparedApplicationLayer)
  | .waiting gate primary _ | .holding gate primary _ | .calling gate primary _ =>
    some (gate, primary)
  | _ => none

section Step
variable {texts : StandardTexts} {applicationKappa : Nat → String}
  {primary : Nat → Option PreparedApplicationLayer} {free : Nat → Bool} {intent intent' : Intent}

theorem entitle_ok {id : ViewAttachmentId} (h : entitle texts name bound id request = .ok layer) :
    bound = some layer := by
  obtain ⟨_, _, h⟩ := Result.bind_ok.mp h
  split at h
  · cases h
  split at h
  · cases h
  · cases h
    rfl

/-- The one gate an intent takes is the free one it waited for. -/
theorem step_gains (h : intent.step texts applicationKappa primary free answer = some intent')
    (hgate : intent'.holds gate = true) : intent.holds gate = true ∨
      free gate = true ∧ ∃ primary request, intent = .waiting gate primary request := by
  unfold step at h
  split at h
  case h_1 => split at h <;> cases h <;> simp [holds] at hgate
  case h_2 =>
    split at h
    · rename_i hfree
      cases h
      obtain rfl : gate = _ := by simpa [holds] using hgate
      exact .inr ⟨hfree, _, _, rfl⟩
    · cases h
  case h_3 =>
    cases h
    exact .inl hgate
  case h_4 =>
    cases h
    simp [holds] at hgate
  case h_5 => cases h

/-- An intent keeps the broker it was admitted to. -/
theorem step_target (h : intent.step texts applicationKappa primary free answer = some intent')
    (htarget : intent'.target = some (gate, layer)) :
    intent.target = some (gate, layer) ∨ primary gate = some layer := by
  unfold step at h
  split at h
  case h_1 =>
    split at h
    · cases h
      cases htarget
    · rename_i hentitled
      cases h
      cases htarget
      exact .inr (entitle_ok hentitled)
  case h_2 =>
    split at h
    · cases h
      exact .inl htarget
    · cases h
  case h_3 =>
    cases h
    exact .inl htarget
  case h_4 =>
    cases h
    cases htarget
  case h_5 => cases h

end Step

end Intent

end HologramLive.Lifecycle
