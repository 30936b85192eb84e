import HologramLive.Error
import HologramLive.Store

namespace HologramLive.Inference

/-- Token counts an engine measured. -/
structure TokenUsage where
  promptTokens : UInt64
  completionTokens : UInt64
  deriving DecidableEq

namespace TokenUsage

/-- Reports usage only when the engine measured both halves. -/
def fromCounts : Option UInt64 → Option UInt64 → Option TokenUsage
  | some promptTokens, some completionTokens => some { promptTokens, completionTokens }
  | _, _ => none

/-- The total saturates. -/
def total (usage : TokenUsage) : Nat :=
  min (usage.promptTokens.toNat + usage.completionTokens.toNat) (2 ^ 64 - 1)

end TokenUsage

/-- Terminal record of a streamed completion. -/
structure CompletionSummary where
  model : String
  usage : Option TokenUsage
  elapsedMillis : Nat
  deriving DecidableEq

inductive CompletionEvent where
  | delta (text : String)
  | done (summary : CompletionSummary)
  deriving DecidableEq

/-- The items of a stream, first to last. -/
abbrev CompletionStream := List (Except LiveError CompletionEvent)

structure Completion where
  text : String
  model : String
  elapsedMillis : Nat
  usage : Option TokenUsage

/-- The buffered default replays a completion as a single delta. -/
def bufferedStream (completion : Completion) : CompletionStream :=
  [.ok (.delta completion.text),
    .ok (.done ⟨completion.model, completion.usage, completion.elapsedMillis⟩)]

/-- How a stream ends: with its one `done`, or with an error and no `done`. -/
inductive Ending where
  | done (summary : CompletionSummary)
  | failed (error : LiveError)

namespace Ending

def item : Ending → Except LiveError CompletionEvent
  | .done summary => .ok (.done summary)
  | .failed error => .error error

/-- Whether it is the end of a complete answer. -/
def Clean : Ending → Prop
  | .done _ => True
  | .failed _ => False

def usage : Ending → Option TokenUsage
  | .done summary => summary.usage
  | .failed _ => none

end Ending

def deltas (texts : List String) : CompletionStream := texts.map fun text => .ok (.delta text)

/-- The text a stream's deltas come to. -/
def wholeText (texts : List String) : String := texts.foldr (· ++ ·) ""

/-- What every engine owes: deltas of any text, then the one ending. -/
def Contract (stream : CompletionStream) (texts : List String) (ending : Ending) : Prop :=
  stream = deltas texts ++ [ending.item]

section
variable {stream : CompletionStream} {texts : List String} {ending : Ending}

@[simp] theorem deltas_nil : deltas [] = [] := rfl

@[simp] theorem deltas_cons (text : String) (texts : List String) :
    deltas (text :: texts) = .ok (.delta text) :: deltas texts := rfl

@[simp] theorem deltas_append (first second : List String) :
    deltas (first ++ second) = deltas first ++ deltas second := List.map_append

theorem wholeText_append (first second : List String) :
    wholeText (first ++ second) = wholeText first ++ wholeText second := by
  induction first with
  | nil => simp [wholeText]
  | cons text first ih =>
    simp only [wholeText, List.cons_append, List.foldr_cons] at ih ⊢
    rw [ih, String.append_assoc]

/-- Deltas without text add nothing. -/
theorem wholeText_nonempty (texts : List String) :
    wholeText (texts.filter (· ≠ "")) = wholeText texts := by
  induction texts with
  | nil => rfl
  | cons text texts ih =>
    by_cases hempty : text = ""
    · simpa [wholeText, hempty] using ih
    · simpa [wholeText, hempty] using ih

theorem deltas_prefix {other : List String} {tail : CompletionStream}
    (h : deltas texts <+: deltas other ++ tail) (htail : ∀ text, .ok (.delta text) ∉ tail) :
    texts <+: other := by
  induction texts generalizing other with
  | nil => exact List.nil_prefix
  | cons text texts ih =>
    cases other with
    | nil =>
      obtain ⟨rest, hrest⟩ := h
      exact absurd (hrest ▸ List.mem_cons_self : .ok (.delta text) ∈ ([] ++ tail)) (htail text)
    | cons found other =>
      rw [deltas_cons, deltas_cons, List.cons_append, List.cons_prefix_cons] at h
      obtain ⟨hfirst, hrest⟩ := h
      obtain rfl : text = found := by simpa using hfirst
      exact List.cons_prefix_cons.mpr ⟨rfl, ih hrest⟩

theorem item_not_delta : ending.item ≠ .ok (.delta text) := by
  cases ending <;> simp [Ending.item]

theorem item_inj {other : Ending} (h : ending.item = other.item) : ending = other := by
  cases ending with
  | done summary =>
    cases other with
    | done summary' => simpa [Ending.item] using h
    | failed error => cases h
  | failed error =>
    cases other with
    | done summary => cases h
    | failed error' => simpa [Ending.item] using h

/-- A stream has its deltas and its ending in one way only. -/
theorem Contract.unique {texts' : List String} {ending' : Ending} (h : Contract stream texts ending)
    (h' : Contract stream texts' ending') : texts = texts' ∧ ending = ending' := by
  rw [Contract] at h
  subst h
  rw [Contract] at h'
  induction texts generalizing texts' with
  | nil =>
    cases texts' with
    | nil => exact ⟨rfl, item_inj (List.cons.inj h').1⟩
    | cons text' texts' => exact absurd (List.cons.inj h').1 item_not_delta
  | cons text texts ih =>
    cases texts' with
    | nil => exact absurd (List.cons.inj h').1.symm item_not_delta
    | cons text' texts' =>
      obtain ⟨hfirst, hrest⟩ := List.cons.inj h'
      obtain ⟨rfl, rfl⟩ := ih hrest
      simp only [Except.ok.injEq, CompletionEvent.delta.injEq] at hfirst
      exact ⟨by rw [hfirst], rfl⟩

theorem bufferedStream_contract (completion : Completion) :
    Contract (bufferedStream completion) [completion.text]
      (.done ⟨completion.model, completion.usage, completion.elapsedMillis⟩) := rfl

end

end HologramLive.Inference
