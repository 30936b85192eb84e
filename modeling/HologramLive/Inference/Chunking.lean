import HologramLive.Inference.Ollama
import Mathlib.Data.List.TakeWhile

namespace HologramLive.Inference
open Lib

def lines (bytes : Bytes) : List Bytes := (Lines.split newline bytes).1

/-- What follows the last newline. -/
def unfinished (bytes : Bytes) : Bytes := (Lines.split newline bytes).2

namespace OllamaReader

def Blank (line : Bytes) : Prop := Store.trim (Utf8.decodeLossy line) = ""

structure Parses (reader : OllamaReader) (line : Bytes) (parsed : OllamaStreamLine) : Prop where
  present : ¬Blank line
  parsed : reader.parse (Store.trim (Utf8.decodeLossy line)) = .ok parsed

/-- A line that has `done` comes before any line that does not parse. -/
def Finishes (reader : OllamaReader) (lines : List Bytes) : Prop :=
  ∃ before line after, lines = before ++ line :: after ∧
    (∃ parsed, reader.Parses line parsed ∧ parsed.done = true) ∧
    ∀ earlier ∈ before, Blank earlier ∨ ∃ parsed, reader.Parses earlier parsed

/-- The events of a body whose lines all fit. -/
def bodyEvents (reader : OllamaReader) (bytes : Bytes) : CompletionStream :=
  if (reader.readLines (lines bytes)).2 then (reader.readLines (lines bytes)).1
  else (reader.readLines (lines bytes)).1 ++ [Except.error ended]

/-- The reader gets to a chunk without a newline that leaves more of a line than it buffers. -/
structure CutAt (reader : OllamaReader) (buffered : Bytes) (chunks : List Bytes) (count : Nat) :
    Prop where
  going : (reader.readLines (lines (buffered ++ (chunks.take count).flatten))).2 = false
  open_chunk : ∃ chunk, chunks[count]? = some chunk ∧ newline ∉ chunk
  long : maxStreamLineBytes < (unfinished (buffered ++ (chunks.take (count + 1)).flatten)).length

section
variable {reader : OllamaReader} {line : Bytes} {buffered : Bytes} {chunks : List Bytes}

theorem unfinished_open (bytes : Bytes) : newline ∉ unfinished bytes := Lines.tail_not_mem

theorem lines_append (first second : Bytes) :
    lines (first ++ second) = lines first ++ lines (unfinished first ++ second) := by
  rw [lines, Lines.split_append]
  rfl

theorem unfinished_append (first second : Bytes) :
    unfinished (first ++ second) = unfinished (unfinished first ++ second) := by
  rw [unfinished, Lines.split_append]
  rfl

theorem lines_open (h : newline ∉ buffered) : lines buffered = [] ∧ unfinished buffered = buffered := by
  simp [lines, unfinished, Lines.split_of_not_mem h]

theorem readLine_blank (h : Blank line) : reader.readLine line = ([], false) := if_pos h

theorem readLine_cases (line : Bytes) :
    (Blank line ∧ reader.readLine line = ([], false)) ∨
      (∃ parsed, reader.Parses line parsed ∧
        reader.readLine line = (reader.lineEvents parsed, parsed.done)) ∨
      (¬Blank line ∧ (∀ parsed, ¬reader.Parses line parsed) ∧
        ∃ error, reader.readLine line = ([.error error], true)) := by
  unfold readLine
  by_cases hblank : Blank line
  · exact .inl ⟨hblank, readLine_blank hblank⟩
  · right
    have htext : Store.trim (Utf8.decodeLossy line) ≠ "" := hblank
    dsimp only
    rw [if_neg htext]
    cases hparse : reader.parse (Store.trim (Utf8.decodeLossy line)) with
    | error error =>
      refine .inr ⟨hblank, ?_, _, rfl⟩
      intro parsed hparsed
      have := hparsed.parsed
      simp [hparse] at this
    | ok parsed => exact .inl ⟨parsed, ⟨hblank, hparse⟩, rfl⟩

theorem readLines_append (first second : List Bytes) :
    reader.readLines (first ++ second) =
      if (reader.readLines first).2 then reader.readLines first
      else ((reader.readLines first).1 ++ (reader.readLines second).1,
        (reader.readLines second).2) := by
  induction first with
  | nil => simp [readLines]
  | cons line rest ih =>
    by_cases hline : (reader.readLine line).2 = true
    · simp [readLines, hline]
    · by_cases hrest : (reader.readLines rest).2 = true
      · simp [readLines, hline, ih, hrest]
      · simp [readLines, hline, ih, hrest]

theorem readLines_going (first second : List Bytes) :
    (reader.readLines (first ++ second)).2 = false ↔
      (reader.readLines first).2 = false ∧ (reader.readLines second).2 = false := by
  rw [readLines_append]
  split <;> simp [*]

theorem finishes_cons {rest : List Bytes} : reader.Finishes (line :: rest) ↔
    (∃ parsed, reader.Parses line parsed ∧ parsed.done = true) ∨
      (Blank line ∨ ∃ parsed, reader.Parses line parsed) ∧ reader.Finishes rest := by
  constructor
  · rintro ⟨before, last, after, hsplit, hdone, hbefore⟩
    cases before with
    | nil =>
      obtain ⟨rfl, rfl⟩ := List.cons.inj hsplit
      exact .inl hdone
    | cons first before =>
      obtain ⟨rfl, rfl⟩ := List.cons.inj hsplit
      obtain ⟨hfirst, hbefore⟩ := List.forall_mem_cons.mp hbefore
      exact .inr ⟨hfirst, before, last, after, rfl, hdone, hbefore⟩
  · intro h
    cases h with
    | inl hdone => exact ⟨[], line, rest, rfl, hdone, by simp⟩
    | inr hlater =>
      obtain ⟨hline, before, last, after, rfl, hdone, hbefore⟩ := hlater
      exact ⟨line :: before, last, after, rfl, hdone, List.forall_mem_cons.mpr ⟨hline, hbefore⟩⟩

theorem not_finishes_nil : ¬reader.Finishes [] := by
  rintro ⟨before, line, after, hsplit, -⟩
  cases before <;> cases hsplit

/-- What the lines of a body send: deltas, and an ending where the reader returns. -/
structure Sends (reader : OllamaReader) (lines : List Bytes) (texts : List String)
    (ending : Option Ending) : Prop where
  events : (reader.readLines lines).1 = deltas texts ++ (ending.map Ending.item).toList
  returned : (reader.readLines lines).2 = ending.isSome
  nonempty : ∀ text ∈ texts, text ≠ ""
  finishes : reader.Finishes lines ↔ ∃ summary, ending = some (.done summary)

def sentText (parsed : OllamaStreamLine) : List String :=
  if parsed.response = "" then [] else [parsed.response]

theorem sentText_nonempty {parsed : OllamaStreamLine} (h : text ∈ sentText parsed) : text ≠ "" := by
  unfold sentText at h
  split at h
  · cases h
  · obtain rfl := List.mem_singleton.mp h
    assumption

theorem lineEvents_eq (parsed : OllamaStreamLine) : reader.lineEvents parsed =
    deltas (sentText parsed) ++
      (if parsed.done then [Except.ok (CompletionEvent.done (reader.summary parsed))] else []) := by
  by_cases hempty : parsed.response = ""
  · simp [lineEvents, sentText, hempty]
  · simp [lineEvents, sentText, hempty]

theorem readLines_sends (reader : OllamaReader) (lines : List Bytes) :
    ∃ texts ending, reader.Sends lines texts ending := by
  induction lines with
  | nil => exact ⟨[], none, rfl, rfl, by simp, iff_of_false not_finishes_nil (by simp)⟩
  | cons line rest ih =>
    obtain ⟨texts, ending, hevents, hreturned, hnonempty, hfinishes⟩ := ih
    obtain ⟨hblank, hline⟩ | ⟨parsed, hparses, hline⟩ | ⟨hblank, hnone, error, hline⟩ :=
      @readLine_cases reader line
    · have hnot : ∀ parsed, ¬reader.Parses line parsed := fun _ h => h.present hblank
      refine ⟨texts, ending, ?_, ?_, hnonempty, ?_⟩
      · simp [readLines, hline, hevents]
      · simp [readLines, hline, hreturned]
      · rw [finishes_cons, ← hfinishes]
        simp [hnot, hblank]
    · have hsame : ∀ other, reader.Parses line other → other = parsed := fun other h =>
        Except.ok.inj (h.parsed.symm.trans hparses.parsed)
      by_cases hdone : parsed.done = true
      · refine ⟨sentText parsed, some (.done (reader.summary parsed)), ?_, ?_,
          fun _ => sentText_nonempty, ?_⟩
        · simp [readLines, hline, hdone, lineEvents_eq, Ending.item]
        · simp [readLines, hline, hdone]
        · rw [finishes_cons]
          exact iff_of_true (.inl ⟨parsed, hparses, hdone⟩) ⟨_, rfl⟩
      · refine ⟨sentText parsed ++ texts, ending, ?_, ?_, ?_, ?_⟩
        · simp [readLines, hline, hdone, lineEvents_eq, hevents]
        · simp [readLines, hline, hdone, hreturned]
        · intro text htext
          rcases List.mem_append.mp htext with htext | htext
          · exact sentText_nonempty htext
          · exact hnonempty text htext
        · rw [finishes_cons, ← hfinishes]
          constructor
          · rintro (⟨other, hother, hdone'⟩ | ⟨-, hrest⟩)
            · exact absurd (hsame other hother ▸ hdone') hdone
            · exact hrest
          · exact fun hrest => .inr ⟨.inr ⟨parsed, hparses⟩, hrest⟩
    · refine ⟨[], some (.failed error), ?_, ?_, by simp, ?_⟩
      · simp [readLines, hline, Ending.item]
      · simp [readLines, hline]
      · rw [finishes_cons]
        refine iff_of_false ?_ (by simp)
        rintro (⟨parsed, hparses, -⟩ | ⟨hline, -⟩)
        · exact hnone parsed hparses
        · cases hline with
          | inl hblank' => exact hblank hblank'
          | inr hparses =>
            obtain ⟨parsed, hparses⟩ := hparses
            exact hnone parsed hparses

theorem cutAt_zero {chunk : Bytes} (hbuffered : newline ∉ buffered) :
    reader.CutAt buffered (chunk :: chunks) 0 ↔
      newline ∉ chunk ∧ maxStreamLineBytes < (buffered ++ chunk).length := by
  have hgoing : (reader.readLines (lines (buffered ++ ([] : Bytes)))).2 = false := by
    rw [List.append_nil, (lines_open hbuffered).1]
    rfl
  have hlong (hchunk : newline ∉ chunk) :
      unfinished (buffered ++ ((chunk :: chunks).take (0 + 1)).flatten) = buffered ++ chunk := by
    rw [zero_add, List.take_one, List.head?_cons, Option.toList_some, List.flatten_cons,
      List.flatten_nil, List.append_nil]
    exact (lines_open (by simp [hbuffered, hchunk])).2
  constructor
  · rintro ⟨-, ⟨found, hfound, hchunk⟩, hlength⟩
    obtain rfl := Option.some.inj hfound
    rw [hlong hchunk] at hlength
    exact ⟨hchunk, hlength⟩
  · rintro ⟨hchunk, hlength⟩
    refine ⟨hgoing, ⟨chunk, rfl, hchunk⟩, ?_⟩
    rw [hlong hchunk]
    exact hlength

theorem cutAt_succ {chunk : Bytes} {count : Nat} :
    reader.CutAt buffered (chunk :: chunks) (count + 1) ↔
      (reader.readLines (lines (buffered ++ chunk))).2 = false ∧
        reader.CutAt (unfinished (buffered ++ chunk)) chunks count := by
  have hgoing : (reader.readLines
        (lines (buffered ++ ((chunk :: chunks).take (count + 1)).flatten))).2 = false ↔
      (reader.readLines (lines (buffered ++ chunk))).2 = false ∧
        (reader.readLines (lines (unfinished (buffered ++ chunk) ++
          (chunks.take count).flatten))).2 = false := by
    rw [List.take_succ_cons, List.flatten_cons, ← List.append_assoc, lines_append, readLines_going]
  have hlong : unfinished (buffered ++ ((chunk :: chunks).take (count + 1 + 1)).flatten) =
      unfinished (unfinished (buffered ++ chunk) ++ (chunks.take (count + 1)).flatten) := by
    rw [List.take_succ_cons, List.flatten_cons, ← List.append_assoc, unfinished_append]
  constructor
  · rintro ⟨hgo, hopen, hlength⟩
    obtain ⟨hfirst, hrest⟩ := hgoing.mp hgo
    rw [hlong] at hlength
    exact ⟨hfirst, hrest, hopen, hlength⟩
  · rintro ⟨hfirst, hrest, hopen, hlength⟩
    refine ⟨hgoing.mpr ⟨hfirst, hrest⟩, hopen, ?_⟩
    rw [hlong]
    exact hlength

theorem readBody_fits {chunk : Bytes} {more : List (Except String Bytes)}
    (h : ¬(maxStreamLineBytes < (buffered ++ chunk).length ∧ newline ∉ buffered ++ chunk)) :
    reader.readBody buffered (.ok chunk :: more) =
      if (reader.readLines (lines (buffered ++ chunk))).2 then
        (reader.readLines (lines (buffered ++ chunk))).1
      else (reader.readLines (lines (buffered ++ chunk))).1 ++
        reader.readBody (unfinished (buffered ++ chunk)) more := by
  rw [readBody, if_neg h]
  rfl

/-- A body's events, where the reader is cut off and where it is not. -/
theorem readBody_cases (hbuffered : newline ∉ buffered) :
    (∃ count, reader.CutAt buffered chunks count ∧
      reader.readBody buffered (chunks.map .ok) =
        (reader.readLines (lines (buffered ++ (chunks.take count).flatten))).1 ++
          [Except.error exceeded]) ∨
    ((∀ count, ¬reader.CutAt buffered chunks count) ∧
      reader.readBody buffered (chunks.map .ok) =
        reader.bodyEvents (buffered ++ chunks.flatten)) := by
  induction chunks generalizing buffered with
  | nil =>
    right
    refine ⟨?_, ?_⟩
    · rintro count ⟨-, ⟨chunk, hchunk, -⟩, -⟩
      simp at hchunk
    · simp [readBody, bodyEvents, (lines_open hbuffered).1, readLines]
  | cons chunk rest ih =>
    have hguard : (maxStreamLineBytes < (buffered ++ chunk).length ∧ newline ∉ buffered ++ chunk) ↔
        reader.CutAt buffered (chunk :: rest) 0 := by
      rw [cutAt_zero hbuffered, List.mem_append, not_or]
      tauto
    by_cases hcut : reader.CutAt buffered (chunk :: rest) 0
    · refine .inl ⟨0, hcut, ?_⟩
      rw [List.map_cons, readBody, if_pos (hguard.mpr hcut)]
      simp [(lines_open hbuffered).1, readLines]
    · have hstep := @readBody_fits reader buffered chunk (rest.map .ok)
        fun h => hcut (hguard.mp h)
      have hlines (more : Bytes) : reader.readLines (lines (buffered ++ (chunk ++ more))) =
          if (reader.readLines (lines (buffered ++ chunk))).2 then
            reader.readLines (lines (buffered ++ chunk))
          else ((reader.readLines (lines (buffered ++ chunk))).1 ++
              (reader.readLines (lines (unfinished (buffered ++ chunk) ++ more))).1,
            (reader.readLines (lines (unfinished (buffered ++ chunk) ++ more))).2) := by
        rw [← List.append_assoc, lines_append, readLines_append]
      by_cases hreturned : (reader.readLines (lines (buffered ++ chunk))).2 = true
      · right
        refine ⟨?_, ?_⟩
        · intro count hcount
          cases count with
          | zero => exact hcut hcount
          | succ count =>
            have hgoing := (cutAt_succ.mp hcount).1
            rw [hreturned] at hgoing
            cases hgoing
        · rw [List.map_cons, hstep, bodyEvents, List.flatten_cons, hlines, if_pos hreturned,
            if_pos hreturned, if_pos hreturned]
      · obtain ⟨count, hcount, hbody⟩ | ⟨hnone, hbody⟩ :=
          ih (unfinished_open (buffered ++ chunk))
        · refine .inl ⟨count + 1, cutAt_succ.mpr ⟨by simpa using hreturned, hcount⟩, ?_⟩
          rw [List.map_cons, hstep, if_neg hreturned, hbody, List.take_succ_cons, List.flatten_cons, hlines,
            if_neg hreturned, List.append_assoc]
        · right
          refine ⟨?_, ?_⟩
          · intro count hcount
            cases count with
            | zero => exact hcut hcount
            | succ count => exact hnone count (cutAt_succ.mp hcount).2
          · rw [List.map_cons, hstep, if_neg hreturned, hbody, bodyEvents, bodyEvents, List.flatten_cons, hlines,
              if_neg hreturned]
            dsimp only
            split <;> simp

/-- The reader gets to a line it does not go on buffering. -/
def Cut (reader : OllamaReader) (chunks : List Bytes) : Prop :=
  ∃ count, reader.CutAt [] chunks count

/-- The lines complete when the reader is cut off end nothing. -/
theorem CutAt.ending (h : reader.CutAt [] chunks count) :
    ∃ texts, (∀ text ∈ texts, text ≠ "") ∧
      (reader.readLines (lines (chunks.take count).flatten)).1 = deltas texts := by
  obtain ⟨texts, ending, hsends⟩ := reader.readLines_sends (lines (chunks.take count).flatten)
  have hgoing := h.going
  rw [List.nil_append, hsends.returned] at hgoing
  cases ending with
  | none => exact ⟨texts, hsends.nonempty, by simpa using hsends.events⟩
  | some ending => cases hgoing

theorem bodyEvents_contract (reader : OllamaReader) (bytes : Bytes) :
    ∃ texts ending, Contract (reader.bodyEvents bytes) texts ending ∧
      (∀ text ∈ texts, text ≠ "") ∧ (ending.Clean ↔ reader.Finishes (lines bytes)) := by
  obtain ⟨texts, ending, hsends⟩ := reader.readLines_sends (lines bytes)
  cases ending with
  | none =>
    refine ⟨texts, .failed ended, ?_, hsends.nonempty, ?_⟩
    · simp [Contract, bodyEvents, hsends.returned, hsends.events, Ending.item]
    · rw [hsends.finishes]
      simp [Ending.Clean]
  | some ending =>
    refine ⟨texts, ending, ?_, hsends.nonempty, ?_⟩
    · simp [Contract, bodyEvents, hsends.returned, hsends.events]
    · rw [hsends.finishes]
      cases ending with
      | done summary => simp [Ending.Clean]
      | failed error => simp [Ending.Clean]

/-- Every body is read as deltas and one ending. What it is cut into shows only where the
reader is cut off, and then as a refusal after the lines that were complete. -/
theorem completeStream_chunks (reader : OllamaReader) :
    (∀ chunks : List Bytes, ∃ texts ending,
      Contract (reader.completeStream (chunks.map .ok)) texts ending ∧
      (∀ text ∈ texts, text ≠ "") ∧
      (ending.Clean ↔ ¬reader.Cut chunks ∧ reader.Finishes (lines chunks.flatten))) ∧
    (∀ first second : List Bytes, first.flatten = second.flatten →
      ¬reader.Cut first → ¬reader.Cut second →
      reader.completeStream (first.map .ok) = reader.completeStream (second.map .ok)) ∧
    ∀ chunks : List Bytes, reader.Cut chunks → ∃ count, reader.CutAt [] chunks count ∧
      reader.completeStream (chunks.map .ok) =
        (reader.readLines (lines (chunks.take count).flatten)).1 ++ [Except.error exceeded] := by
  have hwhole (chunks : List Bytes) (huncut : ¬reader.Cut chunks) :
      reader.completeStream (chunks.map .ok) = reader.bodyEvents chunks.flatten := by
    obtain ⟨count, hcut, -⟩ | ⟨-, hbody⟩ := @readBody_cases reader [] chunks (by simp)
    · exact absurd ⟨count, hcut⟩ huncut
    · simpa [completeStream] using hbody
  have hcutoff (chunks : List Bytes) (hcut : reader.Cut chunks) :
      ∃ count, reader.CutAt [] chunks count ∧ reader.completeStream (chunks.map .ok) =
        (reader.readLines (lines (chunks.take count).flatten)).1 ++ [Except.error exceeded] := by
    obtain ⟨count, hcount, hbody⟩ | ⟨hnone, -⟩ := @readBody_cases reader [] chunks (by simp)
    · exact ⟨count, hcount, by simpa [completeStream] using hbody⟩
    · obtain ⟨count, hcount⟩ := hcut
      exact absurd hcount (hnone count)
  refine ⟨?_, ?_, hcutoff⟩
  · intro chunks
    by_cases hcut : reader.Cut chunks
    · obtain ⟨count, hcount, hevents⟩ := hcutoff chunks hcut
      obtain ⟨texts, hnonempty, htexts⟩ := hcount.ending
      refine ⟨texts, .failed exceeded, ?_, hnonempty, ?_⟩
      · rw [Contract, hevents, htexts]
        rfl
      · exact iff_of_false (fun hclean => hclean) fun h => h.1 hcut
    · obtain ⟨texts, ending, hcontract, hnonempty, hclean⟩ :=
        reader.bodyEvents_contract chunks.flatten
      rw [← hwhole chunks hcut] at hcontract
      refine ⟨texts, ending, hcontract, hnonempty, ?_⟩
      rw [hclean]
      exact (and_iff_right hcut).symm
  · intro first second hsame hfirst hsecond
    rw [hwhole first hfirst, hwhole second hsecond, hsame]

end

/-- A blank line that comes with its newline adds nothing, whatever its length. -/
theorem completeStream_blank (reader : OllamaReader) {line rest : Bytes} {events : CompletionStream}
    (hopen : newline ∉ line) (hblank : Blank (line ++ [newline]))
    (hrest : reader.readLines (lines rest) = (events, true)) :
    reader.completeStream [.ok (line ++ newline :: rest)] = events := by
  have hlines : reader.readLines (lines (line ++ newline :: rest)) = (events, true) := by
    rw [lines, Lines.split_terminated hopen, readLines, readLine_blank hblank]
    simpa [lines] using hrest
  have hfits : ¬(maxStreamLineBytes < ([] ++ (line ++ newline :: rest)).length ∧
      newline ∉ [] ++ (line ++ newline :: rest)) := by simp
  rw [completeStream, readBody_fits hfits, List.nil_append, hlines, if_pos rfl]

/-- A reader that knows one line. -/
def sampleReader : OllamaReader where
  parse text :=
    if text = "\x7b\"done\":true\x7d" then .ok { done := true }
    else .error "expected value at line 1 column 1"
  model := "llama"
  elapsedMillis := 7

def spaces : Bytes := List.replicate (maxStreamLineBytes + 1) 32

def doneLine : Bytes := Utf8.encode "\x7b\"done\":true\x7d\n"

theorem spaces_blank : Blank (spaces ++ [newline]) := by
  have hspaces : spaces =
      Utf8.encode (String.ofList (List.replicate (maxStreamLineBytes + 1) ' ')) :=
    (Utf8.encode_replicate (by decide) _).symm
  have hnewline : [newline] = Utf8.encode "\n" := by decide
  rw [Blank, hspaces, hnewline, ← Utf8.encode_append, Utf8.decodeLossy_encode]
  have hall : ∀ c ∈ List.replicate (maxStreamLineBytes + 1) ' ' ++ ['\n'],
      Store.isWhitespace c = true := by
    intro c hc
    rcases List.mem_append.mp hc with hc | hc
    · obtain rfl := List.eq_of_mem_replicate hc
      decide
    · obtain rfl := List.mem_singleton.mp hc
      decide
  have htext : (String.ofList (List.replicate (maxStreamLineBytes + 1) ' ') ++ "\n").toList =
      List.replicate (maxStreamLineBytes + 1) ' ' ++ ['\n'] := by simp
  rw [Store.trim, htext, List.dropWhile_eq_nil_iff.mpr hall]
  rfl

theorem flatten_pair (first second : Bytes) : [first ++ second].flatten = [first, second].flatten := by
  simp

/-- A blank line of more than the limit is skipped when it comes with its newline and refused
when it comes ahead of it. -/
theorem completeStream_split :
    [spaces ++ newline :: doneLine].flatten = [spaces, newline :: doneLine].flatten ∧
    sampleReader.completeStream [.ok (spaces ++ newline :: doneLine)] =
        [.ok (.done ⟨"llama", none, 7⟩)] ∧
      sampleReader.completeStream [.ok spaces, .ok (newline :: doneLine)] = [Except.error exceeded] := by
  have hopen : newline ∉ spaces := by
    intro hmem
    have := List.eq_of_mem_replicate hmem
    revert this
    decide
  have hlength : maxStreamLineBytes < spaces.length := by
    rw [spaces, List.length_replicate]
    exact Nat.lt_succ_self _
  refine ⟨flatten_pair _ _, ?_, ?_⟩
  · have hrest : sampleReader.readLines (lines doneLine) =
        ([.ok (.done ⟨"llama", none, 7⟩)], true) := by decide
    exact sampleReader.completeStream_blank hopen spaces_blank hrest
  · rw [completeStream, readBody, List.nil_append, if_pos ⟨hlength, hopen⟩]

end OllamaReader
end HologramLive.Inference
