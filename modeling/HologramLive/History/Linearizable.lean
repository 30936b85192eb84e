import HologramLive.History.Conversations
import HologramLive.Store.Integrity

/-! The history service's calls side by side, and what they come to one after another. -/

namespace HologramLive.History
open Lib Lib.Atomic Lib.Files Lib.Interleaving Lib.Lookup Lib.Result Store
open Store.DiskStore (codes spell spell_codes)

namespace HistoryService
variable {history : HistoryService}
  {hcodec : ∀ conversation, history.fromSlice (history.toVecPretty conversation) = .ok conversation}
  {pid : Nat} {point : FileSystem × Conversations} {method : Method} {id : String}

section Runs

theorem read_ok (hcodec : ∀ conversation,
      history.fromSlice (history.toVecPretty conversation) = .ok conversation)
    (conversation : Conversation) :
    (history.fromSlice (history.toVecPretty conversation)).mapError LiveError.protocol =
      .ok conversation := by
  rw [hcodec]
  rfl

theorem pathFor_ok {digest : String} (h : digestOf id = .ok digest) :
    history.pathFor id = .ok ((history.ledger hcodec).path digest) := by
  rw [pathFor, h]
  rfl

theorem persist_eq {digest : String} {conversation : Conversation}
    (hnamed : conversation.id = "blake3:" ++ digest) (hvalid : ValidDigest digest) :
    history.persist pid conversation =
      atomicWrite pid ((history.ledger hcodec).path digest)
        ((history.ledger hcodec).toVecPretty conversation) := by
  rw [persist, @pathFor_ok history hcodec _ _ (digestOf_ok.mpr ⟨hnamed, hvalid⟩)]
  rfl

/-- A method that fails under the lock leaves everything as it is. -/
theorem runs_error {error : LiveError} (hkept : (history.ledger hcodec).Kept none point.1 point.2)
    (hallows : ∀ known, history.allows pid method known (.error error) known) :
    (history.service hcodec pid).Runs method false (.fail error) point :=
  Service.runs_fail fun later hlater =>
    ⟨hallows later.2, Service.rest_spared ⟨hkept, trivial⟩ hlater⟩

/-- A call that changes one conversation, once its arguments are checked. -/
theorem runs_rewrite {edit : Edit}
    (hrole : history.role pid method = roleOf id fun digest => .writer digest Option.isNone)
    (happly : ∀ names known,
      history.apply pid names known method = rewritten known (.ok ()) id edit)
    (hallows : ∀ known answer after,
      history.apply pid [] known method = (answer, after) → history.allows pid method known answer after)
    (hkept : (history.ledger hcodec).Kept none point.1 point.2) :
    (history.service hcodec pid).Runs method false
      (history.rewrite pid id edit >>= fun conversation => .done (.conversation conversation))
      point := by
  have hended : ∀ known answer after, rewritten known (.ok ()) id edit = (answer, after) →
      history.allows pid method known answer after :=
    fun known answer after h => hallows known answer after ((happly [] known).trans h)
  unfold rewrite get
  cases hid : digestOf id with
  | error error =>
    rw [pathFor, hid]
    refine runs_error hkept fun known => hended _ _ _ ?_
    simp [rewritten, Conversations.rewrite, hid, settled]
  | ok digest =>
    rw [@pathFor_ok history hcodec _ _ hid]
    have hwriter : (history.service hcodec pid).role method = .writer digest Option.isNone := by
      rw [show (history.service hcodec pid).role method = history.role pid method from rfl, hrole,
        roleOf, hid]
    have hvalid := (digestOf_ok.mp hid).2
    simp only [Program.ofExcept, Program.done_bind, Program.bind_assoc, attempt_bind,
      Program.call_bind, Program.pure_eq]
    have hnothing : (history.ledger hcodec).apart point.1 () := trivial
    refine Service.runs_read hwriter hvalid hkept rfl hnothing ?_
      fun existing later hquits hheld => ?_
    · intro known names _ hnone
      have habsent : known.find digest = none := Option.isNone_iff_eq_none.mp hnone
      have hrewritten : rewritten known (.ok ()) id edit =
          (.error (.notFound s!"conversation {id} not found"), known) := by
        simp [rewritten, Conversations.rewrite, Conversations.get, hid, habsent, settled]
      refine ⟨rfl, _, (happly names known).trans hrewritten, hended _ _ _ hrewritten, ?_⟩
      rw [show (history.ledger hcodec).find known digest = none from habsent]
      rfl
    · obtain ⟨conversation, rfl⟩ := Option.isSome_iff_exists.mp (by simpa using hquits)
      have hfound : later.2.find digest = some conversation := hheld.found
      have hnamed := Conversations.named_of_find hfound
      have hedited : (edit.apply conversation).id = "blake3:" ++ digest :=
        (edit.apply_id conversation).trans hnamed
      simp only [Ledger.reading, onReply_ok, Program.done_bind]
      rw [show (history.ledger hcodec).toVecPretty conversation = history.toVecPretty conversation
        from rfl, read_ok hcodec]
      simp only [Program.done_bind]
      rw [@persist_eq history hcodec _ _ _ hedited hvalid]
      refine Service.runs_replace (by rw [hwriter]; rfl) hvalid (.inl ?_) ?_ hheld
      · rw [Service.counts, hwriter]
        rfl
      · intro known names _ hfind _
        have hfind : known.find digest = some conversation := hfind
        have hrewritten : rewritten known (.ok ()) id edit =
            (.ok (.conversation (edit.apply conversation)),
              known.put digest (edit.apply conversation)) := by
          simp [rewritten, Conversations.rewrite, Conversations.get, hid, hfind, settled]
        refine ⟨_, (happly names known).trans hrewritten, hended _ _ _ hrewritten, ?_, rfl⟩
        exact Conversations.put_records hedited

/-- A conversation is created where there is none of its id. -/
theorem runs_create (now : Nat) (title : String) (htitle : checkTitle (trim title) = .ok ())
    (hkept : (history.ledger hcodec).Kept none point.1 point.2) :
    (history.service hcodec pid).Runs (.create now title) false
      (history.persist pid (history.created pid now (trim title)) >>= fun _ =>
        .done (.conversation (history.created pid now (trim title)))) point := by
  generalize hconversation : history.created pid now (trim title) = conversation
  generalize hdigest : hexDigest history.blake3 (nonce pid now (trim title)) = digest
  have hvalid : ValidDigest digest := hdigest ▸ hexDigest_valid _ _
  have hnamed : conversation.id = "blake3:" ++ digest := by
    rw [← hconversation, ← hdigest]
    rfl
  have hrole : (history.service hcodec pid).role (.create now title) = .creator digest := by
    rw [← hdigest]
    rfl
  have happly : ∀ names known, history.apply pid names known (.create now title) =
      (.ok (.conversation conversation), known.put digest conversation) := by
    intro names known
    rw [← hconversation, ← hdigest]
    simp only [apply, htitle, ok_bind, settled]
  rw [@persist_eq history hcodec _ _ _ hnamed hvalid]
  refine Service.runs_permitted fun later hlater hallowed => ?_
  obtain ⟨_, hpermits⟩ := hallowed
  rw [hrole] at hpermits
  have hheld : Service.Held (history.ledger hcodec) () () digest none none later :=
    ⟨hlater.kept none nofun hkept, rfl, trivial, hpermits.1⟩
  refine Service.runs_replace (by rw [hrole]; rfl) hvalid (.inr rfl) ?_ hheld
  intro known names _ hfind _
  have habsent : known.find (hexDigest history.blake3 (nonce pid now (trim title))) = none :=
    hdigest.symm ▸ hfind
  exact ⟨_, happly names known, ⟨happly [] known, fun _ => habsent⟩,
    Conversations.put_records hnamed, rfl⟩

theorem checked_ok {checked : Except LiveError Unit} (h : checked.toOption.isSome = true) :
    checked = .ok () := by
  obtain ⟨⟨⟩, hchecked⟩ := Option.isSome_iff_exists.mp h
  exact toOption_eq_some.mp hchecked

/-- A call that changes one conversation: its arguments are checked, then the lock is taken. -/
theorem locked_rewrite {checked : Except LiveError Unit} {edit : Edit}
    {program : DirProgram LiveError Answer} (hlocks : checked.toOption.isSome = true)
    (hbody : ((Program.ofExcept checked >>= fun _ => history.rewrite pid id edit) >>=
      fun conversation => .done (.conversation conversation) : FileProgram LiveError Answer).translate
        .left = program)
    (hrole : history.role pid method = roleOf id fun digest => .writer digest Option.isNone)
    (happly : ∀ names known, history.apply pid names known method = rewritten known checked id edit)
    (hallows : ∀ known answer after,
      history.apply pid [] known method = (answer, after) → history.allows pid method known answer after)
    (hkept : (history.ledger hcodec).Kept none point.1 point.2) :
    Locked (history.service hcodec pid).object (history.service hcodec pid).discipline method false
      program point := by
  obtain rfl := checked_ok hlocks
  rw [← hbody]
  exact (runs_rewrite hrole happly hallows hkept).locked

theorem locked {program : DirProgram LiveError Answer} (hbody : history.body pid method = program)
    (hlocks : history.locks method = true)
    (hkept : (history.ledger hcodec).Kept none point.1 point.2) :
    Locked (history.service hcodec pid).object (history.service hcodec pid).discipline method false
      program point := by
  cases method with
  | create now title =>
    have htitle := checked_ok hlocks
    simp only [body, create, htitle, Program.ofExcept, Program.done_bind, Program.bind_assoc,
      Program.pure_eq] at hbody
    rw [← hbody]
    exact (runs_create now title htitle hkept).locked
  | append now id role content =>
    simp only [body, append, Program.pure_eq] at hbody
    exact locked_rewrite hlocks hbody rfl (fun _ _ => rfl) (fun _ _ _ h => h) hkept
  | appendExchange userNow now id userContent assistantContent =>
    simp only [body, appendExchange, Program.pure_eq] at hbody
    exact locked_rewrite hlocks hbody rfl (fun _ _ => rfl) (fun _ _ _ h => h) hkept
  | setArchived id archived =>
    exact @locked_rewrite history hcodec pid point _ id (.ok ()) (.archive archived) program rfl hbody
      rfl (fun _ _ => rfl) (fun _ _ _ h => h) hkept
  | delete id => cases hlocks
  | get id => cases hlocks
  | list includeArchived => cases hlocks

/-- A call that fails before it looks at anything. -/
theorem free_error {error : LiveError} {program : DirProgram LiveError Answer}
    (hbody : .fail error = program)
    (hallows : ∀ known, history.allows pid method known (.error error) known) :
    Free (history.service hcodec pid).object (history.service hcodec pid).discipline method
      program := by
  rw [← hbody]
  exact hallows

/-- A call whose arguments are refused. -/
theorem free_unchecked {checked : Except LiveError Unit} {rest : FileProgram LiveError Conversation}
    {program : DirProgram LiveError Answer} (hlocks : checked.toOption.isSome = false)
    (hbody : ((Program.ofExcept checked >>= fun _ => rest) >>=
      fun conversation => .done (.conversation conversation) : FileProgram LiveError Answer).translate
        .left = program)
    (hallows : ∀ known error, checked = .error error →
      history.allows pid method known (.error error) known) :
    Free (history.service hcodec pid).object (history.service hcodec pid).discipline method
      program := by
  cases checked with
  | ok value => cases hlocks
  | error error => exact free_error hbody fun known => hallows known error rfl

theorem free_delete {program : DirProgram LiveError Answer}
    (hbody : history.body pid (.delete id) = program) :
    Free (history.service hcodec pid).object (history.service hcodec pid).discipline (.delete id)
      program := by
  cases hid : digestOf id with
  | error error =>
    simp only [body, delete, pathFor, hid] at hbody
    refine free_error hbody fun known => ?_
    simp only [allows, apply, hid]
    rfl
  | ok digest =>
    have hrole : (history.service hcodec pid).role (.delete id) = .remover digest := by
      simp only [service, role, roleOf, hid]
    have hdeletes : history.body pid (.delete id) =
        (pathExists ((history.ledger hcodec).path digest) >>= fun there =>
          (if there then attempt (.removeFile ((history.ledger hcodec).path digest))
              (ioError ((history.ledger hcodec).path digest).display) else pure ()) >>= fun _ =>
            .done Answer.deleted).translate .left := by
      simp only [body, delete, @pathFor_ok history hcodec _ _ hid, Program.ofExcept,
        Program.done_bind, Program.bind_assoc]
      rfl
    rw [← hbody, hdeletes]
    refine Service.free_remove hrole (digestOf_ok.mp hid).2 fun known names => ?_
    have happly : ∀ names, history.apply pid names known (.delete id) =
        (.ok .deleted, (history.ledger hcodec).drop known digest) := by
      intro names
      simp only [apply, hid, ok_bind]
      rfl
    exact ⟨happly names, happly []⟩

theorem free_get {program : DirProgram LiveError Answer}
    (hbody : history.body pid (.get id) = program) :
    Free (history.service hcodec pid).object (history.service hcodec pid).discipline (.get id)
      program := by
  cases hid : digestOf id with
  | error error =>
    simp only [body, get, pathFor, hid] at hbody
    refine free_error hbody fun known => ?_
    simp only [allows, apply, Conversations.get, hid]
    rfl
  | ok digest =>
    have hrole : (history.service hcodec pid).role (.get id) = .reader digest := by
      simp only [service, role, roleOf, hid]
    have hreads : history.body pid (.get id) =
        (Program.call (.read ((history.ledger hcodec).path digest)) fun reply =>
          onReply (fun error => if error.notFound then .notFound s!"conversation {id} not found"
              else ioError ((history.ledger hcodec).path digest).display error) reply >>=
            fun bytes => .ofExcept ((history.fromSlice bytes).mapError .protocol) >>=
              fun conversation => .done (Answer.conversation conversation)).translate .left := by
      simp only [body, get, @pathFor_ok history hcodec _ _ hid, Program.ofExcept,
        Program.done_bind, attempt_bind, Program.call_bind, Program.bind_assoc]
      rfl
    rw [← hbody, hreads]
    refine Service.free_read hrole (digestOf_ok.mp hid).2 fun known names => ⟨_, rfl, rfl, ?_⟩
    rw [show (history.ledger hcodec).find known digest = known.find digest from rfl]
    cases hfind : known.find digest with
    | none =>
      have hget : known.get id = .error (.notFound s!"conversation {id} not found") := by
        simp only [Conversations.get, hid, ok_bind, hfind]
      rw [hget]
      rfl
    | some conversation =>
      have hget : known.get id = .ok conversation := by
        simp only [Conversations.get, hid, ok_bind, hfind]
      rw [hget]
      simp only [Ledger.reading, onReply_ok, Program.done_bind]
      rw [show (history.ledger hcodec).toVecPretty conversation = history.toVecPretty conversation
        from rfl, read_ok hcodec]
      rfl

theorem free_list {includeArchived : Bool} {program : DirProgram LiveError Answer}
    (hbody : history.body pid (.list includeArchived) = program) :
    Free (history.service hcodec pid).object (history.service hcodec pid).discipline
      (.list includeArchived) program := by
  have hlists : history.body pid (.list includeArchived) =
      .call (.right (.readDir (history.ledger hcodec).directory)) fun reply =>
        .ofExcept (reply.mapError (ioError ("/".intercalate history.root))) >>=
          fun entries => readRecords (history.ledger hcodec).directory
              (history.ledger hcodec).fromSlice (wanted includeArchived) entries >>= fun output =>
            .done (Answer.listed (output.insertionSort lastUpdatedFirst)) := by
    simp only [body, list, Program.call_bind, Program.bind_assoc, Program.pure_eq,
      Program.done_bind]
    rfl
  rw [← hbody, hlists]
  exact @Service.free_list _ _ _ _ _ (history.ledger hcodec) (history.service hcodec pid)
    (.list includeArchived) (wanted includeArchived)
    (fun output => .listed (output.insertionSort lastUpdatedFirst)) _ rfl
    (fun known names => rfl) fun known output hperm => ⟨rfl, output, hperm, rfl⟩

theorem rewritten_refused {checked : Except LiveError Unit} {error : LiveError}
    (h : checked = .error error) (known : Conversations) (id : String) (edit : Edit) :
    rewritten known checked id edit = (.error error, known) := by
  rw [h]
  rfl

theorem free {program : DirProgram LiveError Answer} (hbody : history.body pid method = program)
    (hlocks : history.locks method = false) :
    Free (history.service hcodec pid).object (history.service hcodec pid).discipline method
      program := by
  cases method with
  | create now title =>
    simp only [body, create, Program.pure_eq] at hbody
    refine free_unchecked hlocks hbody fun known error hchecked => ⟨?_, nofun⟩
    simp only [apply, hchecked, error_bind, settled]
  | append now id role content =>
    simp only [body, append, Program.pure_eq] at hbody
    exact free_unchecked hlocks hbody fun known error hchecked =>
      rewritten_refused hchecked known id _
  | appendExchange userNow now id userContent assistantContent =>
    simp only [body, appendExchange, Program.pure_eq] at hbody
    exact free_unchecked hlocks hbody fun known error hchecked =>
      rewritten_refused hchecked known id _
  | setArchived id archived => cases hlocks
  | delete id => exact free_delete hbody
  | get id => exact free_get hbody
  | list includeArchived => exact free_list hbody

/-- Each call does what it is to do as long as its steps are permitted. -/
theorem disciplined : Disciplined (history.service hcodec pid).object
    (history.service hcodec pid).discipline where
  refl := fun _ _ _ => Ledger.Spared.refl _ _
  trans := fun _ _ _ _ _ h h' => h.trans h'
  locked := fun _ _ _ hlocks _ hrest => locked rfl hlocks hrest.1
  free := fun _ hlocks => free rfl hlocks

end Runs

/-! ### Calls one after another -/

/-- What a call leaves of the conversation under a digest. -/
def recorded (digest : String) (before : Option Conversation)
    (entry : Entry LiveError Method Answer) : Option Conversation :=
  match entry.method with
  | .delete id =>
    if entry.answer.toOption.isSome ∧ id = "blake3:" ++ digest then none else before
  | .get _ | .list _ => before
  | _ => match entry.answer with
    | .ok (.conversation conversation) =>
      if conversation.id = "blake3:" ++ digest then some conversation else before
    | _ => before

/-- The messages that a call adds to the conversation under a digest. -/
def added (digest : String) (entry : Entry LiveError Method Answer) : List ConversationMessage :=
  match entry.method with
  | .append now id role content =>
    if entry.answer.toOption.isSome ∧ id = "blake3:" ++ digest then [⟨role, content, now⟩] else []
  | .appendExchange userNow now id userContent assistantContent =>
    if entry.answer.toOption.isSome ∧ id = "blake3:" ++ digest then
      [⟨"user", userContent, userNow⟩, ⟨"assistant", assistantContent, max now userNow⟩]
    else []
  | _ => []

variable {known after first last : Conversations} {digest : String}
  {answer : Except LiveError Answer}

theorem id_eq {other : String} : "blake3:" ++ other = "blake3:" ++ digest ↔ digest = other :=
  ⟨fun heq => ((String.append_right_inj "blake3:").mp heq).symm, fun heq => heq ▸ rfl⟩

/-- A call that changes a conversation finds it, or fails and changes nothing. -/
theorem rewritten_cases {checked : Except LiveError Unit} {edit : Edit}
    (h : rewritten known checked id edit = (answer, after)) :
    (∃ digest conversation, id = "blake3:" ++ digest ∧ known.find digest = some conversation ∧
      answer = .ok (.conversation (edit.apply conversation)) ∧
      after = known.put digest (edit.apply conversation)) ∨
    (∃ error, answer = .error error) ∧ after = known := by
  unfold rewritten at h
  cases checked with
  | error error =>
    cases h
    exact .inr ⟨⟨error, rfl⟩, rfl⟩
  | ok value =>
    cases hid : digestOf id with
    | error error =>
      simp only [Conversations.rewrite, hid, ok_bind, error_bind, settled] at h
      cases h
      exact .inr ⟨⟨error, rfl⟩, rfl⟩
    | ok digest =>
      cases hfind : known.find digest with
      | none =>
        simp only [Conversations.rewrite, Conversations.get, hid, hfind, ok_bind, error_bind,
          settled] at h
        cases h
        exact .inr ⟨⟨_, rfl⟩, rfl⟩
      | some conversation =>
        simp only [Conversations.rewrite, Conversations.get, hid, hfind, ok_bind, settled] at h
        cases h
        exact .inl ⟨digest, conversation, (digestOf_ok.mp hid).1, hfind, rfl, rfl⟩

/-- What became of the conversation under a digest: it was changed by a call for its id, or it is
as it was. -/
theorem rewritten_find {checked : Except LiveError Unit} {edit : Edit}
    (h : rewritten known checked id edit = (answer, after)) (digest : String) :
    (∃ conversation, id = "blake3:" ++ digest ∧ known.find digest = some conversation ∧
      answer = .ok (.conversation (edit.apply conversation)) ∧
      (edit.apply conversation).id = "blake3:" ++ digest ∧
      after.find digest = some (edit.apply conversation)) ∨
    after.find digest = known.find digest ∧
      ∀ conversation, answer = .ok (.conversation conversation) →
        id ≠ "blake3:" ++ digest ∧ conversation.id ≠ "blake3:" ++ digest := by
  rcases rewritten_cases h with ⟨found, conversation, rfl, hfind, rfl, rfl⟩ | ⟨⟨error, rfl⟩, rfl⟩
  · have hid : (edit.apply conversation).id = "blake3:" ++ found :=
      (edit.apply_id conversation).trans (Conversations.named_of_find hfind)
    have hput := @Conversations.find_put known _ _ hid digest
    by_cases hsame : digest = found
    · subst found
      rw [if_pos rfl] at hput
      exact .inl ⟨conversation, rfl, hfind, rfl, hid, hput⟩
    · rw [if_neg hsame] at hput
      refine .inr ⟨hput, fun other hother => ?_⟩
      obtain rfl := Answer.conversation.inj (Except.ok.inj hother)
      have hne : "blake3:" ++ found ≠ "blake3:" ++ digest := fun heq => hsame (id_eq.mp heq)
      exact ⟨hne, hid ▸ hne⟩
  · exact .inr ⟨rfl, nofun⟩

variable (history pid digest) in
/-- A call that creates the conversation under a digest. -/
def Creates : Method → Prop
  | .create now title => hexDigest history.blake3 (nonce pid now (trim title)) = digest
  | _ => False

variable (history pid digest) in
/-- What a call does to the conversation under a digest. Only a deletion takes away from it, and
only a call that creates it brings it about. -/
structure Written (entry : Entry LiveError Method Answer) (before after : Option Conversation) :
    Prop where
  recorded : after = recorded digest before entry
  grown : ∀ conversation, before = some conversation → entry.method ≠ .delete ("blake3:" ++ digest) →
    ∃ now, after = some now ∧ now.title = conversation.title ∧
      now.createdAtMillis = conversation.createdAtMillis ∧
      now.messages = conversation.messages ++ added digest entry
  absent : before = none → ¬history.Creates pid digest entry.method → after = none

theorem Written.same {entry : Entry LiveError Method Answer} {before after : Option Conversation}
    (hsame : after = before) (hrecorded : HistoryService.recorded digest before entry = before)
    (hadded : added digest entry = []) : Written history pid digest entry before after where
  recorded := hsame.trans hrecorded.symm
  grown := by
    intro conversation hbefore _
    refine ⟨conversation, hsame.trans hbefore, rfl, rfl, ?_⟩
    rw [hadded, List.append_nil]
  absent := fun hnone _ => hsame.trans hnone

/-- A call that changes one conversation. -/
theorem Written.edited {entry : Entry LiveError Method Answer} {checked : Except LiveError Unit}
    {edit : Edit} (h : rewritten known checked id edit = (entry.answer, after))
    (hrecorded : ∀ before, HistoryService.recorded digest before entry =
      match entry.answer with
      | .ok (.conversation conversation) =>
        if conversation.id = "blake3:" ++ digest then some conversation else before
      | _ => before)
    (hadded : added digest entry =
      if entry.answer.toOption.isSome ∧ id = "blake3:" ++ digest then edit.added else []) :
    Written history pid digest entry (known.find digest) (after.find digest) := by
  rcases rewritten_find h digest with
    ⟨conversation, hid, hfind, hanswer, hedited, hafter⟩ | ⟨hsame, hother⟩
  · refine ⟨?_, fun found hfound _ => ⟨_, hafter, ?_⟩, fun hnone => ?_⟩
    · rw [hrecorded, hanswer, hafter]
      exact (if_pos hedited).symm
    · obtain rfl := Option.some.inj (hfind.symm.trans hfound)
      obtain ⟨htitle, hcreated⟩ := edit.apply_title conversation
      refine ⟨htitle, hcreated, ?_⟩
      rw [hadded, hanswer, if_pos ⟨rfl, hid⟩, edit.apply_messages]
    · rw [hfind] at hnone
      cases hnone
  · refine .same hsame ?_ ?_
    · rw [hrecorded]
      split
      · rename_i conversation hanswer
        exact if_neg (hother conversation hanswer).2
      · rfl
    · rw [hadded, if_neg]
      rintro ⟨hok, hid⟩
      rcases rewritten_cases h with ⟨_, conversation, _, _, hanswer, _⟩ | ⟨⟨error, hanswer⟩, _⟩
      · exact (hother _ hanswer).1 hid
      · rw [hanswer] at hok
        cases hok

theorem settled_ok {result : Except LiveError (Answer × Conversations)}
    (h : settled known result = (answer, after)) :
    (∃ value, result = .ok (value, after) ∧ answer = .ok value) ∨
      (∃ error, result = .error error ∧ answer = .error error) ∧ after = known := by
  cases result with
  | ok found =>
    cases h
    exact .inl ⟨_, rfl, rfl⟩
  | error error =>
    cases h
    exact .inr ⟨⟨error, rfl, rfl⟩, rfl⟩

theorem written_create {place now : Nat} {title : String}
    (h : history.allows pid (.create now title) known answer after) (digest : String) :
    Written history pid digest ⟨place, .create now title, answer⟩ (known.find digest)
      (after.find digest) := by
  obtain ⟨happly, hfresh⟩ := h
  rcases settled_ok happly with ⟨value, hok, rfl⟩ | ⟨⟨error, -, rfl⟩, rfl⟩
  · obtain ⟨⟨⟩, -, hok⟩ := bind_ok.mp hok
    cases hok
    have hnone := hfresh rfl
    generalize hconversation : history.created pid now (trim title) = conversation
    generalize hdigest : hexDigest history.blake3 (nonce pid now (trim title)) = created at hnone ⊢
    have hid : conversation.id = "blake3:" ++ created := by
      rw [← hconversation, ← hdigest]
      rfl
    have hput := @Conversations.find_put known _ _ hid digest
    refine ⟨?_, fun found hfound _ => ?_, fun habsent hcreates => ?_⟩
    · rw [hput]
      simp only [recorded, hid, id_eq]
    · by_cases hsame : digest = created
      · rw [hsame, hnone] at hfound
        cases hfound
      · rw [if_neg hsame] at hput
        exact ⟨found, hput.trans hfound, rfl, rfl, (List.append_nil _).symm⟩
    · rw [hput, if_neg fun hsame => hcreates (hdigest.trans hsame.symm)]
      exact habsent
  · exact .same rfl rfl rfl

theorem written_delete {place : Nat} (h : history.allows pid (.delete id) known answer after)
    (digest : String) :
    Written history pid digest ⟨place, .delete id, answer⟩ (known.find digest)
      (after.find digest) := by
  rcases settled_ok h with ⟨value, hok, rfl⟩ | ⟨⟨error, -, rfl⟩, rfl⟩
  · obtain ⟨deleted, hid, hok⟩ := bind_ok.mp hok
    cases hok
    obtain rfl := (digestOf_ok.mp hid).1
    have hdrop := @Conversations.find_drop known deleted digest
    refine ⟨?_, fun found hfound hother => ?_, fun hnone _ => ?_⟩
    · rw [hdrop]
      simp only [recorded, Except.toOption, Option.isSome_some, true_and, id_eq]
    · rw [if_neg fun hsame => hother (congrArg Method.delete (id_eq.mpr hsame))] at hdrop
      exact ⟨found, hdrop.trans hfound, rfl, rfl, (List.append_nil _).symm⟩
    · rw [hdrop, hnone, ite_self]
  · exact .same rfl rfl rfl

/-- Each call, carried out at once, does to each conversation what it is to do. -/
theorem written {entry : Entry LiveError Method Answer}
    (h : history.allows pid entry.method known entry.answer after) (digest : String) :
    Written history pid digest entry (known.find digest) (after.find digest) := by
  obtain ⟨place, method, answer⟩ := entry
  cases method with
  | create now title => exact written_create h digest
  | append now id role content =>
    exact @Written.edited _ _ _ _ _ _ _ _ (.add [⟨role, content, now⟩] now) h (fun _ => rfl) rfl
  | appendExchange userNow now id userContent assistantContent =>
    exact @Written.edited _ _ _ _ _ _ _ _ (exchange userNow now userContent assistantContent) h
      (fun _ => rfl) rfl
  | setArchived id archived =>
    exact @Written.edited _ _ _ _ _ _ _ _ (.archive archived) h (fun _ => rfl) (ite_self _).symm
  | delete id => exact written_delete h digest
  | get id =>
    obtain ⟨-, rfl⟩ := Prod.mk.inj h
    exact .same rfl rfl rfl
  | list includeArchived =>
    obtain ⟨rfl, -⟩ := h
    exact .same rfl rfl rfl

section Order
variable {order before following : List (Entry LiveError Method Answer)}

theorem recorded_sequential
    (h : Sequential (history.service hcodec pid).object order first last) (digest : String) :
    last.find digest = order.foldl (recorded digest) (first.find digest) := by
  induction order generalizing first with
  | nil =>
    obtain rfl := h
    rfl
  | cons entry rest ih =>
    obtain ⟨next, hallows, hrest⟩ := h
    rw [ih hrest, (written hallows digest).recorded]
    rfl

/-- Until it is deleted, a conversation gains what the calls add to it, in their order. -/
theorem grown_sequential
    (h : Sequential (history.service hcodec pid).object order first last)
    (hkept : ∀ entry ∈ order, entry.method ≠ .delete ("blake3:" ++ digest))
    {conversation : Conversation} (hfirst : first.find digest = some conversation) :
    ∃ now, last.find digest = some now ∧ now.title = conversation.title ∧
      now.createdAtMillis = conversation.createdAtMillis ∧
      now.messages = conversation.messages ++ order.flatMap (added digest) := by
  induction order generalizing first conversation with
  | nil =>
    obtain rfl := h
    exact ⟨conversation, hfirst, rfl, rfl, (List.append_nil _).symm⟩
  | cons entry rest ih =>
    obtain ⟨next, hallows, hrest⟩ := h
    obtain ⟨grown, hgrown, htitle, hcreated, hmessages⟩ :=
      (written hallows digest).grown conversation hfirst (hkept entry List.mem_cons_self)
    obtain ⟨now, hnow, htitle', hcreated', hmessages'⟩ :=
      ih hrest (fun other hother => hkept other (List.mem_cons_of_mem _ hother)) hgrown
    refine ⟨now, hnow, htitle'.trans htitle, hcreated'.trans hcreated, ?_⟩
    rw [hmessages', hmessages, List.flatMap_cons, List.append_assoc]

theorem absent_sequential
    (h : Sequential (history.service hcodec pid).object order first last)
    (hothers : ∀ entry ∈ order, ¬history.Creates pid digest entry.method)
    (hfirst : first.find digest = none) : last.find digest = none := by
  induction order generalizing first with
  | nil =>
    obtain rfl := h
    exact hfirst
  | cons entry rest ih =>
    obtain ⟨next, hallows, hrest⟩ := h
    have hnext := (written hallows digest).absent hfirst (hothers entry List.mem_cons_self)
    exact ih hrest (fun other hother => hothers other (List.mem_cons_of_mem _ hother)) hnext

variable (history pid digest) in
/-- What became of the conversation under a digest in the order of the calls. -/
structure Chronicle (order : List (Entry LiveError Method Answer))
    (first last : Option Conversation) : Prop where
  recorded : last = order.foldl (recorded digest) first
  /-- No message is lost or comes twice. -/
  grown : ∀ (before following : List (Entry LiveError Method Answer)) conversation,
    order = before ++ following →
    before.foldl (HistoryService.recorded digest) first = some conversation →
    (∀ entry ∈ following, entry.method ≠ .delete ("blake3:" ++ digest)) →
    ∃ now, last = some now ∧ now.title = conversation.title ∧
      now.createdAtMillis = conversation.createdAtMillis ∧
      now.messages = conversation.messages ++ following.flatMap (added digest)
  /-- What is deleted is back only when it is created once more. -/
  deleted : ∀ before (entry : Entry LiveError Method Answer) following,
    order = before ++ entry :: following → entry.method = .delete ("blake3:" ++ digest) →
    entry.answer = .ok .deleted →
    (∀ later ∈ following, ¬history.Creates pid digest later.method) → last = none

theorem chronicle (h : Sequential (history.service hcodec pid).object order first last)
    (digest : String) :
    history.Chronicle pid digest order (first.find digest) (last.find digest) where
  recorded := recorded_sequential h digest
  grown := by
    rintro before following conversation rfl hthere hkept
    obtain ⟨middle, hbefore, hfollowing⟩ := h.append
    rw [← recorded_sequential hbefore digest] at hthere
    exact grown_sequential hfollowing hkept hthere
  deleted := by
    rintro before entry following rfl hmethod hanswer hothers
    obtain ⟨middle, -, next, hallows, hfollowing⟩ := h.append
    refine absent_sequential hfollowing hothers ?_
    rw [(written hallows digest).recorded]
    simp [recorded, hmethod, hanswer, Except.toOption]

end Order

/-- As long as every step finds what its call counts on, calls of the service side by side answer
as one after another, in an order that keeps to real time, and leave the files that they leave one
after another. No message that a call was told is added gets lost before its conversation is
deleted. -/
theorem history_linearizes (history : HistoryService)
    (hcodec : ∀ conversation, history.fromSlice (history.toVecPretty conversation) = .ok conversation)
    (pid : Nat) {files : FileSystem} {first : Conversations}
    (hfirst : (history.service hcodec pid).discipline.rest files first)
    {system : System DirCall LiveError Method Answer FileSystem Conversations}
    (hreach : Reaches (Atomic.step (history.service hcodec pid).object)
      (Permitted (history.service hcodec pid).discipline) { state := files, done := first } system) :
    ∃ order last, Linearized (history.service hcodec pid).object first last system order ∧
      ((∀ task ∈ system.tasks, ∃ result, task.stage = .ended result) → ∀ digest, ValidDigest digest →
        system.state (history.conversationPath digest) =
          (last.find digest).map history.toVecPretty) ∧
      ∀ digest, history.Chronicle pid digest order (first.find digest) (last.find digest) := by
  obtain ⟨hlinearized, hrest⟩ :=
    linearized (@disciplined history hcodec pid) ⟨none, hfirst.1⟩ hfirst hreach
  refine ⟨system.log, system.done, hlinearized, fun hended digest hvalid => ?_,
    chronicle hlinearized.sequential⟩
  exact (hrest hended).1.file digest hvalid nofun

/-! Conversations of one service, as they are written. -/

def notesHash : Vector UInt8 32 :=
  #v[0x6d, 0xff, 0x50, 0xbf, 0xba, 0x03, 0x5f, 0xc3, 0xbd, 0xc7, 0x72, 0x17, 0x04, 0x3b, 0x66, 0xca,
    0x59, 0xc6, 0x40, 0x63, 0x6d, 0x3b, 0x85, 0x43, 0x75, 0x3c, 0xbe, 0xba, 0xb5, 0x9d, 0xe1, 0x00]

def notesDigest : String := "6dff50bfba035fc3bdc77217043b66ca59c640636d3b8543753cbebab59de100"

def notes (archived : Bool) : Conversation :=
  { id := "blake3:" ++ notesDigest, title := "Notes", createdAtMillis := 5, updatedAtMillis := 5
    archived }

def notesRecord (archived : Bool) : Contents := Utf8.encode
  s!"\x7b\n  \"id\": \"blake3:6dff50bfba035fc3bdc77217043b66ca59c640636d3b8543753cbebab59de100\",
  \"title\": \"Notes\",\n  \"created_at_millis\": 5,\n  \"updated_at_millis\": 5,
  \"messages\": [],\n  \"archived\": {archived}\n\x7d"

instance : Encodable ConversationMessage :=
  Encodable.ofLeftInverse
    (fun message => (codes message.role, codes message.content, message.createdAtMillis))
    (fun (role, content, createdAtMillis) => ⟨spell role, spell content, createdAtMillis⟩)
    (fun message => by simp [spell_codes])

instance : Encodable Conversation :=
  Encodable.ofLeftInverse
    (fun conversation => (codes conversation.id, codes conversation.title,
      conversation.createdAtMillis, conversation.updatedAtMillis, conversation.messages,
      conversation.archived))
    (fun (id, title, createdAtMillis, updatedAtMillis, messages, archived) =>
      { id := spell id, title := spell title, createdAtMillis, updatedAtMillis, messages, archived })
    (fun conversation => by simp [spell_codes])

/-- The one conversation is spelled out, and any other is as many bytes as its number. -/
def sampleHistory : HistoryService where
  root := ["", "var", "hologram", "history"]
  blake3 _ := notesHash
  debug text := text.quote
  toVecPretty conversation :=
    if conversation = notes conversation.archived then notesRecord conversation.archived
    else List.replicate (Encodable.encode conversation) 0
  fromSlice bytes :=
    if bytes = notesRecord false then .ok (notes false)
    else if bytes = notesRecord true then .ok (notes true)
    else match Encodable.decode bytes.length with
      | some conversation => .ok conversation
      | none => .error "expected value at line 1 column 1"

theorem sampleHistory_reads (conversation : Conversation) :
    sampleHistory.fromSlice (sampleHistory.toVecPretty conversation) = .ok conversation := by
  by_cases hnotes : conversation = notes conversation.archived
  · have hne : notesRecord true ≠ notesRecord false := by decide +kernel
    rw [hnotes]
    cases conversation.archived <;> simp [sampleHistory, notes, hne]
  · have hother (archived : Bool) :
        List.replicate (Encodable.encode conversation) 0 ≠ notesRecord archived := by
      intro heq
      have hbrace : (0x7b : UInt8) ∈ notesRecord archived := by cases archived <;> decide +kernel
      rw [← heq] at hbrace
      exact absurd (List.eq_of_mem_replicate hbrace) (by decide)
    simp [sampleHistory, hnotes, hother, Encodable.encodek]

def sampleService : Service (sampleHistory.ledger sampleHistory_reads) Method Answer :=
  sampleHistory.service sampleHistory_reads 7

/-- One call opens a conversation and another hides it. -/
def openedAndHidden : List (Action Method (List String)) :=
  [Action.start (Method.create 5 " Notes "),
    .start (.setArchived ("blake3:" ++ notesDigest) true)] ++
    List.replicate 6 (Action.move 0 []) ++ List.replicate 8 (Action.move 1 [])

/-- Conversations are changed, and created where they are not. -/
def onlyChanges (system : System DirCall LiveError Method Answer FileSystem Conversations) :
    Action Method (List String) → Bool
  | .start _ => true
  | .move place _ => (system.tasks[place]?).all fun task => match task.method, task.stage with
    | .create now title, .running (.call _ _) =>
      (system.done.find (hexDigest sampleHistory.blake3 (nonce 7 now (trim title)))).isNone
    | .delete _, _ | .get _, _ | .list _, _ => false
    | _, _ => true

theorem nothing_rest : sampleService.discipline.rest (fun _ => none) {} :=
  ⟨⟨.nil, nofun, fun _ _ _ => rfl, nofun, nofun⟩, trivial⟩

theorem changes_permitted (id : String) {β : Type} {operation : DirCall β} {names : List String}
    {files : FileSystem} {known : Conversations} {own : Option String} {seen : Option Conversations} :
    (history.ledger hcodec).permits (fun _ _ => True)
      (roleOf id fun digest => .writer digest Option.isNone) operation names files known own seen := by
  cases hid : digestOf id with
  | ok digest =>
    simp only [roleOf, hid]
    trivial
  | error error =>
    simp only [roleOf, hid]
    trivial

theorem history_linearizes_sample : ∃ system,
    checked (Atomic.step sampleService.object) onlyChanges openedAndHidden
        { state := fun _ => none, done := {} } = some system ∧
      ∃ order last, Linearized sampleService.object {} last system order ∧
        ((∀ task ∈ system.tasks, ∃ result, task.stage = .ended result) → ∀ digest, ValidDigest digest →
          system.state (sampleHistory.conversationPath digest) =
            (last.find digest).map sampleHistory.toVecPretty) ∧
        ∀ digest, sampleHistory.Chronicle 7 digest order none (last.find digest) := by
  have hran : ((checked (Atomic.step sampleService.object) onlyChanges openedAndHidden
      { state := fun _ => none, done := {} }).isSome : Bool) = true := by decide +kernel
  obtain ⟨system, hsystem⟩ := Option.isSome_iff_exists.mp hran
  refine ⟨system, hsystem, history_linearizes sampleHistory sampleHistory_reads 7 nothing_rest
    (Reaches.start.checked (fun before action hcheck => ?_) hsystem)⟩
  cases action with
  | start method => trivial
  | move place names =>
    intro task htask
    obtain ⟨method, stage, counting, effect, earlier⟩ := task
    simp only [onlyChanges, htask, Option.all_some] at hcheck
    split
    · rename_i operation next hstage
      obtain rfl : stage = _ := hstage
      cases method with
      | create now title => exact ⟨Option.isNone_iff_eq_none.mp hcheck, trivial⟩
      | append now id role content => exact changes_permitted id
      | appendExchange userNow now id userContent assistantContent => exact changes_permitted id
      | setArchived id archived => exact changes_permitted id
      | delete id => cases hcheck
      | get id => cases hcheck
      | list includeArchived => cases hcheck
    · trivial

/-! A deletion in the middle of another call's rewriting. -/

def notesFiles : FileSystem :=
  FileSystem.write (fun _ => none) (sampleHistory.conversationPath notesDigest) (notesRecord false)

def notesKnown : Conversations where
  records := [(notesDigest, notes false)]
  named := by simp [notes]

def hiddenAndDeleted : List (Action Method (List String)) :=
  [Action.start (Method.setArchived ("blake3:" ++ notesDigest) true),
    .start (.delete ("blake3:" ++ notesDigest)), .move 0 [], .move 0 [], .move 1 [], .move 1 [],
    .move 1 []] ++ List.replicate 5 (Action.move 0 [])

def outcome (task : Task DirCall LiveError Method Answer Conversations) : Option (Option Answer) :=
  match task.stage with
  | .ended result => some result.toOption
  | _ => none

theorem outcome_some {task : Task DirCall LiveError Method Answer Conversations} {answer : Answer}
    (h : outcome task = some (some answer)) : task.stage = .ended (.ok answer) := by
  unfold outcome at h
  split at h
  · rename_i hstage
    rw [hstage, toOption_eq_some.mp (Option.some.inj h)]
  · cases h

theorem hiddenAndDeleted_outcome :
    (run (Atomic.step sampleService.object) hiddenAndDeleted
        { state := notesFiles, done := notesKnown }).map
      (fun system => (system.tasks.map fun task => (task.method, outcome task),
        system.state (sampleHistory.conversationPath notesDigest))) =
      some ([(.setArchived ("blake3:" ++ notesDigest) true, some (some (.conversation (notes true)))),
        (.delete ("blake3:" ++ notesDigest), some (some .deleted))], some (notesRecord true)) := by
  decide +kernel

theorem notesDigest_valid : ValidDigest notesDigest := by
  decide +kernel

/-- One conversation with its file. -/
theorem single_rest {conversation : Conversation} {bytes : Contents} (hvalid : ValidDigest digest)
    (hwritten : history.toVecPretty conversation = bytes)
    (hnamed : ∀ entry ∈ [(digest, conversation)], entry.2.id = "blake3:" ++ entry.1) :
    (history.service hcodec pid).discipline.rest
      (FileSystem.write (fun _ => none) (history.conversationPath digest) bytes)
      { records := [(digest, conversation)], named := hnamed } := by
  have hnothing : (history.ledger hcodec).Kept none (fun _ => none) {} :=
    ⟨.nil, nofun, fun _ _ _ => rfl, nofun, nofun⟩
  rw [← hwritten]
  exact ⟨hnothing.stored (.inl rfl) hvalid rfl, trivial⟩

theorem notesFiles_rest : sampleService.discipline.rest notesFiles notesKnown :=
  single_rest notesDigest_valid (by simp [sampleHistory, notes]) notesKnown.named

/-- A deletion between the look and the last step of a call that changes the conversation answers
that it is gone, and the other call brings it back. -/
theorem deleted_conversation_returns : sampleService.discipline.rest notesFiles notesKnown ∧
    ∃ system, run (Atomic.step sampleService.object) hiddenAndDeleted
        { state := notesFiles, done := notesKnown } = some system ∧
      ¬∃ order last, Linearized sampleService.object notesKnown last system order ∧
        ((∀ task ∈ system.tasks, ∃ result, task.stage = .ended result) → ∀ digest, ValidDigest digest →
          system.state (sampleHistory.conversationPath digest) =
            (last.find digest).map sampleHistory.toVecPretty) := by
  refine ⟨notesFiles_rest, ?_⟩
  obtain ⟨system, hrun, houtcome⟩ := Option.map_eq_some_iff.mp hiddenAndDeleted_outcome
  refine ⟨system, hrun, ?_⟩
  rintro ⟨order, last, hlinearized, hfiles⟩
  obtain ⟨htasks, hrecord⟩ := Prod.mk.inj houtcome
  obtain ⟨left, others, hsplit, hleft, hothers⟩ := List.map_eq_cons_iff.mp htasks
  obtain ⟨right, none, rfl, hright, hnone⟩ := List.map_eq_cons_iff.mp hothers
  obtain rfl := List.map_eq_nil_iff.mp hnone
  obtain ⟨hhide, hhidden⟩ := Prod.mk.inj hleft
  obtain ⟨hdelete, hdeleted⟩ := Prod.mk.inj hright
  have hholds := hfiles (by
    rw [hsplit]
    intro task hmem
    rcases List.mem_cons.mp hmem with rfl | hmem
    · exact ⟨_, outcome_some hhidden⟩
    · obtain rfl := List.mem_singleton.mp hmem
      exact ⟨_, outcome_some hdeleted⟩)
  have hchronicle := chronicle hlinearized.sequential notesDigest
  rcases hlinearized.pair hsplit (outcome_some hhidden) (outcome_some hdeleted) with rfl | rfl
  · -- the deletion last: the conversation is not there
    have hgone := hchronicle.deleted [_] _ [] rfl hdelete rfl fun _ hmem => nomatch hmem
    have hfile := hholds notesDigest notesDigest_valid
    rw [hrecord, hgone] at hfile
    cases hfile
  · -- the deletion first: there is nothing to hide
    obtain ⟨middle, hfirst, after, hsecond, -⟩ := hlinearized.sequential
    have hgone := (written hfirst notesDigest).recorded
    simp only [recorded, hdelete, Except.toOption, Option.isSome_some, and_self, ↓reduceIte] at hgone
    rw [hhide] at hsecond
    rcases rewritten_cases hsecond with
      ⟨digest, conversation, hid, hfind, -, -⟩ | ⟨⟨error, herror⟩, -⟩
    · rw [id_eq.mp hid, hgone] at hfind
      cases hfind
    · cases herror

end HistoryService
end HologramLive.History
