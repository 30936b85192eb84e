import HologramLive.Channel.Broker
import HologramLive.Lib.Queues

namespace HologramLive.Channel
open Lib Lib.Queues

/-- What waits on each channel. -/
def ChannelBroker.pending (broker : ChannelBroker) : Family String Bytes :=
  fun channel => (broker.mailboxes.lookup channel).getD []

/-- The mailboxes that are kept: one a channel, none empty, none past the capacity. -/
structure ChannelBroker.Tidy (broker : ChannelBroker) : Prop where
  nodup : (broker.mailboxes.map Prod.fst).Nodup
  holds : ∀ channel mailbox, (channel, mailbox) ∈ broker.mailboxes → mailbox ≠ []
  bounded : ∀ channel mailbox, (channel, mailbox) ∈ broker.mailboxes →
    mailbox.length ≤ broker.mailboxCapacity

inductive Call where
  | publish (channel : String) (message : Bytes)
  | tryReceive (channel : String)

/-- A broker and the messages that went in and out of it so far. -/
structure Session where
  broker : ChannelBroker
  log : List (Event String Bytes)

def Session.call (session : Session) : Call → Session
  | .publish channel message =>
    match session.broker.publish channel message with
    | (.ok (), broker) => { broker, log := session.log ++ [.sent channel message] }
    | (.error _, broker) => { session with broker }
  | .tryReceive channel =>
    match session.broker.tryReceive channel with
    | (.ok (some message), broker) => { broker, log := session.log ++ [.taken channel message] }
    | (_, broker) => { session with broker }

def Session.after (broker : ChannelBroker) (calls : List Call) : Session :=
  calls.foldl Session.call { broker, log := [] }

section Broker
variable {broker : ChannelBroker} {channel : String} {message : Bytes} {mailbox : List Bytes}

theorem ChannelBroker.Tidy.lookup (h : broker.Tidy)
    (hlookup : broker.mailboxes.lookup channel = some mailbox) :
    mailbox ≠ [] ∧ mailbox.length ≤ broker.mailboxCapacity :=
  ⟨h.holds _ _ (Lookup.mem_of_lookup hlookup), h.bounded _ _ (Lookup.mem_of_lookup hlookup)⟩

/-- An entry that is replaced by mail within the capacity. -/
theorem ChannelBroker.Tidy.insert (h : broker.Tidy) (hholds : mailbox ≠ [])
    (hbound : mailbox.length ≤ broker.mailboxCapacity) :
    ({ broker with mailboxes := Table.insert broker.mailboxes channel mailbox } :
      ChannelBroker).Tidy := by
  refine ⟨Table.nodup_insert h.nodup _ _, ?_, ?_⟩
  · intro place other hmem
    rcases List.mem_cons.mp hmem with hnew | hold
    · cases hnew
      exact hholds
    · exact h.holds place other (List.mem_of_mem_filter hold)
  · intro place other hmem
    rcases List.mem_cons.mp hmem with hnew | hold
    · cases hnew
      exact hbound
    · exact h.bounded place other (List.mem_of_mem_filter hold)

theorem ChannelBroker.Tidy.erase (h : broker.Tidy) :
    ({ broker with mailboxes := Table.erase broker.mailboxes channel } : ChannelBroker).Tidy := by
  refine ⟨?_, ?_, ?_⟩
  · rw [Table.map_erase]
    exact h.nodup.filter _
  · intro place other hmem
    exact h.holds place other (List.mem_of_mem_filter hmem)
  · intro place other hmem
    exact h.bounded place other (List.mem_of_mem_filter hmem)

/-- Once the entry is made, the mailbox is what waits on the channel, and mail put into it
is put into the broker. -/
theorem entry_fst : (broker.entry channel).1 = broker.pending channel := by
  cases hlookup : broker.mailboxes.lookup channel <;>
    simp [ChannelBroker.entry, ChannelBroker.pending, hlookup]

theorem entry_insert : Table.insert (broker.entry channel).2.mailboxes channel mailbox =
    Table.insert broker.mailboxes channel mailbox := by
  cases hlookup : broker.mailboxes.lookup channel <;> simp [ChannelBroker.entry, hlookup]

theorem entry_capacity : (broker.entry channel).2.mailboxCapacity = broker.mailboxCapacity := by
  cases hlookup : broker.mailboxes.lookup channel <;> simp [ChannelBroker.entry, hlookup]

theorem entry_messageMaxBytes :
    (broker.entry channel).2.messageMaxBytes = broker.messageMaxBytes := by
  cases hlookup : broker.mailboxes.lookup channel <;> simp [ChannelBroker.entry, hlookup]

/-- Where mail waits there is an entry already. -/
theorem entry_of_pending (h : broker.pending channel ≠ []) : (broker.entry channel).2 = broker := by
  cases hlookup : broker.mailboxes.lookup channel with
  | none => simp [ChannelBroker.pending, hlookup] at h
  | some mailbox => simp [ChannelBroker.entry, hlookup]

theorem publish_tooLarge (h : broker.messageMaxBytes < message.length) :
    broker.publish channel message = (.error .messageTooLarge, broker) := by
  simp [ChannelBroker.publish, h]

/-- A mailbox that is full is not empty, so refusing the message leaves no entry behind. -/
theorem publish_full (hsize : ¬ broker.messageMaxBytes < message.length)
    (h : broker.mailboxCapacity ≤ (broker.pending channel).length) :
    broker.publish channel message = (.error .mailboxFull, broker) := by
  have hwaits : broker.pending channel ≠ [] := by
    intro hempty
    have hpositive := broker.admitsMail
    simp [hempty] at h
    omega
  have hentry : broker.entry channel = (broker.pending channel, broker) :=
    Prod.ext entry_fst (entry_of_pending hwaits)
  simp [ChannelBroker.publish, hsize, hentry, h]

theorem publish_sent (hsize : ¬ broker.messageMaxBytes < message.length)
    (h : ¬ broker.mailboxCapacity ≤ (broker.pending channel).length) :
    broker.publish channel message = (.ok (),
      { broker with
        mailboxes := Table.insert broker.mailboxes channel
          (broker.pending channel ++ [message]) }) := by
  have hfst : (broker.entry channel).1 = broker.pending channel := entry_fst
  have hroom : ¬ (broker.entry channel).2.mailboxCapacity ≤ (broker.pending channel).length := by
    rwa [entry_capacity]
  have hmailboxes : Table.insert (broker.entry channel).2.mailboxes channel
      (broker.pending channel ++ [message]) =
      Table.insert broker.mailboxes channel (broker.pending channel ++ [message]) := entry_insert
  simp only [ChannelBroker.publish, hsize, ↓reduceIte, hfst, hroom, hmailboxes, Prod.mk.injEq,
    true_and]
  simp [entry_capacity, entry_messageMaxBytes]

/-- A publish fails exactly where the message is too large or the channel full, and then
leaves the broker as it was. -/
theorem publish_fails (broker : ChannelBroker) (channel : String) (message : Bytes) :
    ((∃ error, (broker.publish channel message).1 = .error error) ↔
      broker.messageMaxBytes < message.length ∨
        broker.mailboxCapacity ≤ (broker.pending channel).length) ∧
    ∀ error, (broker.publish channel message).1 = .error error →
      (broker.publish channel message).2 = broker := by
  by_cases hsize : broker.messageMaxBytes < message.length
  · simp [publish_tooLarge hsize, hsize]
  · by_cases hfull : broker.mailboxCapacity ≤ (broker.pending channel).length
    · simp [publish_full hsize hfull, hfull]
    · simp [publish_sent hsize hfull, hsize, hfull]

end Broker

/-- What holds of a broker and its log after any calls. -/
structure Session.Sound (session : Session) : Prop where
  tidy : session.broker.Tidy
  run : Run session.log session.broker.pending

theorem pending_insert (broker : ChannelBroker) (channel : String) (mailbox : List Bytes) :
    ({ broker with mailboxes := Table.insert broker.mailboxes channel mailbox } :
      ChannelBroker).pending = Function.update broker.pending channel mailbox := by
  funext place
  by_cases hplace : place = channel
  · subst hplace
    simp [ChannelBroker.pending]
  · simp [ChannelBroker.pending, hplace]

theorem pending_erase (broker : ChannelBroker) (channel : String) :
    ({ broker with mailboxes := Table.erase broker.mailboxes channel } :
      ChannelBroker).pending = Function.update broker.pending channel [] := by
  funext place
  by_cases hplace : place = channel
  · subst hplace
    simp [ChannelBroker.pending]
  · simp [ChannelBroker.pending, hplace]

theorem Session.Sound.publish {session : Session} (h : session.Sound) (channel : String)
    (message : Bytes) : (session.call (.publish channel message)).Sound := by
  by_cases hsize : session.broker.messageMaxBytes < message.length
  · simpa [Session.call, publish_tooLarge hsize] using h
  · by_cases hfull : session.broker.mailboxCapacity ≤ (session.broker.pending channel).length
    · simpa [Session.call, publish_full hsize hfull] using h
    · simp only [Session.call, publish_sent hsize hfull]
      refine ⟨h.tidy.insert (by simp) (by simp; omega), ?_⟩
      rw [pending_insert]
      exact h.run.step (.sent _ _ _)

/-- What is received is the front of what waits, whether its mailbox is kept or dropped. -/
theorem Session.Sound.tryReceive {session : Session} (h : session.Sound) (channel : String) :
    (session.call (.tryReceive channel)).Sound := by
  cases hlookup : session.broker.mailboxes.lookup channel with
  | none => simpa [Session.call, ChannelBroker.tryReceive, hlookup] using h
  | some mailbox =>
    obtain ⟨hholds, hbound⟩ := h.tidy.lookup hlookup
    obtain ⟨message, rest, rfl⟩ := List.exists_cons_of_ne_nil hholds
    have hfront : session.broker.pending channel = message :: rest := by
      simp [ChannelBroker.pending, hlookup]
    have hstep := h.run.step (.taken _ channel message rest hfront)
    by_cases hrest : rest = []
    · subst hrest
      have hcall : session.call (.tryReceive channel) =
          { broker :=
              { session.broker with mailboxes := Table.erase session.broker.mailboxes channel },
            log := session.log ++ [.taken channel message] } := by
        simp [Session.call, ChannelBroker.tryReceive, hlookup]
      rw [hcall]
      refine ⟨h.tidy.erase, ?_⟩
      rw [pending_erase]
      exact hstep
    · have hcall : session.call (.tryReceive channel) =
          { broker :=
              { session.broker with
                mailboxes := Table.insert session.broker.mailboxes channel rest },
            log := session.log ++ [.taken channel message] } := by
        simp [Session.call, ChannelBroker.tryReceive, hlookup, hrest]
      rw [hcall]
      refine ⟨h.tidy.insert hrest (by simp at hbound ⊢; omega), ?_⟩
      rw [pending_insert]
      exact hstep

theorem Session.Sound.call {session : Session} (h : session.Sound) (call : Call) :
    (session.call call).Sound := by
  cases call with
  | publish channel message => exact h.publish channel message
  | tryReceive channel => exact h.tryReceive channel

theorem Session.Sound.calls {session : Session} (h : session.Sound) (calls : List Call) :
    (calls.foldl Session.call session).Sound := by
  induction calls generalizing session with
  | nil => exact h
  | cons call rest ih => exact ih (h.call call)

/-- No call changes the limits. -/
theorem call_limits (session : Session) (call : Call) :
    (session.call call).broker.messageMaxBytes = session.broker.messageMaxBytes ∧
      (session.call call).broker.mailboxCapacity = session.broker.mailboxCapacity := by
  cases call with
  | publish channel message =>
    by_cases hsize : session.broker.messageMaxBytes < message.length
    · simp [Session.call, publish_tooLarge hsize]
    · by_cases hfull : session.broker.mailboxCapacity ≤ (session.broker.pending channel).length
      · simp [Session.call, publish_full hsize hfull]
      · simp [Session.call, publish_sent hsize hfull]
  | tryReceive channel =>
    cases hlookup : session.broker.mailboxes.lookup channel with
    | none => simp [Session.call, ChannelBroker.tryReceive, hlookup]
    | some mailbox =>
      simp only [Session.call, ChannelBroker.tryReceive, hlookup]
      cases mailbox.head? <;> cases mailbox.tail.isEmpty <;> simp

theorem calls_limits (session : Session) (calls : List Call) :
    (calls.foldl Session.call session).broker.messageMaxBytes = session.broker.messageMaxBytes ∧
      (calls.foldl Session.call session).broker.mailboxCapacity =
        session.broker.mailboxCapacity := by
  induction calls generalizing session with
  | nil => simp
  | cons call rest ih =>
    obtain ⟨hmessage, hcapacity⟩ := call_limits session call
    obtain ⟨hmessage', hcapacity'⟩ := ih (session.call call)
    exact ⟨hmessage'.trans hmessage, hcapacity'.trans hcapacity⟩

theorem sound_new (messageMaxBytes mailboxCapacity : Nat) :
    (⟨.new messageMaxBytes mailboxCapacity, []⟩ : Session).Sound :=
  ⟨⟨List.nodup_nil, nofun, nofun⟩, .start⟩

/-- Everything waiting, over all channels. -/
def ChannelBroker.undelivered (broker : ChannelBroker) : Nat :=
  (broker.mailboxes.map fun entry => entry.2.length).sum

theorem entries_le (mailboxes : List (String × List Bytes))
    (h : ∀ channel mailbox, (channel, mailbox) ∈ mailboxes → mailbox ≠ []) :
    mailboxes.length ≤ (mailboxes.map fun entry => entry.2.length).sum := by
  induction mailboxes with
  | nil => simp
  | cons entry rest ih =>
    have hrest := ih fun channel mailbox hmem => h channel mailbox (by simp [hmem])
    have hentry : 0 < entry.2.length :=
      List.length_pos_iff.mpr (h entry.1 entry.2 (by simp))
    simp
    omega

theorem ChannelBroker.Tidy.pending_le {broker : ChannelBroker} (h : broker.Tidy)
    (channel : String) : (broker.pending channel).length ≤ broker.mailboxCapacity := by
  cases hlookup : broker.mailboxes.lookup channel with
  | none => simp [ChannelBroker.pending, hlookup]
  | some mailbox => simpa [ChannelBroker.pending, hlookup] using (h.lookup hlookup).2

/-- What a Component's host does to the broker, the broker's own call does, or nothing. -/
theorem host_publish (host : ComponentHost) (broker : ChannelBroker) (channel : String)
    (message : Bytes) : (host.publish broker channel message).2 = broker ∨
      (host.publish broker channel message).2 = (broker.publish channel message).2 := by
  cases host with
  | channelPublish channels =>
    simp only [ComponentHost.publish]
    split
    · exact .inr rfl
    · exact .inl rfl
  | channelSubscribe channels => exact .inl rfl
  | other => exact .inl rfl

theorem host_tryReceive (host : ComponentHost) (broker : ChannelBroker) (channel : String) :
    (host.tryReceive broker channel).2 = broker ∨
      (host.tryReceive broker channel).2 = (broker.tryReceive channel).2 := by
  cases host with
  | channelSubscribe channels =>
    simp only [ComponentHost.tryReceive]
    split
    · exact .inr rfl
    · exact .inl rfl
  | channelPublish channels => exact .inl rfl
  | other => exact .inl rfl

/-- After any calls the messages received on a channel begin the messages published on it,
the rest wait in order, and what is kept is bounded. -/
theorem broker_delivers_in_order (messageMaxBytes mailboxCapacity : Nat) (calls : List Call) :
    let session := Session.after (.new messageMaxBytes mailboxCapacity) calls
    (session.broker.messageMaxBytes = max messageMaxBytes 1 ∧
      session.broker.mailboxCapacity = max mailboxCapacity 1) ∧
    (∀ channel, takenFrom channel session.log <+: sentOn channel session.log ∧
      sentOn channel session.log =
        takenFrom channel session.log ++ session.broker.pending channel) ∧
    (∀ channel message,
      ((∃ error, (session.broker.publish channel message).1 = .error error) ↔
        session.broker.messageMaxBytes < message.length ∨
          session.broker.mailboxCapacity ≤ (session.broker.pending channel).length) ∧
      ∀ error, (session.broker.publish channel message).1 = .error error →
        (session.broker.publish channel message).2 = session.broker) ∧
    (∀ channel, (session.broker.pending channel).length ≤ session.broker.mailboxCapacity) ∧
    (∀ channel mailbox, (channel, mailbox) ∈ session.broker.mailboxes → mailbox ≠ []) ∧
    session.broker.mailboxes.length ≤ session.broker.undelivered := by
  intro session
  have hsound : session.Sound := (sound_new messageMaxBytes mailboxCapacity).calls calls
  refine ⟨calls_limits _ calls, ?_, publish_fails session.broker, hsound.tidy.pending_le, hsound.tidy.holds,
    entries_le _ hsound.tidy.holds⟩
  intro channel
  have hfifo := hsound.run.fifo channel
  exact ⟨⟨_, hfifo.symm⟩, hfifo⟩

end HologramLive.Channel
