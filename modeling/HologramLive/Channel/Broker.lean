import HologramLive.Lib.Table
import HologramLive.Store

namespace HologramLive.Channel
open Lib

def channelMessageMaxBytes : Nat := 64 * 1024

def channelMailboxCapacity : Nat := 64

inductive ChannelError where
  | messageTooLarge
  | mailboxFull
  | stateUnavailable

/-- A FIFO work queue for each canonical channel label. The limits are never zero. -/
structure ChannelBroker where
  messageMaxBytes : Nat
  mailboxCapacity : Nat
  mailboxes : List (String × List Bytes)
  admitsMessages : 0 < messageMaxBytes
  admitsMail : 0 < mailboxCapacity

namespace ChannelBroker

def new (messageMaxBytes mailboxCapacity : Nat) : ChannelBroker where
  messageMaxBytes := max messageMaxBytes 1
  mailboxCapacity := max mailboxCapacity 1
  mailboxes := []
  admitsMessages := Nat.lt_of_lt_of_le Nat.one_pos (Nat.le_max_right ..)
  admitsMail := Nat.lt_of_lt_of_le Nat.one_pos (Nat.le_max_right ..)

def default : ChannelBroker := new channelMessageMaxBytes channelMailboxCapacity

/-- The mailbox of a channel, made empty where there is none. -/
def entry (broker : ChannelBroker) (channel : String) : List Bytes × ChannelBroker :=
  match broker.mailboxes.lookup channel with
  | some mailbox => (mailbox, broker)
  | none => ([], { broker with mailboxes := Table.insert broker.mailboxes channel [] })

/-- A message that is too large does not reach the mailboxes; one that finds its mailbox
full has been given an entry first. -/
def publish (broker : ChannelBroker) (channel : String) (message : Bytes) :
    Except ChannelError Unit × ChannelBroker :=
  if broker.messageMaxBytes < message.length then (.error .messageTooLarge, broker)
  else
    let (mailbox, broker) := broker.entry channel
    if broker.mailboxCapacity ≤ mailbox.length then (.error .mailboxFull, broker)
    else
      (.ok (),
        { broker with mailboxes := Table.insert broker.mailboxes channel (mailbox ++ [message]) })

def tryReceive (broker : ChannelBroker) (channel : String) :
    Except ChannelError (Option Bytes) × ChannelBroker :=
  match broker.mailboxes.lookup channel with
  | none => (.ok none, broker)
  | some mailbox =>
    let rest := mailbox.tail
    if rest.isEmpty then
      (.ok mailbox.head?, { broker with mailboxes := Table.erase broker.mailboxes channel })
    else
      (.ok mailbox.head?, { broker with mailboxes := Table.insert broker.mailboxes channel rest })

end ChannelBroker

/-- What a Component is linked to, with the channels its application was admitted to. -/
inductive ComponentHost where
  | channelPublish (channels : List String)
  | channelSubscribe (channels : List String)
  | other

def describe : ChannelError → String
  | .messageTooLarge => "channel message exceeds the host limit"
  | .mailboxFull => "channel mailbox is full; retry later"
  | .stateUnavailable => "channel broker is unavailable"

namespace ComponentHost

def publish (host : ComponentHost) (broker : ChannelBroker) (channel : String) (message : Bytes) :
    Except String Unit × ChannelBroker :=
  match host with
  | .channelPublish channels =>
    if channels.any fun allowed => allowed = channel then
      let (outcome, broker) := broker.publish channel message
      (outcome.mapError describe, broker)
    else (.error "channel is outside the application's admitted publish set", broker)
  | _ => (.error "channel.publish is not linked for this contract", broker)

def tryReceive (host : ComponentHost) (broker : ChannelBroker) (channel : String) :
    Except String (Option Bytes) × ChannelBroker :=
  match host with
  | .channelSubscribe channels =>
    if channels.any fun allowed => allowed = channel then
      let (outcome, broker) := broker.tryReceive channel
      (outcome.mapError fun _ => "channel broker is unavailable", broker)
    else (.error "channel is outside the application's admitted subscribe set", broker)
  | _ => (.error "channel.subscribe is not linked for this contract", broker)

end ComponentHost

end HologramLive.Channel
