import SocialApp.Models
import SocialApp.Reactive.Machine
import SocialApp.Reactive.Order
import SocialApp.Time.DateTime
import Mathlib.Data.Prod.Lex

/-! # Chats

The devices of any number of users, each with ChatCubits that send messages and
listen to a mailbox, and the mailboxes `users/a/chats/b/messages` on the server.  The
clock is the one that all devices agree on, and each reading of it is a local time
at the UTC offset that the device has then.  A call of `sendMessage` or
`sendImageToChat` writes two copies one after the other, so other devices can come
between its two readings. -/

namespace SocialApp

open Reactive (orderBy)
open Time (DateTime)

namespace Chats

inductive ChatCubitStates
  | sendMessageLoading
  | sendMessageSuccess
  | sendMessageError
  | getMessagesSuccess
deriving DecidableEq

/-- The fields of a ChatCubit that its handlers read. -/
structure ChatCubit where
  model : Option LoginModel
  receiverDeviceToken : Option String

/-! ## Sending -/

/-- What a call sends, with the global `uId` that it reads. -/
structure Send where
  uId : String
  receiverId : String
  text : String
  image : String
  /-- The success handler sends a notification. -/
  notifies : Bool
deriving DecidableEq

def sendMessage (uId message receiverId : String) : Send :=
  { uId, receiverId, text := message, image := "", notifies := false }

def sendImageToChat (uId image receiverId : String) : Send :=
  { uId, receiverId, text := "", image, notifies := true }

/-- The owner of the mailbox that a copy goes to: `sent` marks the copy for the
sender. -/
def Send.owner (x : Send) (sent : Bool) : String := if sent then x.uId else x.receiverId

def Send.peer (x : Send) (sent : Bool) : String := if sent then x.receiverId else x.uId

def Send.message (x : Send) (now : DateTime) : MessageModel :=
  { dateTime := some now.toString, text := some x.text, receiverUid := some x.receiverId,
    senderUid := some x.uId, image := some x.image }

/-- `DateTime.now()`: the clock, the UTC offset of the device, and its local time. -/
structure Reading where
  utc : Nat
  zone : Int
  now : DateTime
  local_eq : (now.micros : Int) = utc + zone

/-- A reading exists while the local time is in a year of four digits. -/
def Reading.at (utc : Nat) (zone : Int) : Option Reading :=
  if h : 0 ≤ (utc : Int) + zone ∧
      (utc : Int) + zone < ((Time.yearStart 10000 * Time.dayLength : Nat) : Int) then
    some { utc, zone, now := ⟨((utc : Int) + zone).toNat, by omega⟩
           local_eq := Int.toNat_of_nonneg h.1 }
  else none

/-- A copy of a message, with the id that `add` draws for its document.  The calls
are numbered, and `send` is the number of the one that writes it. -/
structure Copy where
  send : Nat
  call : Send
  sent : Bool
  reading : Reading
  id : String

def Copy.owner (c : Copy) : String := c.call.owner c.sent

def Copy.peer (c : Copy) : String := c.call.peer c.sent

def Copy.message (c : Copy) : MessageModel := c.call.message c.reading.now

/-- What `orderBy('dateTime')` compares: the field, and the ids where it is equal. -/
def Copy.key (c : Copy) : String ×ₗ String := toLex (c.message.dateTime.getD "", c.id)

/-- `sendNotification`, which throws without a model or its name. -/
def sendNotification (image : String) (receiverId : Option String) (text : String)
    (uId : Option String) (cubit : ChatCubit) : Option NotificationChatModel :=
  cubit.model.bind fun model => model.name.map fun name =>
    { to_ := cubit.receiverDeviceToken
      notification :=
        { title := "message from " ++ name, body := if image ≠ "" then "has an image" else text }
      data := { uid := uId, image := model.image, name := some name, receiverUid := receiverId,
                notificationImage := some (if image ≠ "" then image else "") } }

/-- What runs later: the second write of a call, or the handlers of a write that
the server has carried out (`applied`) or not yet. -/
inductive Pending
  | second (n : Nat) (x : Send)
  | write (c : Copy) (applied : Bool)

/-- What a step does besides changing the state.  A state is emitted for a call, or
by the listener of `getMessages`. -/
inductive Effect
  | emit (call : Option Nat) (state : ChatCubitStates)
  | issue (c : Copy)
  | applied (c : Copy)
  | settled (c : Copy) (ok : Bool) (cubit : ChatCubit)
  | setData (data : NotificationChatModel)

/-- A call, and the calls whose message had appeared in a chat list of its sender
when it began. -/
structure Call where
  send : Send
  seen : List Nat

end Chats

/-- The server's mailboxes, the chat lists shown, and the callbacks not yet run.
`calls`, `shown` and `ids` only record what has happened. -/
structure Chats where
  now : Nat
  mailbox : String → String → List Chats.Copy
  chat : String → String → List MessageModel
  inFlight : List Chats.Pending
  calls : List Chats.Call
  shown : String → List Nat
  ids : List String

namespace Chats

def init : Chats :=
  { now := 0, mailbox := fun _ _ => [], chat := fun _ _ => [], inFlight := [], calls := [],
    shown := fun _ => [], ids := [] }

/-- The state when the `k`-th callback starts to run. -/
def landed (s : Chats) (k : Nat) : Chats :=
  { s with inFlight := s.inFlight.eraseIdx k }

/-- A call begins: it emits the loading state and writes the receiver's copy to
`users/receiverId/chats/uId/messages`. -/
def start (x : Send) (zone : Int) (id : String) (s : Chats) : Option (Chats × List Effect) :=
  if id ∈ s.ids then none
  else (Reading.at s.now zone).map fun reading =>
    let c : Copy := { send := s.calls.length, call := x, sent := false, reading, id }
    ({ s with calls := s.calls ++ [{ send := x, seen := s.shown x.uId }], ids := s.ids ++ [id],
              inFlight := s.inFlight ++ [.write c false, .second s.calls.length x] },
      [.emit (some s.calls.length) .sendMessageLoading, .issue c])

/-- The call goes on and writes the sender's copy to
`users/uId/chats/receiverId/messages`. -/
def goOn (k n : Nat) (x : Send) (zone : Int) (id : String) (s : Chats) :
    Option (Chats × List Effect) :=
  if id ∈ s.ids then none
  else (Reading.at s.now zone).map fun reading =>
    let c : Copy := { send := n, call := x, sent := true, reading, id }
    ({ s with ids := s.ids ++ [id], inFlight := s.inFlight.set k (.write c false) }, [.issue c])

/-- The server adds the document of a copy to its mailbox. -/
def add (c : Copy) (s : Chats) : Chats :=
  { s with mailbox := fun a b =>
      if a = c.owner ∧ b = c.peer then s.mailbox a b ++ [c] else s.mailbox a b }

/-- The handlers of a write that succeeded (`ok`) or failed.  Only the sender's copy
has a success handler, and what that throws ends in the error handler after it. -/
def writeThen (c : Copy) (ok : Bool) (cubit : ChatCubit) (uId : Option String) : List Effect :=
  match ok, c.sent with
  | false, _ => [.emit (some c.send) .sendMessageError]
  | true, false => []
  | true, true =>
    .emit (some c.send) .sendMessageSuccess ::
      if c.call.notifies then
        match sendNotification c.call.image (some c.call.receiverId) "" uId cubit with
        | some data => [.setData data]
        | none => [.emit (some c.send) .sendMessageError]
      else []

/-! ## Reading -/

def unappliedOf : Pending → Option Copy
  | .write c false => some c
  | _ => none

/-- The documents for a mailbox that the server has not added yet. -/
def waiting (owner peer : String) (s : Chats) : List Copy :=
  (s.inFlight.filterMap unappliedOf).filter fun c => owner = c.owner ∧ peer = c.peer

/-- The mailbox as a device shows it: the first `k` documents that the server has added,
and those with the ids in `own`, which the device has added itself.  It shows these at
once, and until their writes fail. -/
def localView (owner peer : String) (k : Nat) (own : List String) (s : Chats) : List Copy :=
  (s.mailbox owner peer).take k ++
    ((s.mailbox owner peer).drop k ++ s.waiting owner peer).filter fun c => c.id ∈ own

/-- The listener of `getMessages` on the documents of a snapshot. -/
def onMessages (owner peer : String) (docs : List Copy) (s : Chats) : Chats × List Effect :=
  let event := orderBy Copy.key docs
  ({ s with
      chat := fun a b => if a = owner ∧ b = peer then event.map Copy.message else s.chat a b,
      shown := Function.update s.shown owner (s.shown owner ++ event.map Copy.send) },
    [.emit none .getMessagesSuccess])

inductive Side
  | sender
  | receiver
deriving DecidableEq

/-- The side of the screen on which a message is drawn. -/
def messageSide (uId : Option String) (m : MessageModel) : Side :=
  if m.receiverUid ≠ uId then .sender else .receiver

/-! ## Events -/

inductive Event
  /-- Time passes. -/
  | tick (d : Nat)
  | sendMessage (uId message receiverId : String) (zone : Int) (id : String)
  | sendImageToChat (uId image receiverId : String) (zone : Int) (id : String)
  /-- The call of the `k`-th callback goes on to its second write. -/
  | second (k : Nat) (zone : Int) (id : String)
  /-- The server carries out the `k`-th write. -/
  | applied (k : Nat)
  /-- The `k`-th write settles: after it was carried out, or without. -/
  | settled (k : Nat) (ok : Bool) (cubit : ChatCubit) (uId : Option String)
  /-- A snapshot of the mailbox arrives at a device, which has seen `k` of the server's
  documents and has added those in `own`. -/
  | snapshot (owner peer : String) (k : Nat) (own : List String)

def step (s : Chats) : Event → Option (Chats × List Effect)
  | .tick d => some ({ s with now := s.now + d }, [])
  | .sendMessage uId message receiverId zone id =>
    s.start (Chats.sendMessage uId message receiverId) zone id
  | .sendImageToChat uId image receiverId zone id =>
    s.start (Chats.sendImageToChat uId image receiverId) zone id
  | .second k zone id =>
    match s.inFlight[k]? with
    | some (.second n x) => s.goOn k n x zone id
    | _ => none
  | .applied k =>
    match s.inFlight[k]? with
    | some (.write c false) =>
      some (({ s with inFlight := s.inFlight.set k (.write c true) } : Chats).add c, [.applied c])
    | _ => none
  | .settled k ok cubit uId =>
    match s.inFlight[k]? with
    | some (.write c applied) =>
      if ok = applied then
        some (s.landed k, .settled c ok cubit :: writeThen c ok cubit uId)
      else none
    | _ => none
  | .snapshot owner peer k own =>
    some (s.onMessages owner peer (s.localView owner peer k own))

def machine : Reactive.Machine Chats Event Effect := ⟨step⟩

end Chats
end SocialApp
