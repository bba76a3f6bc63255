import SocialApp.Chats.Cubit

/-! # A ChatScreen and its ChatCubit

The fields that overlapping picks, sends and token lookups of one cubit share.  A
callback runs to its end without interruption, and a `then` after an `await` is one
more callback. -/

namespace SocialApp
namespace ChatScreen

inductive ChatCubitStates
  | uploadingMessageImage
  | sendMessageLoading
  | sendMessageSuccess
  | sendMessageError
deriving DecidableEq

/-- A picked file: its path, and the last segment of that. -/
structure XFile where
  path : String
  name : String
deriving DecidableEq

/-- A call of `sendMessage` or `sendImageToChat`; the calls of the cubit are numbered.
The success handler of an image `notifies`. -/
structure Call where
  number : Nat
  uId : Option String
  receiverId : String
  text : String
  image : String
  notifies : Bool
deriving DecidableEq

def Call.message (x : Call) (now : String) : MessageModel :=
  { dateTime := some now, text := some x.text, receiverUid := some x.receiverId,
    senderUid := x.uId, image := some x.image }

/-- How a pick ends: not permitted, cancelled, failed at one of its stages, or with a
download URL. -/
inductive End
  | denied
  | cancelled
  | pickerFailed
  | uploadFailed
  | urlFailed
  | obtained (url : String)
deriving DecidableEq

/-- What a callback waits for, with the variables it has captured.  The picks are
numbered, and `n` is the number of the one that a callback belongs to.  Of the writes
of a call `sent` marks the copy for the sender. -/
inductive Pending
  | permission (n : Nat) (camera : Bool) (receiverId : String)
  | picker (n : Nat) (receiverId : String)
  | putFile (n : Nat) (receiverId : String)
  | downloadURL (n : Nat) (receiverId : String)
  | token (receiverUid : String)
  | write (call : Call) (sent : Bool)
deriving DecidableEq

inductive Thrown
  /-- `fileMessageImage.path` on null. -/
  | fileMessageImage
  /-- `model.name` on null, or `'message from ' + null`. -/
  | model
deriving DecidableEq

/-- What a step does besides changing the state.  `picked`, `ended`, `started` and
`settled` record calls and answers. -/
inductive Effect
  | emit (state : ChatCubitStates)
  | picked (receiverId : String)
  | ended (n : Nat) (outcome : End)
  | pickImage (camera : Bool)
  | putFile (child : String) (file : XFile)
  | started (call : Call) (cubit : Chats.ChatCubit)
  | add (owner peer : Option String) (message : MessageModel)
  | settled (call : Call) (sent ok : Bool) (cubit : Chats.ChatCubit)
  | setData (call : Call) (data : NotificationChatModel)
  | throws (e : Thrown)

end ChatScreen

/-- The fields of the cubit, the global `uId`, and the token documents on the server:
there may be none, and what it stores may be null.  `picks` and `calls` count, and
`brought` keeps what the last token lookup that found its document has read. -/
structure ChatScreen where
  uId : Option String
  cubit : Chats.ChatCubit
  selectedMessageImage : Option ChatScreen.XFile
  fileMessageImage : Option ChatScreen.XFile
  messageImage : Option String
  stored : String → Option (Option String)
  brought : Option (Option String)
  picks : Nat
  calls : Nat
  inFlight : List ChatScreen.Pending

namespace ChatScreen

def init (uId : Option String) (stored : String → Option (Option String)) : ChatScreen :=
  { uId, cubit := { model := none, receiverDeviceToken := none }, selectedMessageImage := none,
    fileMessageImage := none, messageImage := none, stored, brought := none, picks := 0,
    calls := 0, inFlight := [] }

/-- The state when the `k`-th callback starts to run. -/
def landed (s : ChatScreen) (k : Nat) : ChatScreen :=
  { s with inFlight := s.inFlight.eraseIdx k }

def await (s : ChatScreen) (ps : List Pending) : ChatScreen :=
  { s with inFlight := s.inFlight ++ ps }

/-! ## The token of the receiver -/

def getUserData (userModel : Option LoginModel) (s : ChatScreen) : ChatScreen :=
  { s with cubit := { s.cubit with model := userModel } }

def getUserToken (receiverUid : String) (s : ChatScreen) : ChatScreen :=
  s.await [.token receiverUid]

/-- `value.toString()`. -/
def toText (value : Option String) : String := value.getD "null"

/-- The `then` of the lookup.  A document that is missing makes it throw. -/
def tokenThen (value : Option (Option String)) (s : ChatScreen) : ChatScreen :=
  match value with
  | none => s
  | some v =>
    { s with cubit := { s.cubit with receiverDeviceToken := some (toText v) }, brought := some v }

/-- The builder of the screen. -/
def build (userModel : Option LoginModel) (receiverId : String) (s : ChatScreen) : ChatScreen :=
  (s.getUserData userModel).getUserToken receiverId

/-! ## Sending -/

/-- The two writes of a call: `users/receiverId/chats/uId/messages`, and then
`users/uId/chats/receiverId/messages`. -/
def send (call : Call) (now₁ now₂ : String) (s : ChatScreen) : ChatScreen × List Effect :=
  (({ s with calls := s.calls + 1 } : ChatScreen).await [.write call false, .write call true],
    [.started call s.cubit, .emit .sendMessageLoading,
      .add (some call.receiverId) call.uId (call.message now₁),
      .add call.uId (some call.receiverId) (call.message now₂)])

def sendMessage (message receiverId now₁ now₂ : String) (s : ChatScreen) :
    ChatScreen × List Effect :=
  s.send { number := s.calls, uId := s.uId, receiverId, text := message, image := ""
           notifies := false } now₁ now₂

def sendImageToChat (image receiverId now₁ now₂ : String) (s : ChatScreen) :
    ChatScreen × List Effect :=
  s.send { number := s.calls, uId := s.uId, receiverId, text := "", image, notifies := true }
    now₁ now₂

/-- `sendNotification` for a call, or what follows when it throws. -/
def sendNotification (call : Call) (thrown : Effect) (s : ChatScreen) : Effect :=
  match Chats.sendNotification call.image (some call.receiverId) call.text s.uId s.cubit with
  | some data => .setData call data
  | none => thrown

/-- The send button: a text is sent, and then its notification. -/
def sendButton (message receiverId now₁ now₂ : String) (s : ChatScreen) :
    ChatScreen × List Effect :=
  if message = "" then (s, [])
  else
    let call : Call := { number := s.calls, uId := s.uId, receiverId, text := message, image := ""
                         notifies := false }
    let r := s.sendMessage message receiverId now₁ now₂
    (r.1, r.2 ++ [s.sendNotification call (.throws .model)])

/-- The handlers of a write.  Only the sender's copy has a success handler, and what
that throws ends in the error handler after it. -/
def writeThen (call : Call) (sent ok : Bool) (s : ChatScreen) : List Effect :=
  .settled call sent ok s.cubit ::
    match ok, sent with
    | false, _ => [.emit .sendMessageError]
    | true, false => []
    | true, true =>
      .emit .sendMessageSuccess ::
        if call.notifies then [s.sendNotification call (.emit .sendMessageError)] else []

/-! ## Images -/

def pickMessageImage (camera : Bool) (receiverId : String) (s : ChatScreen) :
    ChatScreen × List Effect :=
  (({ s with picks := s.picks + 1 } : ChatScreen).await [.permission s.picks camera receiverId],
    [.picked receiverId])

def permissionThen (n : Nat) (camera : Bool) (receiverId : String) (granted : Bool)
    (s : ChatScreen) : ChatScreen × List Effect :=
  if granted then (s.await [.picker n receiverId], [.pickImage camera])
  else (s, [.ended n .denied])

def uploadMessageImage (n : Nat) (receiverId : String) (s : ChatScreen) :
    ChatScreen × List Effect :=
  match s.fileMessageImage with
  | none => (s, [.emit .uploadingMessageImage, .throws .fileMessageImage])
  | some file =>
    (s.await [.putFile n receiverId],
      [.emit .uploadingMessageImage, .putFile ("messages/" ++ file.name) file])

/-- The picker returns, with null when it was cancelled. -/
def pickerThen (n : Nat) (receiverId : String) (image : Option XFile) (s : ChatScreen) :
    ChatScreen × List Effect :=
  let s := { s with selectedMessageImage := image }
  match s.selectedMessageImage with
  | some file =>
    ({ s with fileMessageImage := some file } : ChatScreen).uploadMessageImage n receiverId
  | none => (s, [.ended n .cancelled])

/-- The file is uploaded. -/
def putFileThen (n : Nat) (receiverId : String) (s : ChatScreen) : ChatScreen × List Effect :=
  (({ s with fileMessageImage := none } : ChatScreen).await [.downloadURL n receiverId], [])

/-- The URL has arrived. -/
def urlThen (n : Nat) (receiverId url now₁ now₂ : String) (s : ChatScreen) :
    ChatScreen × List Effect :=
  let s := { s with messageImage := some url }
  let r := s.sendImageToChat (toText s.messageImage) receiverId now₁ now₂
  (r.1, .ended n (.obtained url) :: r.2)

/-! ## Events -/

inductive Event
  /-- The screen is built, with the model of SocialHomeCubit. -/
  | build (userModel : Option LoginModel) (receiverId : String)
  | sendButton (message receiverId now₁ now₂ : String)
  | pickMessageImage (camera : Bool) (receiverId : String)
  /-- The request of the `k`-th callback is answered; an error counts as a denial. -/
  | permission (k : Nat) (granted : Bool)
  | picker (k : Nat) (image : Option XFile)
  | pickerFailed (k : Nat)
  | putFile (k : Nat) (ok : Bool)
  /-- The download URL, or `none` for a failure. -/
  | url (k : Nat) (url : Option String) (now₁ now₂ : String)
  /-- The lookup of the `k`-th callback answers with the value in the document it read,
  with `none` for a read that failed or found no document. -/
  | token (k : Nat) (value : Option (Option String))
  | settled (k : Nat) (ok : Bool)
  /-- A device of `uid` stores its token. -/
  | setDeviceToken (uid : String) (token : Option String)
  | user (uId : Option String)

def step (s : ChatScreen) : Event → Option (ChatScreen × List Effect)
  | .build userModel receiverId => some (s.build userModel receiverId, [])
  | .sendButton message receiverId now₁ now₂ => some (s.sendButton message receiverId now₁ now₂)
  | .pickMessageImage camera receiverId => some (s.pickMessageImage camera receiverId)
  | .permission k granted =>
    match s.inFlight[k]? with
    | some (.permission n camera receiverId) =>
      some ((s.landed k).permissionThen n camera receiverId granted)
    | _ => none
  | .picker k image =>
    match s.inFlight[k]? with
    | some (.picker n receiverId) => some ((s.landed k).pickerThen n receiverId image)
    | _ => none
  | .pickerFailed k =>
    match s.inFlight[k]? with
    | some (.picker n _) => some (s.landed k, [.ended n .pickerFailed])
    | _ => none
  | .putFile k ok =>
    match s.inFlight[k]? with
    | some (.putFile n receiverId) =>
      some (if ok then (s.landed k).putFileThen n receiverId
        else (s.landed k, [.ended n .uploadFailed]))
    | _ => none
  | .url k url now₁ now₂ =>
    match s.inFlight[k]? with
    | some (.downloadURL n receiverId) =>
      some (match url with
        | some url => (s.landed k).urlThen n receiverId url now₁ now₂
        | none => (s.landed k, [.ended n .urlFailed]))
    | _ => none
  | .token k value =>
    match s.inFlight[k]? with
    | some (.token _) => some ((s.landed k).tokenThen value, [])
    | _ => none
  | .settled k ok =>
    match s.inFlight[k]? with
    | some (.write call sent) => some (s.landed k, (s.landed k).writeThen call sent ok)
    | _ => none
  | .setDeviceToken uid token =>
    some ({ s with stored := Function.update s.stored uid (some token) }, [])
  | .user uId => some ({ s with uId }, [])

def machine : Reactive.Machine ChatScreen Event Effect := ⟨step⟩

end ChatScreen
end SocialApp
