import SocialApp.Notifications.App
import SocialApp.ChatScreen.Cubit

/-! # Push notifications between devices

The devices, the token documents `users/u/token/token` on the server, and FCM.  A device
stores its token under the user that is logged in when the list of the HomeScreen is
built.  A ChatCubit looks the token of its receiver up at each build of its screen, and
posts its notifications to the token that the last lookup brought. -/

namespace SocialApp

/-- `NotificationModel.toJson`. -/
def NotificationModel.toJson (m : NotificationModel) : Json := fun key =>
  if key = "body" then some (.string m.body)
  else if key = "title" then some (.string m.title)
  else none

namespace Push

/-- FCM's tokens.  Each is one device's, and what stands in the token documents when a
token is missing is no device's. -/
structure Fcm where
  device : String → Option Nat
  empty : device "" = none
  null : device "null" = none

/-- The body of the request of `DioHelper.setData`. -/
structure Body where
  to_ : Option String
  notification : Json
  data : Json

/-- The message that the receiving device gets. -/
def Body.message (body : Body) : Notifications.RemoteMessage :=
  { notification :=
      some { title := body.notification.string "title", body := body.notification.string "body" }
    data := body.data }

end Push

/-- `NotificationChatModel.toJson`. -/
def NotificationChatModel.toJson (m : NotificationChatModel) : Push.Body :=
  { to_ := m.to_, notification := m.notification.toJson, data := m.data.toJson }

namespace Push

/-- A device: the app on it, the global `token`, and the number of its process. -/
structure Device where
  app : Notifications
  token : Option String
  process : Nat

/-- The ChatCubit of a ChatScreen, in a process of a device. -/
structure Chat where
  device : Nat
  process : Nat
  receiverId : Option String
  cubit : Chats.ChatCubit

/-- What is on its way.  A lookup is `read` once the server has read the document, which
may be missing. -/
inductive Pending
  | setToken (uid token : Option String)
  | lookup (chat : Nat) (read : Option (Option (Option String)))
  | post (body : Body)

/-- What a step does besides changing the state.  `registered` and `posted` record the
token writes and the notifications with the users they come from. -/
inductive Effect
  | app (d : Nat) (x : Notifications.Effect)
  | registered (d : Nat) (uid token : Option String)
  | posted (d : Nat) (uid : Option String) (model : LoginModel) (data : NotificationChatModel)
  | throws (e : ChatScreen.Thrown)

end Push

structure Push where
  devices : Nat → Push.Device
  tokens : String → Option (Option String)
  chats : List Push.Chat
  inFlight : List Push.Pending

namespace Push

/-- No device has been used. -/
def init : Push :=
  { devices := fun _ => { app := Notifications.init none, token := some "", process := 0 }
    tokens := fun _ => none, chats := [], inFlight := [] }

/-- The state when the `k`-th of what is on its way has arrived. -/
def landed (s : Push) (k : Nat) : Push := { s with inFlight := s.inFlight.eraseIdx k }

def await (s : Push) (p : Pending) : Push := { s with inFlight := s.inFlight ++ [p] }

def setDevice (d : Nat) (x : Device) (s : Push) : Push :=
  { s with devices := fun d' => if d' = d then x else s.devices d' }

theorem setDevice_self (d : Nat) (x : Device) (s : Push) : (s.setDevice d x).devices d = x :=
  if_pos rfl

theorem setDevice_ne {d d' : Nat} (h : d' ≠ d) (x : Device) (s : Push) :
    (s.setDevice d x).devices d' = s.devices d' :=
  if_neg h

def setApp (d : Nat) (r : Notifications × List Notifications.Effect) (s : Push) :
    Push × List Effect :=
  (s.setDevice d { s.devices d with app := r.1 }, r.2.map (.app d))

/-- The app starts: the notification on display is the system's, and stays. -/
def restart (d : Nat) (uId : Option String) (s : Push) : Push :=
  let device := s.devices d
  s.setDevice d
    { app := { Notifications.init uId with displayed := device.app.displayed }
      token := some "", process := device.process + 1 }

/-- `setDeviceToken`. -/
def setDeviceToken (d : Nat) (s : Push) : Push × List Effect :=
  let device := s.devices d
  (s.await (.setToken device.app.uId device.token),
    [.registered d device.app.uId device.token])

/-- The server carries a token write out.  Without a user the document gets an id of its
own, and no user's is written. -/
def store (uid token : Option String) (s : Push) : Push :=
  match uid with
  | some u => { s with tokens := fun u' => if u' = u then some token else s.tokens u' }
  | none => s

/-- The document of the lookup for a receiver; without one there is no such document. -/
def document (receiverId : Option String) (s : Push) : Option (Option String) :=
  receiverId.bind s.tokens

/-- The server reads the document of the lookup at `k`. -/
def readDocument (k c : Nat) (chat : Chat) (s : Push) : Push :=
  { s with inFlight := s.inFlight.set k (.lookup c (some (s.document chat.receiverId))) }

/-- The ChatScreen on top of the stack creates its cubit. -/
def openChat (d : Nat) (s : Push) : Option Push :=
  match (s.devices d).app.routes with
  | .chat _ _ receiverId _ :: _ =>
    some { s with chats := s.chats ++
      [{ device := d, process := (s.devices d).process, receiverId
         cubit := { model := none, receiverDeviceToken := none } }] }
  | _ => none

/-- The cubit of a process that is running. -/
def running (s : Push) (c : Nat) : Option Chat :=
  match s.chats[c]? with
  | some chat => if chat.process = (s.devices chat.device).process then some chat else none
  | none => none

def setCubit (c : Nat) (chat : Chat) (cubit : Chats.ChatCubit) (s : Push) : Push :=
  { s with chats := s.chats.set c { chat with cubit } }

/-- The builder of a ChatScreen: `getUserData`, and then `getUserToken`. -/
def buildChat (c : Nat) (chat : Chat) (model : Option LoginModel) (s : Push) : Push :=
  (s.setCubit c chat { chat.cubit with model }).await (.lookup c none)

/-- The `then` of `getUserToken`, which throws on a document that is missing. -/
def tokenThen (c : Nat) (chat : Chat) (read : Option (Option String)) (s : Push) : Push :=
  match read with
  | none => s
  | some v =>
    s.setCubit c chat { chat.cubit with receiverDeviceToken := some (ChatScreen.toText v) }

/-- `sendNotification`, by the send button or by the success handler of an image. -/
def sendNotification (chat : Chat) (image text : String) (s : Push) : Push × List Effect :=
  let uId := (s.devices chat.device).app.uId
  match chat.cubit.model, Chats.sendNotification image chat.receiverId text uId chat.cubit with
  | some model, some data =>
    (s.await (.post data.toJson), [.posted chat.device uId model data])
  | _, _ => (s, [.throws .model])

/-- A message arrives at a device, in the foreground or for the `background` handler. -/
def deliver (d : Nat) (body : Body) (background shared : Bool) (s : Push) :
    Push × List Effect :=
  let app := (s.devices d).app
  s.setApp d (if background then app.backHandler shared body.message
    else app.onMessage body.message)

inductive Event
  /-- Something happens in the app other than that a message arrives. -/
  | app (d : Nat) (e : Notifications.Event)
  | restart (d : Nat) (uId : Option String)
  /-- `FirebaseMessaging.getToken` answers. -/
  | getToken (d : Nat) (value : Option String)
  /-- The list of the HomeScreen is built. -/
  | buildHome (d : Nat)
  | openChat (d : Nat)
  | buildChat (c : Nat) (model : Option LoginModel)
  /-- The send button, with a text. -/
  | sendText (c : Nat) (text : String)
  /-- The sender's copy of an image message has been written. -/
  | sendImage (c : Nat) (image : String)
  /-- The server carries the `k`-th token write out. -/
  | stored (k : Nat)
  /-- The server reads the document of the `k`-th lookup. -/
  | read (k : Nat)
  /-- The `k`-th lookup answers. -/
  | found (k : Nat)
  /-- FCM delivers the `k`-th message. -/
  | delivered (k : Nat) (background shared : Bool)
  /-- The `k`-th write, lookup or message gets lost. -/
  | lost (k : Nat)

/-- The event brings no message. -/
def ofApp : Notifications.Event → Bool
  | .onMessage _ => false
  | .onBackgroundMessage _ => false
  | _ => true

def step (fcm : Fcm) (s : Push) : Event → Option (Push × List Effect)
  | .app d e =>
    if ofApp e then (Notifications.step false (s.devices d).app e).map (s.setApp d) else none
  | .restart d uId => some (s.restart d uId, [])
  | .getToken d value =>
    if value.all fun token => fcm.device token = some d then
      some (s.setDevice d { s.devices d with token := value }, [])
    else none
  | .buildHome d => some (s.setDeviceToken d)
  | .openChat d => (s.openChat d).map fun s' => (s', [])
  | .buildChat c model => (s.running c).map fun chat => (s.buildChat c chat model, [])
  | .sendText c text =>
    if text = "" then none else (s.running c).map fun chat => s.sendNotification chat "" text
  | .sendImage c image => (s.running c).map fun chat => s.sendNotification chat image ""
  | .stored k =>
    match s.inFlight[k]? with
    | some (.setToken uid token) => some ((s.landed k).store uid token, [])
    | _ => none
  | .read k =>
    match s.inFlight[k]? with
    | some (.lookup c none) =>
      (s.chats[c]?).map fun chat => (s.readDocument k c chat, [])
    | _ => none
  | .found k =>
    match s.inFlight[k]? with
    | some (.lookup c (some read)) =>
      (s.running c).map fun chat => ((s.landed k).tokenThen c chat read, [])
    | _ => none
  | .delivered k background shared =>
    match s.inFlight[k]? with
    | some (.post body) =>
      (body.to_.bind fcm.device).map fun d => (s.landed k).deliver d body background shared
    | _ => none
  | .lost k =>
    match s.inFlight[k]? with
    | some _ => some (s.landed k, [])
    | none => none

def machine (fcm : Fcm) : Reactive.Machine Push Event Effect := ⟨step fcm⟩

end Push
end SocialApp
