import SocialApp.Models
import SocialApp.Reactive.Machine

/-! # Notifications and the screens they open

The global `uId`, the static fields `ChatScreen.isOpened` and `Notifications.data`, the
navigation stack and the one notification that is displayed.  The handler of background
messages may run in an isolate of its own, with its own static fields. -/

namespace SocialApp
namespace Notifications

/-- A route of the navigation stack; a ChatScreen may show its bottom sheet. -/
inductive Route
  | login
  | layout
  | chat (receiverName receiverImage receiverId : Option String) (sheet : Bool)
  | page
deriving DecidableEq

def Route.isChat : Route → Bool
  | .chat _ _ _ _ => true
  | _ => false

structure RemoteNotification where
  title : Option String
  body : Option String

structure RemoteMessage where
  notification : Option RemoteNotification
  data : Json

/-- What is displayed.  The app does not pass the `payload` on to it. -/
structure NotificationContent where
  title : Option String
  body : Option String
  bigPicture : Option String
  /-- `NotificationLayout.BigPicture`. -/
  bigPictureLayout : Bool
  payload : Data

inductive Effect
  | navigateTo (route : Route)
  | navigateToAndKill (route : Route)
  | removeData (key : String)
  | createNotification (content : NotificationContent)

end Notifications

/-- The ChatScreens that are `leaving` are off the stack, but still built until their
transition ends; the notifications that are `creating` have not been displayed yet. -/
structure Notifications where
  uId : Option String
  isOpened : Bool
  routes : List Notifications.Route
  leaving : Nat
  data : Option Data
  creating : List Notifications.NotificationContent
  displayed : Option Notifications.NotificationContent

namespace Notifications

/-- `checkWhichScreen`. -/
def init (uId : Option String) : Notifications :=
  { uId, isOpened := false, routes := [if uId = none then .login else .layout], leaving := 0
    data := none, creating := [], displayed := none }

/-! ## Navigation -/

/-- A ChatScreen sets `isOpened` when it is built. -/
def navigateTo (route : Route) (s : Notifications) : Notifications × List Effect :=
  ({ s with routes := route :: s.routes, isOpened := s.isOpened || route.isChat },
    [.navigateTo route])

/-- `pushAndRemoveUntil`: the routes below are removed without `onWillPop`. -/
def navigateToAndKill (route : Route) (s : Notifications) : Notifications × List Effect :=
  ({ s with routes := [route], leaving := s.leaving + s.routes.countP Route.isChat },
    [.navigateToAndKill route])

/-- Back navigation asks `onWillPop` of the route on top, and then closes the bottom
sheet if there is one.  The first route stays. -/
def back (s : Notifications) : Notifications × List Effect :=
  match s.routes with
  | .chat receiverName receiverImage receiverId true :: routes =>
    ({ s with
        isOpened := false, routes := .chat receiverName receiverImage receiverId false :: routes },
      [])
  | .chat _ _ _ false :: route :: routes =>
    ({ s with isOpened := false, routes := route :: routes, leaving := s.leaving + 1 }, [])
  | [.chat _ _ _ false] => ({ s with isOpened := false }, [])
  | _ :: route :: routes => ({ s with routes := route :: routes }, [])
  | _ => (s, [])

/-- SocialHomeCubit emits: every ChatScreen that is still there is built again. -/
def rebuild (s : Notifications) : Notifications × List Effect :=
  if s.routes.any Route.isChat || s.leaving ≠ 0 then ({ s with isOpened := true }, []) else (s, [])

/-- The bottom sheet of the ChatScreen on top opens, or closes other than by going back. -/
def setSheet (sheet : Bool) (s : Notifications) : Option (Notifications × List Effect) :=
  match s.routes with
  | .chat receiverName receiverImage receiverId _ :: routes =>
    some ({ s with routes := .chat receiverName receiverImage receiverId sheet :: routes }, [])
  | _ => none

/-- The user opens a chat from the list of users. -/
def openFromUsers (name image uid : Option String) (s : Notifications) :
    Option (Notifications × List Effect) :=
  match s.routes with
  | .layout :: _ => some (s.navigateTo (.chat name image uid false))
  | _ => none

def openChatScreen (data : Data) (s : Notifications) : Notifications × List Effect :=
  if s.uId ≠ data.receiverUid then
    let r := ({ s with uId := none } : Notifications).navigateToAndKill .login
    (r.1, .removeData "uid" :: r.2)
  else s.navigateTo (.chat data.name data.image data.uid false)

/-- `userLogin`. -/
def login (uid : String) (s : Notifications) : Notifications × List Effect :=
  ({ s with uId := some uid } : Notifications).navigateToAndKill .layout

/-- `ProfileCubit.logout`. -/
def logout (s : Notifications) : Notifications × List Effect :=
  let r := ({ s with uId := none } : Notifications).navigateToAndKill .login
  (r.1, .removeData "uid" :: r.2)

/-! ## Messages -/

/-- `Notifications.createNotification`, for a message with the given payload. -/
def createNotification (title body image : Option String) (payload : Data)
    (s : Notifications) : Notifications × List Effect :=
  let content : NotificationContent :=
    { title, body, bigPicture := if image ≠ some "" then image else none
      bigPictureLayout := image ≠ some "", payload }
  ({ s with creating := s.creating ++ [content] }, [.createNotification content])

/-- The notification of a message, which throws when there is none. -/
def notify (m : RemoteMessage) (data : Data) (s : Notifications) :
    Notifications × List Effect :=
  match m.notification with
  | some n => s.createNotification n.title n.body data.notificationImage data
  | none => (s, [])

/-- The listener of `onMessage`. -/
def onMessage (m : RemoteMessage) (s : Notifications) : Notifications × List Effect :=
  let data := Data.fromJson m.data
  let t := { s with data := some data }
  if ¬ s.isOpened then t.notify m data
  else if s.uId ≠ data.receiverUid then t.notify m data
  else (t, [])

/-- `backHandler`; `shared` says whether it runs in the isolate of the app. -/
def backHandler (shared : Bool) (m : RemoteMessage) (s : Notifications) :
    Notifications × List Effect :=
  if m.notification.isSome then
    let data := Data.fromJson m.data
    (if shared then { s with data := some data } else s).notify m data
  else (s, [])

/-- The listener of `actionStream`: the tap takes the notification away, and without
`Notifications.data` reading `receiverUid` throws. -/
def tap (s : Notifications) : Notifications × List Effect :=
  let t := { s with displayed := none }
  match s.data with
  | some data => openChatScreen data t
  | none => (t, [])

/-! ## Events -/

inductive Event
  | openFromUsers (name image uid : Option String)
  /-- Some other screen is opened. -/
  | openPage
  | setSheet (sheet : Bool)
  | back
  /-- The transition of a ChatScreen that is leaving ends. -/
  | gone
  | rebuild
  | login (uid : String)
  | logout
  | onMessage (m : RemoteMessage)
  | onBackgroundMessage (m : RemoteMessage)
  /-- The `k`-th notification is displayed, and replaces the one before. -/
  | displayed (k : Nat)
  /-- The `k`-th notification could not be created. -/
  | notDisplayed (k : Nat)
  | dismissed
  | tap

def step (shared : Bool) (s : Notifications) : Event → Option (Notifications × List Effect)
  | .openFromUsers name image uid => s.openFromUsers name image uid
  | .openPage => some (s.navigateTo .page)
  | .setSheet sheet => s.setSheet sheet
  | .back => some s.back
  | .gone => if s.leaving ≠ 0 then some ({ s with leaving := s.leaving - 1 }, []) else none
  | .rebuild => some s.rebuild
  | .login uid => some (s.login uid)
  | .logout => some s.logout
  | .onMessage m => some (s.onMessage m)
  | .onBackgroundMessage m => some (s.backHandler shared m)
  | .displayed k => s.creating[k]?.map fun content =>
    ({ s with creating := s.creating.eraseIdx k, displayed := some content }, [])
  | .notDisplayed k =>
    s.creating[k]?.map fun _ => ({ s with creating := s.creating.eraseIdx k }, [])
  | .dismissed => some ({ s with displayed := none }, [])
  | .tap => if s.displayed.isSome then some s.tap else none

def machine (shared : Bool) : Reactive.Machine Notifications Event Effect := ⟨step shared⟩

end Notifications
end SocialApp
