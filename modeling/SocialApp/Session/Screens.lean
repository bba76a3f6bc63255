import SocialApp.Models
import SocialApp.Reactive.Machine

/-! # The session and its screens

The global `uId`, the preference `uid` that the next start reads, and the screen: the
LoginScreen, a RegisterScreen above it, or the home layout.  Each form has a cubit of its
own.  What a sign-in or a registration does to the session happens also when its form has
gone, and only the way to the home layout needs the form. -/

namespace SocialApp

/-- The package `shared_preferences`: what its methods do to an instance. -/
structure SharedPreferences (σ : Type) where
  get : String → σ → Option Dynamic
  setBool : String → Bool → σ → σ
  setString : String → String → σ → σ
  remove : String → σ → σ

namespace SharedPreferences

variable {σ : Type}

/-- What is set or removed can be read at once, and no other key is touched. -/
structure Lawful (store : SharedPreferences σ) : Prop where
  get_setString : ∀ key value p key',
    store.get key' (store.setString key value p) =
      if key' = key then some (.string value) else store.get key' p
  get_remove : ∀ key p key',
    store.get key' (store.remove key p) = if key' = key then none else store.get key' p

/-- A map will do. -/
def ofJson : SharedPreferences Json where
  get key json := json key
  setBool key b json := fun key' => if key' = key then some (.bool b) else json key'
  setString key value json := fun key' => if key' = key then some (.string value) else json key'
  remove key json := fun key' => if key' = key then none else json key'

theorem ofJson_lawful : ofJson.Lawful where
  get_setString _ _ _ _ := rfl
  get_remove _ _ _ := rfl

end SharedPreferences

namespace CacheHelper

variable {σ : Type} (store : SharedPreferences σ)

/-- Null is of none of the types that are stored. -/
def setData (key : String) (value : Option Dynamic) (preferences : σ) : σ :=
  match value with
  | some (.bool b) => store.setBool key b preferences
  | some (.string v) => store.setString key v preferences
  | none => preferences

def getData (key : String) (preferences : σ) : Option Dynamic := store.get key preferences

def removeData (key : String) (preferences : σ) : σ := store.remove key preferences

end CacheHelper

namespace Session

/-- `SocialLoginStates` and `SocialRegisterStates`. -/
inductive FormState
  | init
  | changeVisPass
  | loading
  | success (isDone : Bool)
  | error
deriving DecidableEq

/-- A LoginScreen or a RegisterScreen, by its number, with its cubit. -/
structure Form where
  number : Nat
  isPassword : Bool
  state : FormState

/-- What is shown.  A home layout that has been built has asked for the data of a user. -/
inductive Screen
  | login (form : Form)
  | register (form below : Form)
  | layout (built : Option (Option String))

/-- An answer of FirebaseAuth that is waited for, to the form of the given number. -/
inductive Pending
  | signIn (form : Nat)
  | creation (form : Nat)
deriving DecidableEq

inductive Effect
  /-- `uId` is assigned. -/
  | session (uId : Option String)
  /-- The messages of the validators. -/
  | invalid (messages : List String)
  | signInWithEmailAndPassword (email password : String)
  | createUserWithEmailAndPassword (email password : String)
  /-- `Navigator.of(context)` throws on a context that is not mounted. -/
  | throws
deriving DecidableEq

def Form.open (number : Nat) : Form := { number, isPassword := true, state := .init }

/-- The cubit of the form `n` emits a state. -/
def Form.emit (n : Nat) (state : FormState) (f : Form) : Form :=
  if f.number = n then { f with state } else f

def Form.setVis (f : Form) : Form :=
  { f with isPassword := !f.isPassword, state := .changeVisPass }

namespace Screen

/-- The forms on the stack. -/
def forms : Screen → List Nat
  | .login form => [form.number]
  | .register form below => [form.number, below.number]
  | .layout _ => []

def emit (n : Nat) (state : FormState) : Screen → Screen
  | .login form => .login (form.emit n state)
  | .register form below => .register (form.emit n state) (below.emit n state)
  | .layout built => .layout built

end Screen
end Session

/-- The forms that are `leaving` are off the stack, but mounted until their transition
ends. -/
structure Session (σ : Type) where
  uId : Option String
  preferences : σ
  screen : Session.Screen
  opened : Nat
  leaving : List Nat
  inFlight : List Session.Pending

namespace Session

variable {σ : Type}

def emit (n : Nat) (state : FormState) (s : Session σ) : Session σ :=
  { s with screen := s.screen.emit n state }

def Mounted (n : Nat) (s : Session σ) : Prop := n ∈ s.screen.forms ∨ n ∈ s.leaving

instance (n : Nat) (s : Session σ) : Decidable (s.Mounted n) :=
  inferInstanceAs (Decidable (_ ∨ _))

/-- The state when the `k`-th answer has arrived. -/
def landed (s : Session σ) (k : Nat) : Session σ := { s with inFlight := s.inFlight.eraseIdx k }

def await (p : Pending) (s : Session σ) : Session σ := { s with inFlight := s.inFlight ++ [p] }

/-! ## Start -/

variable (store : SharedPreferences σ)

def getInitialData (preferences : σ) : Option String :=
  match CacheHelper.getData store "uid" preferences with
  | some (.string uid) => some uid
  | _ => none

/-- `checkWhichScreen`. -/
def checkWhichScreen (uId : Option String) (opened : Nat) : Screen :=
  if uId ≠ none then .layout none else .login (.open opened)

/-- The app starts with the given preferences, when `opened` forms have been opened. -/
def start (preferences : σ) (opened : Nat) : Session σ :=
  let uId := getInitialData store preferences
  { uId, preferences, screen := checkWhichScreen uId opened, opened := opened + 1
    leaving := [], inFlight := [] }

/-- The first start on a device. -/
def init (preferences : σ) : Session σ := start store preferences 0

/-- The app is stopped and started again, and `getInstance` finds the given preferences. -/
def restart (preferences : σ) (s : Session σ) : Session σ × List Effect :=
  let t := start store preferences s.opened
  (t, [.session t.uId])

/-! ## Navigation -/

/-- `NavigateToAndKill(context, SocialLayout())`, with a layout that is not built yet. -/
def navigateToLayout (s : Session σ) : Session σ :=
  { s with screen := .layout none, leaving := s.leaving ++ s.screen.forms }

/-- `NavigateToAndKill(context, LoginScreen())`. -/
def navigateToLogin (s : Session σ) : Session σ :=
  { s with
    screen := .login (.open s.opened), opened := s.opened + 1
    leaving := s.leaving ++ s.screen.forms }

/-- `uId = uid`, and `Cache_Helper.setData('uid', uId)`. -/
def setUser (uid : String) (s : Session σ) : Session σ :=
  { s with
    uId := some uid
    preferences := CacheHelper.setData store "uid" (some (.string uid)) s.preferences }

/-- `Cache_Helper.removeData('uid')`, and `uId = null`. -/
def clearUser (s : Session σ) : Session σ :=
  { s with uId := none, preferences := CacheHelper.removeData store "uid" s.preferences }

/-- `ProfileCubit.logout`. -/
def logout (s : Session σ) : Session σ × List Effect :=
  ((s.clearUser store).navigateToLogin, [.session none])

/-- `openChatScreen`, with the `receiverUid` of a notification.  A chat is opened above
the screen that is shown. -/
def openChatScreen (receiverUid : Option String) (s : Session σ) : Session σ × List Effect :=
  if s.uId ≠ receiverUid then ((s.clearUser store).navigateToLogin, [.session none])
  else (s, [])

/-! ## Forms -/

/-- `validate`: each field that is empty has a message. -/
def validate (fields : List (String × String)) : List String :=
  fields.filterMap fun field => if field.1 = "" then some field.2 else none

/-- `userLogin`. -/
def userLogin (n : Nat) (email password : String) (s : Session σ) : Session σ × List Effect :=
  ((s.emit n .loading).await (.signIn n), [.signInWithEmailAndPassword email password])

/-- The button of a LoginScreen, and its keyboard. -/
def login (n : Nat) (email password : String) (s : Session σ) : Session σ × List Effect :=
  match validate [(email, "Enter the Email"), (password, "Enter the Password")] with
  | [] => s.userLogin n email password
  | messages => (s, [.invalid messages])

/-- `createUserRegister`. -/
def createUserRegister (n : Nat) (email password : String) (s : Session σ) :
    Session σ × List Effect :=
  ((s.emit n .loading).await (.creation n), [.createUserWithEmailAndPassword email password])

/-- The button of a RegisterScreen. -/
def register (n : Nat) (name email password phone : String) (s : Session σ) :
    Session σ × List Effect :=
  match validate [(name, "Enter the Username"), (email, "Enter the Email"),
      (password, "Enter the Password"), (phone, "Enter the Phone")] with
  | [] => s.createUserRegister n email password
  | messages => (s, [.invalid messages])

/-- From the form `n` to the home layout of the user `uid`.  What `Navigator` throws is
caught, and the user stays. -/
def enter (n : Nat) (uid : String) (isDone : Bool) (s : Session σ) : Session σ × List Effect :=
  let t := s.setUser store uid
  if t.Mounted n then (t.navigateToLayout.emit n (.success isDone), [.session (some uid)])
  else (t.emit n .error, [.session (some uid), .throws])

/-- The `then` of `userLogin`. -/
def signInThen (n : Nat) (uid : Option String) (s : Session σ) : Session σ × List Effect :=
  match uid with
  | some u => s.enter store n u true
  | none => (s.emit n (.success true), [])

/-- The `then` of `createUserRegister`; the profile it writes is in `Register`. -/
def creationThen (n : Nat) (uid : String) (s : Session σ) : Session σ × List Effect :=
  (s.emit n .loading).enter store n uid false

/-! ## Events -/

inductive Event (σ : Type)
  /-- `Register Now`. -/
  | openRegister
  /-- The RegisterScreen is left. -/
  | back
  /-- The transition of the form `n` ends. -/
  | gone (n : Nat)
  | setVis
  /-- The button of the LoginScreen, which the spinner replaces while it is loading. -/
  | login (email password : String)
  /-- The keyboard of the password field. -/
  | onSubmitted (email password : String)
  | register (name email password phone : String)
  /-- The `k`-th answer is a user. -/
  | signedIn (k : Nat) (uid : Option String)
  | signInFailed (k : Nat)
  | created (k : Nat) (uid : String)
  | creationFailed (k : Nat)
  /-- The home layout is built for the first time, and asks for the data of `uId`. -/
  | build
  | logout
  /-- A tap on a notification. -/
  | tap (receiverUid : Option String)
  | restart (preferences : σ)

def step (s : Session σ) : Event σ → Option (Session σ × List Effect)
  | .openRegister =>
    match s.screen with
    | .login form =>
      some ({ s with screen := .register (.open s.opened) form, opened := s.opened + 1 }, [])
    | _ => none
  | .back =>
    match s.screen with
    | .register form below =>
      some ({ s with screen := .login below, leaving := s.leaving ++ [form.number] }, [])
    | _ => none
  | .gone n =>
    if n ∈ s.leaving then some ({ s with leaving := s.leaving.erase n }, []) else none
  | .setVis =>
    match s.screen with
    | .login form => some ({ s with screen := .login form.setVis }, [])
    | .register form below => some ({ s with screen := .register form.setVis below }, [])
    | .layout _ => none
  | .login email password =>
    match s.screen with
    | .login form =>
      if form.state ≠ .loading then some (s.login form.number email password) else none
    | _ => none
  | .onSubmitted email password =>
    match s.screen with
    | .login form => some (s.login form.number email password)
    | _ => none
  | .register name email password phone =>
    match s.screen with
    | .register form _ =>
      if form.state ≠ .loading then some (s.register form.number name email password phone)
      else none
    | _ => none
  | .signedIn k uid =>
    match s.inFlight[k]? with
    | some (.signIn n) => some ((s.landed k).signInThen store n uid)
    | _ => none
  | .signInFailed k =>
    match s.inFlight[k]? with
    | some (.signIn n) => some ((s.landed k).emit n .error, [])
    | _ => none
  | .created k uid =>
    match s.inFlight[k]? with
    | some (.creation n) => some ((s.landed k).creationThen store n uid)
    | _ => none
  | .creationFailed k =>
    match s.inFlight[k]? with
    | some (.creation n) => some ((s.landed k).emit n .error, [])
    | _ => none
  | .build =>
    match s.screen with
    | .layout none => some ({ s with screen := .layout (some s.uId) }, [])
    | .layout (some _) => none
    | .login _ => none
    | .register _ _ => none
  | .logout =>
    match s.screen with
    | .layout (some _) => some (s.logout store)
    | _ => none
  | .tap receiverUid => some (s.openChatScreen store receiverUid)
  | .restart preferences => some (s.restart store preferences)

def machine : Reactive.Machine (Session σ) (Event σ) Effect := ⟨step store⟩

end Session
end SocialApp
