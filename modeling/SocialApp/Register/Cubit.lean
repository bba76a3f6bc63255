import SocialApp.Models
import SocialApp.Reactive.Machine

/-! # SocialRegisterCubit

A call of `createUserRegister` makes an account, and the callback of that logs the new
user in, writes the profile and shows the home layout.  The accounts and documents are
on the server, and the logged-in user is kept in `uId` and, for the next start, under
`uid` in the preferences. -/

namespace SocialApp
namespace Register

inductive SocialRegisterStates
  | loading
  | success (isDone : Bool)
  | error
  | changeVisPass
deriving DecidableEq

/-- What is shown.  The RegisterScreens are numbered, and each has its own cubit. -/
inductive Screen
  | login
  | register (n : Nat)
  | layout
deriving DecidableEq

/-- The arguments of `createUserRegister`; `context` is the number of its screen. -/
structure Call where
  name : String
  phone : String
  email : String
  password : String
  context : Nat
deriving DecidableEq

/-- What a callback waits for. -/
inductive Pending
  | creation (call : Call)
  | save (uid : String) (data : Json)

inductive Thrown
  /-- `Navigator.of(context)` on a context that is not mounted. -/
  | navigator
deriving DecidableEq

inductive Effect
  | emit (state : SocialRegisterStates)
  | createUserWithEmailAndPassword (email password : String)
  | setData (key value : String)
  | set (uid : String) (data : Json)
  | navigateToAndKill (screen : Screen)
  | throws (e : Thrown)

/-- Firebase and the session of the device.  The server has documents of accounts
only, and the device only logs in to accounts. -/
structure Store where
  accounts : List String
  users : String → Option Json
  uId : Option String
  cached : Option String
  users_account : ∀ uid, users uid ≠ none → uid ∈ accounts
  uId_account : ∀ uid, uId = some uid → uid ∈ accounts
  cached_account : ∀ uid, cached = some uid → uid ∈ accounts

namespace Store

/-- A new account. -/
def create (uid : String) (s : Store) : Store :=
  { s with
    accounts := uid :: s.accounts
    users_account := fun u hu => List.mem_cons_of_mem uid (s.users_account u hu)
    uId_account := fun u hu => List.mem_cons_of_mem uid (s.uId_account u hu)
    cached_account := fun u hu => List.mem_cons_of_mem uid (s.cached_account u hu) }

/-- `uId = uid`, and `Cache_Helper.setData('uid', uId)`. -/
def login (uid : String) (s : Store) (h : uid ∈ s.accounts) : Store :=
  { s with
    uId := some uid
    cached := some uid
    uId_account := fun _ hu => Option.some.inj hu ▸ h
    cached_account := fun _ hu => Option.some.inj hu ▸ h }

/-- The document `users/uid` is set. -/
def setUser (uid : String) (data : Json) (s : Store) (h : uid ∈ s.accounts) : Store :=
  { s with
    users := fun u => if u = uid then some data else s.users u
    users_account := by
      intro u hu
      by_cases heq : u = uid
      · exact heq ▸ h
      · rw [if_neg heq] at hu
        exact s.users_account u hu }

/-- `getInitialData` of the next start. -/
def restart (s : Store) : Store :=
  { s with uId := s.cached, uId_account := s.cached_account }

end Store
end Register

/-- The app on one device, from the LoginScreen to the home layout. -/
structure Register where
  store : Register.Store
  screen : Register.Screen
  opened : Nat
  inFlight : List Register.Pending
  save_account : ∀ uid data, .save uid data ∈ inFlight → uid ∈ store.accounts

namespace Register

/-- The state when the `k`-th callback starts to run. -/
def landed (s : Register) (k : Nat) : Register :=
  { s with
    inFlight := s.inFlight.eraseIdx k
    save_account := fun uid data h => s.save_account uid data (List.mem_of_mem_eraseIdx h) }

def await (s : Register) (p : Pending)
    (h : ∀ uid data, p = .save uid data → uid ∈ s.store.accounts) : Register :=
  { s with
    inFlight := s.inFlight ++ [p]
    save_account := by
      intro uid data hmem
      rcases List.mem_append.mp hmem with hmem | hmem
      · exact s.save_account uid data hmem
      · exact h uid data (List.mem_singleton.mp hmem).symm }

def createUserRegister (call : Call) (s : Register) : Register × List Effect :=
  (s.await (.creation call) (fun _ _ h => nomatch h),
    [.emit .loading, .createUserWithEmailAndPassword call.email call.password])

/-- The server makes an account. -/
def account (uid : String) (s : Register) : Register :=
  { s with
    store := s.store.create uid
    save_account := fun u data h => List.mem_cons_of_mem uid (s.save_account u data h) }

def login (uid : String) (s : Register) (h : uid ∈ s.store.accounts) : Register :=
  { s with store := s.store.login uid h, save_account := s.save_account }

def saveUserRegister (name phone email uid image cover bio : String) (s : Register)
    (h : uid ∈ s.store.accounts) : Register × List Effect :=
  let data := LoginModel.toMap
    { name := some name, phone := some phone, email := some email, uid := some uid
      image := some image, cover := some cover, bio := some bio, isEmailVarified := some false }
  (s.await (.save uid data) (fun _ _ heq => (Pending.save.inj heq).1 ▸ h),
    [.emit .loading, .set uid data])

/-- The `then` of the creation, with the account `uid` just made.  What `Navigator`
throws is caught, after everything before it has been done. -/
def creationThen (call : Call) (uid : String) (s : Register) : Register × List Effect :=
  let r := ((s.account uid).login uid List.mem_cons_self).saveUserRegister
    call.name call.phone call.email uid
    "https://image.freepik.com/free-photo/portrait-smiling-young-man-eyewear_171337-4842.jpg"
    "https://image.freepik.com/free-photo/confused-lovely-female-teenager-holds-chin-looks-thoughtfully-aside-has-dark-hair-wears-striped-sweater-isolated-white-wall_273609-16546.jpg"
    "write some bio......" List.mem_cons_self
  if s.screen = .register call.context then
    ({ r.1 with screen := .layout },
      [.setData "uid" uid] ++ r.2 ++ [.navigateToAndKill .layout, .emit (.success false)])
  else (r.1, [.setData "uid" uid] ++ r.2 ++ [.throws .navigator, .emit .error])

/-- The `then` of the profile write, which the server has carried out. -/
def saveThen (uid : String) (data : Json) (s : Register) (h : uid ∈ s.store.accounts) :
    Register × List Effect :=
  ({ s with store := s.store.setUser uid data h, save_account := s.save_account },
    [.emit (.success true)])

/-- The next start: `getInitialData`, then `checkWhichScreen`. -/
def restart (s : Register) : Register :=
  { s with
    store := s.store.restart
    screen := if s.store.cached = none then .login else .layout
    inFlight := []
    save_account := fun _ _ h => absurd h List.not_mem_nil }

inductive Event
  /-- The LoginScreen opens a RegisterScreen. -/
  | openRegister
  /-- The RegisterScreen is left. -/
  | back
  | setVis
  /-- The button, which the spinner of a call replaces until `setVis`. -/
  | createUserRegister (name phone email password : String)
  /-- The `k`-th callback runs, with the account that was made for it. -/
  | created (k : Nat) (uid : String)
  /-- The `k`-th callback fails; an account may have been made when its answer is lost. -/
  | creationFailed (k : Nat) (lost : Option String)
  /-- The profile write of the `k`-th callback settles. -/
  | saved (k : Nat) (ok : Bool)

def step (s : Register) : Event → Option (Register × List Effect)
  | .openRegister =>
    if s.screen = .login then
      some ({ s with screen := .register s.opened, opened := s.opened + 1 }, [])
    else none
  | .back =>
    match s.screen with
    | .register _ => some ({ s with screen := .login }, [])
    | _ => none
  | .setVis =>
    match s.screen with
    | .register _ => some (s, [.emit .changeVisPass])
    | _ => none
  | .createUserRegister name phone email password =>
    match s.screen with
    | .register context => some (s.createUserRegister { name, phone, email, password, context })
    | _ => none
  | .created k uid =>
    match s.inFlight[k]? with
    | some (.creation call) =>
      if uid ∉ s.store.accounts then some ((s.landed k).creationThen call uid) else none
    | _ => none
  | .creationFailed k lost =>
    match s.inFlight[k]? with
    | some (.creation _) =>
      match lost with
      | none => some (s.landed k, [.emit .error])
      | some uid =>
        if uid ∉ s.store.accounts then some ((s.landed k).account uid, [.emit .error]) else none
    | _ => none
  | .saved k ok =>
    match hk : s.inFlight[k]? with
    | some (.save uid data) =>
      if ok then
        some ((s.landed k).saveThen uid data
          (s.save_account uid data (List.mem_of_getElem? hk)))
      else some (s.landed k, [.emit .error])
    | _ => none

def machine : Reactive.Machine Register Event Effect := ⟨step⟩

end Register
end SocialApp
