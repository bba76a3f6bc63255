import SocialApp.Uploads.Flows

/-! # EditProfileScreen and its cubit

The form of the screen, its two pickers and the uploads they start.  The screen is
built with the model of SocialHomeCubit and rebuilt in the frame after either cubit
has emitted a state.  The uploads go on after the screen is left. -/

namespace SocialApp

open Uploads (EditProfileStates Update updatedUser)

namespace EditProfile

inductive Slot
  | cover
  | profile
deriving DecidableEq

/-- The text fields of the form. -/
inductive Field
  | name
  | phone
  | bio
deriving DecidableEq

end EditProfile

/-- The value of a field of the form. -/
def LoginModel.field (m : LoginModel) : EditProfile.Field → Option String
  | .name => m.name
  | .phone => m.phone
  | .bio => m.bio

namespace EditProfile

/-- A picked file: its path, and the last segment of that. -/
structure XFile where
  path : String
  name : String
deriving DecidableEq

/-- An image, with the number of the pick that returned it. -/
structure Image where
  pick : Nat
  file : XFile
deriving DecidableEq

/-- What a callback waits for, with the variables it has captured.  The picks are
numbered.  `picked` is the `then` of `pickCoverImage` or `pickProfileImage`, after the
picker `returned` an image or was cancelled. -/
inductive Pending
  | picker (slot : Slot) (n : Nat)
  | picked (slot : Slot) (n : Nat) (returned : Bool)
  | putFile (slot : Slot) (texts : Field → String)
  | downloadURL (slot : Slot) (texts : Field → String)
  | update (update : Update)

inductive Effect
  | emit (state : EditProfileStates)
  | pickImage
  | putFile (n : Nat) (returned : Bool) (child : String) (image : Image)
  | update (uid : Option String) (update : Update) (user : LoginModel)
  | getUserData (uid : Option String)
  | toast (msg : String) (state : Nat)

end EditProfile

/-- The fields of EditProfileCubit, the global `uId`, and the `model` of SocialHomeCubit.
`shown` is the variable `model` of the last build, and a cubit that has emitted a state
since then is `dirty`. -/
structure EditProfile where
  uId : Option String
  model : LoginModel
  shown : LoginModel
  mounted : Bool
  dirtyScreen : Bool
  dirtyForm : Bool
  controllers : EditProfile.Field → String
  selected : EditProfile.Slot → Option EditProfile.XFile
  file : EditProfile.Slot → Option EditProfile.Image
  url : EditProfile.Slot → Option String
  picks : Nat
  inFlight : List EditProfile.Pending

namespace EditProfile

/-- The state when the `k`-th callback starts to run. -/
def landed (s : EditProfile) (k : Nat) : EditProfile :=
  { s with inFlight := s.inFlight.eraseIdx k }

def await (s : EditProfile) (ps : List Pending) : EditProfile :=
  { s with inFlight := s.inFlight ++ ps }

/-! ## The form -/

/-- Assigning null to the text of a controller leaves the text. -/
def assign (text : String) (value : Option String) : String := value.getD text

/-- The inner builder. -/
def buildForm (s : EditProfile) : EditProfile :=
  { s with dirtyForm := false
           controllers := fun f => assign (s.controllers f) (s.shown.field f) }

/-- The outer builder, which builds the form too. -/
def build (s : EditProfile) : EditProfile :=
  ({ s with shown := s.model, dirtyScreen := false } : EditProfile).buildForm

/-- The screen as it is opened. -/
def init (uId : Option String) (model : LoginModel) : EditProfile :=
  ({ uId, model, shown := model, mounted := true, dirtyScreen := false, dirtyForm := false,
     controllers := fun _ => "", selected := fun _ => none, file := fun _ => none,
     url := fun _ => none, picks := 0, inFlight := [] } : EditProfile).build

/-- A frame builds what has been marked. -/
def frame (s : EditProfile) : EditProfile :=
  if s.dirtyScreen then s.build
  else if s.dirtyForm then s.buildForm
  else s

/-- Keystrokes, which leave `text` in the field. -/
def type (f : Field) (text : String) (s : EditProfile) : EditProfile :=
  { s with controllers := Function.update s.controllers f text }

/-! ## Updates -/

def emit (state : EditProfileStates) (s : EditProfile) : EditProfile × List Effect :=
  ({ s with dirtyForm := true }, [.emit state])

/-- The update of `users/uId` with some texts and an image or none. -/
def updateUser (update : Update) (texts : Field → String) (s : EditProfile) :
    EditProfile × List Effect :=
  (s.await [.update update],
    [.update s.uId update
      (updatedUser update (texts .name) (texts .phone) (texts .bio) s.model)])

/-- The UPDATE button. -/
def updateUserData (s : EditProfile) : EditProfile × List Effect :=
  let r := s.emit .uploadingProfileData
  ((r.1.updateUser .data s.controllers).1, r.2 ++ (r.1.updateUser .data s.controllers).2)

/-- The handlers of an update. -/
def updateThen (update : Update) (ok : Bool) (s : EditProfile) : EditProfile × List Effect :=
  if ok then
    ({ s with dirtyScreen := true, dirtyForm := true },
      [.getUserData s.uId, .emit .updateUserDataSuccess,
        .toast (if update = .data then "Updated Successfuly" else "Image will be here soon") 0])
  else (s, if update = .data then [.toast "Updated Unuccessfuly " 2] else [])

/-! ## Images -/

def pickImage (slot : Slot) (s : EditProfile) : EditProfile × List Effect :=
  (({ s with picks := s.picks + 1 } : EditProfile).await [.picker slot s.picks], [.pickImage])

def pickCoverImage (s : EditProfile) : EditProfile × List Effect := s.pickImage .cover

def pickProfileImage (s : EditProfile) : EditProfile × List Effect := s.pickImage .profile

/-- The picker returns, with null when it was cancelled. -/
def pickerThen (slot : Slot) (n : Nat) (file : Option XFile) (s : EditProfile) :
    EditProfile × List Effect :=
  let s := { s with selected := Function.update s.selected slot file }
  match file with
  | some file =>
    (({ s with file := Function.update s.file slot (some ⟨n, file⟩) } : EditProfile).await
      [.picked slot n true], [])
  | none => (s.await [.picked slot n false], [])

/-- An upload, called by the `then` of the `n`-th pick. -/
def uploadImage (slot : Slot) (uploading : EditProfileStates) (n : Nat) (returned : Bool)
    (image : Image) (s : EditProfile) : EditProfile × List Effect :=
  let r := s.emit uploading
  (r.1.await [.putFile slot s.controllers],
    r.2 ++ [.putFile n returned ("users/" ++ image.file.name) image])

def uploadCoverImage (n : Nat) (returned : Bool) (image : Image) (s : EditProfile) :
    EditProfile × List Effect :=
  s.uploadImage .cover .uploadingCoverImage n returned image

def uploadProfileImage (n : Nat) (returned : Bool) (image : Image) (s : EditProfile) :
    EditProfile × List Effect :=
  s.uploadImage .profile .uploadingProfileImage n returned image

/-- The `then` of a pick in ProgressedCircleAvatar.  `SocialHomeCubit.get(context)` throws
when the screen has been left, which the widget catches. -/
def pickedThen (slot : Slot) (n : Nat) (returned : Bool) (s : EditProfile) :
    EditProfile × List Effect :=
  match s.file slot with
  | none => (s, [])
  | some image =>
    if s.mounted then
      match slot with
      | .cover => s.uploadCoverImage n returned image
      | .profile => s.uploadProfileImage n returned image
    else (s, [.toast "Something Went Wrong" 2])

/-- The file is uploaded. -/
def putFileThen (slot : Slot) (texts : Field → String) (s : EditProfile) :
    EditProfile × List Effect :=
  (({ s with file := Function.update s.file slot none } : EditProfile).await
    [.downloadURL slot texts], [])

def Slot.update (url : String) : Slot → Update
  | .cover => .cover url
  | .profile => .profile url

/-- The URL has arrived. -/
def urlThen (slot : Slot) (texts : Field → String) (url : String) (s : EditProfile) :
    EditProfile × List Effect :=
  ({ s with url := Function.update s.url slot (some url) } : EditProfile).updateUser
    (slot.update url) texts

/-! ## Events -/

inductive Event
  | type (f : Field) (text : String)
  | updateUserData
  | pickImage (slot : Slot)
  /-- The picker of the `k`-th callback returns, with `none` when it was cancelled. -/
  | picker (k : Nat) (file : Option XFile)
  | pickerFailed (k : Nat)
  /-- The `then` of a pick. -/
  | picked (k : Nat)
  | putFile (k : Nat) (ok : Bool)
  /-- The download URL, or `none` for a failure. -/
  | url (k : Nat) (url : Option String)
  | updated (k : Nat) (ok : Bool)
  /-- SocialHomeCubit has read a profile. -/
  | userData (model : LoginModel)
  /-- SocialHomeCubit emits a state with its model as it was. -/
  | homeState
  | frame
  /-- The screen is left. -/
  | leave
  | user (uId : Option String)

def step (s : EditProfile) : Event → Option (EditProfile × List Effect)
  | .type f text => if s.mounted then some (s.type f text, []) else none
  | .updateUserData => if s.mounted then some s.updateUserData else none
  | .pickImage slot =>
    if s.mounted then
      some (match slot with
        | .cover => s.pickCoverImage
        | .profile => s.pickProfileImage)
    else none
  | .picker k file =>
    match s.inFlight[k]? with
    | some (.picker slot n) => some ((s.landed k).pickerThen slot n file)
    | _ => none
  | .pickerFailed k =>
    match s.inFlight[k]? with
    | some (.picker _ _) => some (s.landed k, [.toast "Something Went Wrong" 2])
    | _ => none
  | .picked k =>
    match s.inFlight[k]? with
    | some (.picked slot n returned) => some ((s.landed k).pickedThen slot n returned)
    | _ => none
  | .putFile k ok =>
    match s.inFlight[k]? with
    | some (.putFile slot texts) =>
      some (if ok then (s.landed k).putFileThen slot texts else (s.landed k, []))
    | _ => none
  | .url k url =>
    match s.inFlight[k]? with
    | some (.downloadURL slot texts) =>
      some (match url with
        | some url => (s.landed k).urlThen slot texts url
        | none => (s.landed k, []))
    | _ => none
  | .updated k ok =>
    match s.inFlight[k]? with
    | some (.update update) => some ((s.landed k).updateThen update ok)
    | _ => none
  | .userData model => some ({ s with model, dirtyScreen := true }, [])
  | .homeState => some ({ s with dirtyScreen := true }, [])
  | .frame => if s.mounted then some (s.frame, []) else none
  | .leave => if s.mounted then some ({ s with mounted := false }, []) else none
  | .user uId => some ({ s with uId }, [])

def machine : Reactive.Machine EditProfile Event Effect := ⟨step⟩

/-- The profile in the runs on fixed inputs. -/
def ann : LoginModel :=
  { name := some "ann", phone := some "1", email := some "ann@x", uid := some "ann"
    image := some "ann.jpg", cover := some "cover.jpg", bio := some "hi"
    isEmailVarified := some false }

end EditProfile
end SocialApp
