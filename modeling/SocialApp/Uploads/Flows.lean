import SocialApp.Home.Cubit

/-! # Uploads

EditProfileCubit, NewPostCubit and ChatCubit upload an image in three stages: the
file, its download URL, and the document that names the URL.  Each stage starts
when the one before it has answered, and the cubits go on after their screens are
closed.  The global `uId` and the model of SocialHomeCubit, which the last stage
reads, are part of the state, and so are the documents of the users. -/

namespace SocialApp
namespace Uploads

inductive EditProfileStates
  | uploadingCoverImage
  | uploadingProfileImage
  | uploadingProfileData
  | updateUserDataSuccess
deriving DecidableEq

inductive NewPostCubitStates
  | uploadingPostImageLoading
  | uploadingPostImageSuccess
  | uploadingPostImageError
  | createPostLoading
  | createPostSuccess
  | createPostError
deriving DecidableEq

inductive ChatCubitStates
  | uploadingMessageImage
  | sendMessageLoading
  | sendMessageSuccess
  | sendMessageError
deriving DecidableEq

/-- What an upload is for, with the arguments its callbacks have captured. -/
inductive Flow
  | cover (name phone bio : String)
  | profile (name phone bio : String)
  | post (text : String) (postUserImage postUserName : Option String)
  | message (receiverId : Option String)

/-- The operation that a user document is updated by. -/
inductive Update
  | cover (url : String)
  | profile (url : String)
  | data
deriving DecidableEq

/-- A write sent to Firestore.  `addMessage` adds to `users/owner/chats/peer`; of
the two copies of a message `sent` marks the one for the sender. -/
inductive Write
  | saveUser (uid : String) (user : LoginModel)
  | updateUser (uid : Option String) (update : Update) (user : LoginModel)
  | setPost (id : String) (post : PostModel)
  | addMessage (owner peer : Option String) (sent : Bool) (message : MessageModel)
deriving DecidableEq

/-- What a callback waits for.  The app does not keep the `starter` of an upload,
the user who picked the image. -/
inductive Pending
  | putFile (flow : Flow) (starter : String)
  | getDownloadURL (flow : Flow) (starter : String)
  | write (w : Write) (applied : Bool)
  /-- A read of a user document that has not been answered yet. -/
  | getUserData (uid : Option String)
  /-- An answer on its way. -/
  | userData (data : Option Json)

inductive Effect
  | home (state : Home.SocialHomeStates)
  | editProfile (state : EditProfileStates)
  | newPost (state : NewPostCubitStates)
  | chat (state : ChatCubitStates)
  | toast (msg : String) (state : Nat)
  | issue (w : Write)
  | applied (w : Write)
deriving DecidableEq

end Uploads

structure Uploads where
  uId : Option String
  model : Option LoginModel
  users : String → Option Json
  inFlight : List Uploads.Pending

namespace Uploads

def init (uId : Option String) (users : String → Option Json) : Uploads :=
  { uId, model := none, users, inFlight := [] }

/-- The state when the `k`-th callback starts to run. -/
def landed (s : Uploads) (k : Nat) : Uploads :=
  { s with inFlight := s.inFlight.eraseIdx k }

def await (s : Uploads) (ps : List Pending) : Uploads :=
  { s with inFlight := s.inFlight ++ ps }

def issue (s : Uploads) (w : Write) : Uploads × List Effect :=
  (s.await [.write w false], [.issue w])

/-! ## SocialHomeCubit -/

def getUserData (s : Uploads) : Uploads × List Effect :=
  (s.await [.getUserData s.uId], [.home .getUserLoading])

def getUserDataThen (data : Option Json) (s : Uploads) : Uploads × List Effect :=
  match LoginModel.fromJson data with
  | some m => ({ s with model := some m }, [.home .getUserSuccess])
  | none => (s, [.home .getUserError])

/-! ## EditProfileCubit -/

/-- The model that an update writes: what the screen sets, the new image if there
is one, and the rest from SocialHomeCubit. -/
def updatedUser (update : Update) (name phone bio : String) (m : LoginModel) : LoginModel :=
  { name := some name
    phone := some phone
    email := m.email
    uid := m.uid
    image := match update with
      | .profile url => some url
      | _ => m.image
    cover := match update with
      | .cover url => some url
      | _ => m.cover
    bio := some bio
    isEmailVarified := m.isEmailVarified }

/-- The update of `users/uId`; without a model `cubit.model.email` throws. -/
def updateUser (update : Update) (name phone bio : String) (s : Uploads) :
    Uploads × List Effect :=
  match s.model with
  | none => (s, [])
  | some m => s.issue (.updateUser s.uId update (updatedUser update name phone bio m))

def updateUserData (name phone bio : String) (s : Uploads) : Uploads × List Effect :=
  ((s.updateUser .data name phone bio).1,
    .editProfile .uploadingProfileData :: (s.updateUser .data name phone bio).2)

/-! ## NewPostCubit -/

def createPost (text image now : String) (postUserImage postUserName : Option String)
    (s : Uploads) : Uploads × List Effect :=
  let r := s.issue (.setPost now
    { postImage := some image, postUserImage, postUserName, dateTime := some now,
      text := some text, uid := s.uId })
  (r.1, .newPost .createPostLoading :: r.2)

/-! ## ChatCubit -/

def sendImageToChat (image now : String) (receiverId : Option String) (s : Uploads) :
    Uploads × List Effect :=
  let message : MessageModel :=
    { dateTime := some now, text := some "", receiverUid := receiverId, senderUid := s.uId,
      image := some image }
  let r := s.issue (.addMessage receiverId s.uId false message)
  let t := r.1.issue (.addMessage s.uId receiverId true message)
  (t.1, .chat .sendMessageLoading :: (r.2 ++ t.2))

/-! ## The stages of an upload -/

/-- The state with which an upload begins. -/
def Flow.uploading : Flow → Effect
  | .cover _ _ _ => .editProfile .uploadingCoverImage
  | .profile _ _ _ => .editProfile .uploadingProfileImage
  | .post _ _ _ => .newPost .uploadingPostImageLoading
  | .message _ => .chat .uploadingMessageImage

/-- `putFile`, started by the user `starter`. -/
def upload (flow : Flow) (starter : String) (s : Uploads) : Uploads × List Effect :=
  (s.await [.putFile flow starter], [flow.uploading])

/-- The file is uploaded. -/
def putFileThen (flow : Flow) (starter : String) (s : Uploads) : Uploads × List Effect :=
  (s.await [.getDownloadURL flow starter], [])

/-- The URL has arrived. -/
def urlThen (flow : Flow) (url now : String) (s : Uploads) : Uploads × List Effect :=
  match flow with
  | .cover name phone bio => s.updateUser (.cover url) name phone bio
  | .profile name phone bio => s.updateUser (.profile url) name phone bio
  | .post text postUserImage postUserName =>
    let r := s.createPost text url now postUserImage postUserName
    (r.1, r.2 ++ [.newPost .uploadingPostImageSuccess])
  | .message receiverId => s.sendImageToChat url now receiverId

/-- The `catchError` of the file and of the URL. -/
def Flow.failed : Flow → List Effect
  | .post _ _ _ => [.toast "uploading image failed" 2, .newPost .uploadingPostImageError]
  | _ => []

/-! ## Writes -/

/-- The users after the server has carried out a write; an update of a document
that does not exist is refused. -/
def serve (w : Write) (users : String → Option Json) : Option (String → Option Json) :=
  match w with
  | .saveUser uid user => some (Function.update users uid (some user.toMap))
  | .updateUser none _ _ => none
  | .updateUser (some uid) _ user =>
    (users uid).map fun doc => Function.update users uid (some (user.update doc))
  | .setPost _ _ => some users
  | .addMessage _ _ _ _ => some users

/-- A write of the client that the server has not acknowledged, seen by the client. -/
def overlay (users : String → Option Json) : Pending → String → Option Json
  | .write w _ => (serve w users).getD users
  | _ => users

/-- The users as the client sees them.  What the server has is merged with the client's
own writes that are in flight, in the order they were issued. -/
def localView (s : Uploads) : String → Option Json := s.inFlight.foldl overlay s.users

/-- The handlers of a write that succeeded (`ok`) or failed. -/
def writeThen (w : Write) (ok : Bool) (s : Uploads) : Uploads × List Effect :=
  match w, ok with
  | .saveUser _ _, _ => (s, [])
  | .updateUser _ .data _, true =>
    (s.getUserData.1, s.getUserData.2 ++
      [.editProfile .updateUserDataSuccess, .toast "Updated Successfuly" 0])
  | .updateUser _ .data _, false => (s, [.toast "Updated Unuccessfuly " 2])
  | .updateUser _ _ _, true =>
    (s.getUserData.1, s.getUserData.2 ++
      [.editProfile .updateUserDataSuccess, .toast "Image will be here soon" 0])
  | .updateUser _ _ _, false => (s, [])
  | .setPost _ _, true => (s, [.toast "Posted" 0, .newPost .createPostSuccess])
  | .setPost _ _, false => (s, [.newPost .createPostError])
  | .addMessage _ _ false _, true => (s, [])
  | .addMessage _ _ true _, true => (s, [.chat .sendMessageSuccess])
  | .addMessage _ _ _ _, false => (s, [.chat .sendMessageError])

/-! ## Sessions -/

/-- `userLogin`: the first build of the new SocialLayout loads the profile. -/
def login (uid : String) (s : Uploads) : Uploads × List Effect :=
  ({ s with uId := some uid } : Uploads).getUserData

/-- `createUserRegister` has made an account, and `saveUserRegister` writes its
document. -/
def register (uid : String) (user : LoginModel) (s : Uploads) : Uploads × List Effect :=
  let r := ({ s with uId := some uid } : Uploads).issue (.saveUser uid user)
  (r.1.getUserData.1, r.2 ++ r.1.getUserData.2)

def logout (s : Uploads) : Uploads × List Effect := ({ s with uId := none }, [])

/-! ## Events -/

inductive Event
  | login (uid : String)
  | register (uid : String) (user : LoginModel)
  | logout
  | getUserData
  | updateUserData (name phone bio : String)
  /-- An image has been picked for `flow`. -/
  | upload (flow : Flow)
  /-- The file of the `k`-th callback is uploaded. -/
  | uploaded (k : Nat)
  /-- The URL arrives, at the time `now`. -/
  | url (k : Nat) (url now : String)
  /-- The upload, the URL or the read of the `k`-th callback fails. -/
  | failed (k : Nat)
  /-- The server carries out the `k`-th write. -/
  | applied (k : Nat)
  /-- The `k`-th write settles: after it was carried out, or without. -/
  | settled (k : Nat) (ok : Bool)
  /-- The server answers the `k`-th read, and the client merges its writes into the
  document. -/
  | served (k : Nat)
  /-- The answer arrives. -/
  | userData (k : Nat)

def step (s : Uploads) : Event → Option (Uploads × List Effect)
  | .login uid => some (s.login uid)
  | .register uid user => some (s.register uid user)
  | .logout => some s.logout
  | .getUserData => some s.getUserData
  | .updateUserData name phone bio => some (s.updateUserData name phone bio)
  | .upload flow => s.uId.map fun starter => s.upload flow starter
  | .uploaded k =>
    match s.inFlight[k]? with
    | some (.putFile flow starter) => some ((s.landed k).putFileThen flow starter)
    | _ => none
  | .url k url now =>
    match s.inFlight[k]? with
    | some (.getDownloadURL flow _) => some ((s.landed k).urlThen flow url now)
    | _ => none
  | .failed k =>
    match s.inFlight[k]? with
    | some (.putFile flow _) => some (s.landed k, flow.failed)
    | some (.getDownloadURL flow _) => some (s.landed k, flow.failed)
    | some (.getUserData _) => some (s.landed k, [.home .getUserError])
    | _ => none
  | .applied k =>
    match s.inFlight[k]? with
    | some (.write w false) => (serve w s.users).map fun users =>
        ({ s with users, inFlight := s.inFlight.set k (.write w true) }, [.applied w])
    | _ => none
  | .settled k ok =>
    match s.inFlight[k]? with
    | some (.write w applied) =>
      if ok = applied then some ((s.landed k).writeThen w ok) else none
    | _ => none
  | .served k =>
    match s.inFlight[k]? with
    | some (.getUserData uid) =>
      some ({ s with inFlight := s.inFlight.set k (.userData (uid.bind s.localView)) }, [])
    | _ => none
  | .userData k =>
    match s.inFlight[k]? with
    | some (.userData data) => some ((s.landed k).getUserDataThen data)
    | _ => none

def machine : Reactive.Machine Uploads Event Effect := ⟨step⟩

end Uploads
end SocialApp
