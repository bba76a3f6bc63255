import SocialApp.Models
import SocialApp.Reactive.Machine
import SocialApp.Time.DateTime

/-! # NewPostCubit

One NewPostCubit with the callbacks that it waits for.  `filePostImage` and
`postImage` are fields of the cubit, which every attempt to post reads and writes;
the text and the author of an attempt are captured when POST is tapped. -/

namespace SocialApp

open Time (DateTime)

namespace NewPost

inductive NewPostCubitStates
  | pickPostImage
  | cancelPickPostImage
  | uploadingPostImageLoading
  | uploadingPostImageSuccess
  | uploadingPostImageError
  | createPostLoading
  | createPostSuccess
  | createPostError
deriving DecidableEq

/-- A write of a document of `posts`.  `tap` is the number of the tap on POST that it
comes from. -/
structure Write where
  tap : Nat
  now : DateTime
  post : PostModel

/-- The id of the document. -/
def Write.id (w : Write) : String := w.now.toString

/-- What `checkPost` passes on to the callbacks of an upload. -/
structure Captured where
  tap : Nat
  text : String
  postUserName : Option String
  postUserImage : Option String

inductive Pending
  | putFile (file : String) (captured : Captured)
  | getDownloadURL (file : String) (captured : Captured)
  | write (w : Write) (applied : Bool)

/-- What a step does besides changing the state.  `tap` records a tap on POST with the
image selected and the `postImage` at that moment, and `url` the URL of the file that
was uploaded for a tap. -/
inductive Effect
  | emit (state : NewPostCubitStates)
  | toast (msg : String) (state : Nat)
  | setBottomNavItemIndex (index : Nat)
  | tap (n : Nat) (file postImage : Option String)
  | url (n : Nat) (file url : String)
  | issue (w : Write)
  | applied (w : Write)
  | settled (w : Write) (ok : Bool)

end NewPost

/-- The fields of the cubit and its callbacks; `taps` only counts the taps on POST. -/
structure NewPost where
  filePostImage : Option String
  postImage : Option String
  postText : String
  inFlight : List NewPost.Pending
  taps : Nat

namespace NewPost

def init : NewPost :=
  { filePostImage := none, postImage := none, postText := "", inFlight := [], taps := 0 }

/-- The white space that `String.trim` removes. -/
def isSpace (c : Char) : Bool :=
  c.toNat ∈ [0x20, 0x85, 0xA0, 0x1680, 0x2028, 0x2029, 0x202F, 0x205F, 0x3000, 0xFEFF] ||
    (0x9 ≤ c.toNat && c.toNat ≤ 0xD) || (0x2000 ≤ c.toNat && c.toNat ≤ 0x200A)

def trim (text : String) : String :=
  String.ofList ((((text.toList.dropWhile isSpace).reverse).dropWhile isSpace).reverse)

/-- The state when the `k`-th callback starts to run. -/
def landed (s : NewPost) (k : Nat) : NewPost :=
  { s with inFlight := s.inFlight.eraseIdx k }

def await (s : NewPost) (p : Pending) : NewPost := { s with inFlight := s.inFlight ++ [p] }

/-! ## The methods of the cubit -/

/-- The picker returns an image, or nothing. -/
def pickPostImage (path : Option String) (s : NewPost) : NewPost × List Effect :=
  match path with
  | some path => ({ s with filePostImage := some path }, [.emit .pickPostImage])
  | none => (s, [])

def cancelPickPostImage (s : NewPost) : NewPost × List Effect :=
  ({ s with filePostImage := none }, [.emit .cancelPickPostImage])

/-- The write has the cubit's `postImage`, and the `uId` of this moment. -/
def createPost (captured : Captured) (now : DateTime) (uId : Option String) (s : NewPost) :
    NewPost × List Effect :=
  let w : Write :=
    { tap := captured.tap, now
      post :=
        { postImage := some (s.postImage.getD ""), postUserImage := captured.postUserImage
          postUserName := captured.postUserName, dateTime := some now.toString
          text := some captured.text, uid := uId } }
  (s.await (.write w false), [.emit .createPostLoading, .issue w])

def uploadPostImage (file : String) (captured : Captured) (s : NewPost) :
    NewPost × List Effect :=
  (s.await (.putFile file captured), [.emit .uploadingPostImageLoading])

def checkPost (name image uId : Option String) (now : DateTime) (s : NewPost) :
    NewPost × List Effect :=
  let captured : Captured :=
    { tap := s.taps, text := trim s.postText, postUserName := name, postUserImage := image }
  let t := { s with taps := s.taps + 1 }
  let r := match s.filePostImage with
    | some file => uploadPostImage file captured t
    | none => createPost captured now uId t
  (r.1, .tap s.taps s.filePostImage s.postImage :: r.2)

/-- The file is uploaded. -/
def putFileThen (file : String) (captured : Captured) (s : NewPost) : NewPost × List Effect :=
  (s.await (.getDownloadURL file captured), [])

/-- The URL has arrived. -/
def urlThen (file : String) (captured : Captured) (url : String) (now : DateTime)
    (uId : Option String) (s : NewPost) : NewPost × List Effect :=
  let r := createPost captured now uId { s with postImage := some url }
  (r.1, .url captured.tap file url :: r.2 ++ [.emit .uploadingPostImageSuccess])

/-- The `catchError` of the file and of the URL. -/
def failed : List Effect :=
  [.toast "uploading image failed" 2, .emit .uploadingPostImageError]

/-- The handlers of a write that succeeded (`ok`) or failed.  Looking SocialHomeCubit up
throws when the screen is gone (not `mounted`). -/
def writeThen (ok mounted : Bool) (s : NewPost) : NewPost × List Effect :=
  match ok, mounted with
  | true, true =>
    ({ s with postImage := none, postText := "" },
      [.toast "Posted" 0, .setBottomNavItemIndex 0, .emit .createPostSuccess])
  | true, false => ({ s with postImage := none }, [.toast "Posted" 0, .emit .createPostError])
  | false, _ => (s, [.emit .createPostError])

/-! ## NewPostScreen -/

/-- The POST button: an empty text is refused, and without a model of SocialHomeCubit
`cubit.model.name` throws. -/
def post (model : Option LoginModel) (uId : Option String) (now : DateTime) (s : NewPost) :
    NewPost × List Effect :=
  match model with
  | some m => if s.postText = "" then (s, []) else s.checkPost m.name m.image uId now
  | none => (s, [])

/-! ## Events -/

inductive Event
  | pickPostImage (path : Option String)
  | cancelPickPostImage
  /-- The user edits the text. -/
  | edit (text : String)
  /-- The user taps POST. -/
  | post (model : Option LoginModel) (uId : Option String) (now : DateTime)
  /-- The file of the `k`-th callback is uploaded. -/
  | uploaded (k : Nat)
  /-- The URL arrives. -/
  | url (k : Nat) (url : String) (uId : Option String) (now : DateTime)
  /-- The upload or the URL of the `k`-th callback fails. -/
  | failed (k : Nat)
  /-- The server carries out the `k`-th write. -/
  | applied (k : Nat)
  /-- The `k`-th write settles: after it was carried out, or without. -/
  | settled (k : Nat) (ok mounted : Bool)

def step (s : NewPost) : Event → Option (NewPost × List Effect)
  | .pickPostImage path => some (s.pickPostImage path)
  | .cancelPickPostImage => some s.cancelPickPostImage
  | .edit text => some ({ s with postText := text }, [])
  | .post model uId now => some (s.post model uId now)
  | .uploaded k =>
    match s.inFlight[k]? with
    | some (.putFile file captured) => some ((s.landed k).putFileThen file captured)
    | _ => none
  | .url k url uId now =>
    match s.inFlight[k]? with
    | some (.getDownloadURL file captured) =>
      some ((s.landed k).urlThen file captured url now uId)
    | _ => none
  | .failed k =>
    match s.inFlight[k]? with
    | some (.putFile _ _) => some (s.landed k, NewPost.failed)
    | some (.getDownloadURL _ _) => some (s.landed k, NewPost.failed)
    | _ => none
  | .applied k =>
    match s.inFlight[k]? with
    | some (.write w false) =>
      some ({ s with inFlight := s.inFlight.set k (.write w true) }, [.applied w])
    | _ => none
  | .settled k ok mounted =>
    match s.inFlight[k]? with
    | some (.write w applied) =>
      if ok = applied then
        let r := (s.landed k).writeThen ok mounted
        some (r.1, .settled w ok :: r.2)
      else none
    | _ => none

def machine : Reactive.Machine NewPost Event Effect := ⟨step⟩

end NewPost
end SocialApp
