import SocialApp.Models
import SocialApp.Reactive.Machine

/-! # CommentsCubit

The cubit of the sheet with the comments of a post.  A subscription delivers the
comments whenever they change, and each comment is added to the list when its
author has been looked up. -/

namespace SocialApp
namespace Comments

inductive CommentsCubitStates
  | getPostIdSuccess
  | setLikesSuccess
  | getCommentSuccess
  | sendCommentSuccess
  | deleteCommentSuccess
deriving DecidableEq

/-- A write sent to Firestore. -/
inductive Write
  | addComment (post : String) (comment : CommentModel)
  | deleteComment (post id : String)
deriving DecidableEq

/-- What a callback waits for, with the variables it has captured.  A lookup has asked
for the document of `uid`. -/
inductive Pending
  | author (event : QuerySnapshot) (i : Nat) (uid : Option String)
  | write (w : Write)

inductive Thrown
  /-- `comments[index]` is out of range. -/
  | comments
  /-- `commentsId[index]` is out of range. -/
  | commentsId
deriving DecidableEq

inductive Effect
  | emit (state : CommentsCubitStates)
  | toast (msg : String) (state : Nat)
  | issue (w : Write)
  | throws (e : Thrown)
deriving DecidableEq

end Comments

/-- The fields of the cubit, the global `uId`, and the callbacks not yet run.
`built` is no field of the cubit: it keeps the documents from which `comments`
was built. -/
structure Comments where
  uId : Option String
  likes : Option Int
  comments : List CommentModel
  built : List QueryDoc
  commentsId : List String
  selectedPostId : String
  subscriptions : Nat
  inFlight : List Comments.Pending

namespace Comments

def init (uId : Option String) : Comments :=
  { uId, likes := some 0, comments := [], built := [], commentsId := [], selectedPostId := "",
    subscriptions := 0, inFlight := [] }

/-- The state when the `k`-th callback starts to run. -/
def landed (s : Comments) (k : Nat) : Comments :=
  { s with inFlight := s.inFlight.eraseIdx k }

def await (s : Comments) (ps : List Pending) : Comments :=
  { s with inFlight := s.inFlight ++ ps }

def setSelectedPostId (id : String) (s : Comments) : Comments × List Effect :=
  ({ s with selectedPostId := id }, [.emit .getPostIdSuccess])

def setLikes (likes : Option Int) (s : Comments) : Comments × List Effect :=
  ({ s with likes }, [.emit .setLikesSuccess])

def getComments (s : Comments) : Comments × List Effect :=
  ({ s with commentsId := [], subscriptions := s.subscriptions + 1 }, [])

/-- `event.docs[i].data()['uid']`. -/
def uidAt (event : QuerySnapshot) (i : Nat) : Option String :=
  event.docs[i]?.bind fun doc => doc.data.string "uid"

/-- The listener of `getComments`: it starts one author lookup for each comment. -/
def onComments (event : QuerySnapshot) (s : Comments) : Comments × List Effect :=
  (({ s with comments := [], built := [] } : Comments).await
    ((List.range event.docs.length).map fun i => .author event i (uidAt event i)), [])

def commentOf (doc : QueryDoc) (value : LoginModel) : CommentModel :=
  { CommentModel.fromJson doc.data with image := value.image, name := value.name }

/-- The value of the author lookup, null when it failed. -/
def getUidUserNameAndImage (data : Option Json) : Option LoginModel :=
  LoginModel.fromJson data

/-- The callback of the `i`-th lookup.  On a null value `value.image` throws
before anything is added, and the error is caught. -/
def authorThen (event : QuerySnapshot) (i : Nat) (value : Option LoginModel) (s : Comments) :
    Comments × List Effect :=
  match event.docs[i]?, value with
  | some doc, some v =>
    ({ s with comments := s.comments ++ [commentOf doc v], built := s.built ++ [doc],
              commentsId := s.commentsId ++ [doc.id] },
      if i + 1 = event.docs.length then [.emit .getCommentSuccess] else [])
  | _, _ => (s, [])

def issue (s : Comments) (w : Write) : Comments × List Effect :=
  (s.await [.write w], [.issue w])

def sendComment (text now : String) (s : Comments) : Comments × List Effect :=
  s.issue (.addComment s.selectedPostId (.ofText s.uId (some text) (some now)))

def deleteComment (index : Nat) (s : Comments) : Comments × List Effect :=
  match s.comments[index]? with
  | none => (s, [.throws .comments])
  | some comment =>
    if comment.uid = s.uId then
      match s.commentsId[index]? with
      | none => (s, [.throws .commentsId])
      | some id => s.issue (.deleteComment s.selectedPostId id)
    else (s, [.toast "You Can Not Delete This Comment" 2])

/-- The `whenComplete` of a write, which runs on success and on failure. -/
def writeThen (w : Write) (s : Comments) : Comments × List Effect :=
  match w with
  | .addComment _ _ =>
    ({ s with selectedPostId := "" }, [.toast "Done" 0, .emit .sendCommentSuccess])
  | .deleteComment _ _ => (s, [.toast "Deleted" 0, .emit .deleteCommentSuccess])

/-! ## CommentsScreen -/

/-- The first build of a CommentsScreen on the cubit. -/
def firstBuild (postId : String) (likes : Option Int) (s : Comments) : Comments × List Effect :=
  let r := s.setSelectedPostId postId
  (((r.1.getComments).1.setLikes likes).1,
    r.2 ++ r.1.getComments.2 ++ ((r.1.getComments).1.setLikes likes).2)

/-- The text field, submitted with `text` in it. -/
def submit (text now : String) (s : Comments) : Comments × List Effect :=
  if text = "" then (s, []) else s.sendComment text now

inductive Event
  | firstBuild (postId : String) (likes : Option Int)
  | submit (text now : String)
  /-- The dialog of row `index` is answered with yes. -/
  | deleteComment (index : Nat)
  /-- Another user logs in, or nobody. -/
  | user (uId : Option String)
  /-- A subscription of `getComments` delivers. -/
  | snapshot (event : QuerySnapshot)
  /-- The lookup of the `k`-th callback answers, with `none` for a read that
  failed or found no document. -/
  | author (k : Nat) (data : Option Json)
  /-- The `k`-th write settles. -/
  | settled (k : Nat)

def step (s : Comments) : Event → Option (Comments × List Effect)
  | .firstBuild postId likes => some (s.firstBuild postId likes)
  | .submit text now => some (s.submit text now)
  | .deleteComment index => some (s.deleteComment index)
  | .user uId => some ({ s with uId }, [])
  | .snapshot event => if 0 < s.subscriptions then some (s.onComments event) else none
  | .author k data =>
    match s.inFlight[k]? with
    | some (.author event i _) =>
      some ((s.landed k).authorThen event i (getUidUserNameAndImage data))
    | _ => none
  | .settled k =>
    match s.inFlight[k]? with
    | some (.write w) => some ((s.landed k).writeThen w)
    | _ => none

def machine : Reactive.Machine Comments Event Effect := ⟨step⟩

end Comments
end SocialApp
