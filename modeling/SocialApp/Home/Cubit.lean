import SocialApp.Models
import SocialApp.Reactive.Machine
import Mathlib.Logic.Function.Basic

/-! # SocialHomeCubit

The cubit behind the home screen, created once at the root of the app.  Its
methods run to their end without interruption, and what they start with `then`,
`whenComplete` and `listen` runs later, in any order.  `Pending` is what such a
callback has captured, an `Event` is a call from a screen or the arrival of
something awaited, and `step` runs the code that belongs to it. -/

namespace SocialApp
namespace Home

inductive SocialHomeStates
  | getUserLoading
  | getUserSuccess
  | getUserError
  | getPostsLoading
  | getPostsSuccess
  | sendCommentSuccess
  | getLikesSuccess
  | unLikeSuccess
  | likeSuccess
deriving DecidableEq

/-- A write sent to Firestore, with the document or the collection it is for. -/
inductive Write
  | addComment (post : String) (comment : CommentModel)
  | deletePost (post : String)
  | setLike (post : String) (uid : Option String)
  | deleteLike (post : String) (uid : Option String)
deriving DecidableEq

/-- The post that a write is of. -/
def Write.post : Write → String
  | .addComment post _ => post
  | .deletePost post => post
  | .setLike post _ => post
  | .deleteLike post _ => post

/-- What a callback waits for, with the variables it has captured.  Snapshots are
numbered as they are delivered, since each is an object of its own, and a lookup
has asked for the document of `uid`.  A write is `applied` when the server has
carried it out but not yet answered. -/
inductive Pending
  | getUserData (uid : Option String)
  | author (snapshot : Nat) (event : QuerySnapshot) (i : Nat) (uid : Option String)
  | getComments (i : Nat) (post : String)
  | getLikes (i : Nat) (post : String)
  | write (w : Write) (applied : Bool)

/-- The maps that the responses fill. -/
inductive Field
  | comments
  | likes
  | myLikes
deriving DecidableEq

inductive Thrown
  /-- `postId[i]` is past the end of the list. -/
  | postIdRange
  /-- `removeAt(index)`, or a row's `posts[index]`, is out of range. -/
  | indexRange
  | nullValue
deriving DecidableEq

/-- What a step does besides changing the fields.  `stored` records an assignment
to an entry of a map, with the post whose collection the value was read from;
`lookedUp` records the end of an author lookup with what its callback added to
`posts` and `postId`. -/
inductive Effect
  | emit (state : SocialHomeStates)
  | toast (msg : String) (state : Nat)
  | issue (w : Write)
  | applied (w : Write)
  | lookedUp (snapshot i : Nat) (added : Option (PostModel × String))
  | stored (field : Field) (key source : String)
  | throws (e : Thrown)
deriving DecidableEq

end Home

/-- The fields of the cubit, the global `uId`, and the callbacks not yet run. -/
structure Home where
  uId : Option String
  model : Option LoginModel
  posts : List PostModel
  postId : List String
  comments : String → Option Nat
  likes : String → Option Int
  myLikes : String → Option Bool
  selectedPostId : String
  subscriptions : Nat
  delivered : Nat
  inFlight : List Home.Pending

namespace Home

/-- The cubit as created, in a process started with `uId` from the cache. -/
def init (uId : Option String) : Home :=
  { uId, model := none, posts := [], postId := [],
    comments := fun _ => none, likes := fun _ => none, myLikes := fun _ => none,
    selectedPostId := "", subscriptions := 0, delivered := 0, inFlight := [] }

/-- The state when the `k`-th callback starts to run. -/
def landed (s : Home) (k : Nat) : Home :=
  { s with inFlight := s.inFlight.eraseIdx k }

def await (s : Home) (ps : List Pending) : Home :=
  { s with inFlight := s.inFlight ++ ps }

/-! ## The profile of the user -/

def getUserData (s : Home) : Home × List Effect :=
  (s.await [.getUserData s.uId], [.emit .getUserLoading])

/-- The handlers of `getUserData`.  A failed read and a missing document, on
which `fromJson` throws, end in the same `catchError`. -/
def getUserDataThen (data : Option Json) (s : Home) : Home × List Effect :=
  match LoginModel.fromJson data with
  | some m => ({ s with model := some m }, [.emit .getUserSuccess])
  | none => (s, [.emit .getUserError])

/-! ## Likes and comments of the loaded posts -/

def getLikes (s : Home) : Home × List Effect :=
  (({ s with likes := fun _ => none, myLikes := fun _ => none } : Home).await
    (s.postId.mapIdx fun i post => .getLikes i post), [])

/-- The handler of the `i`-th request of `getLikes`, which was made for the likes
of `post`.  The id under which the answer is stored is read again from `postId`. -/
def getLikesThen (i : Nat) (post : String) (docs : List String) (s : Home) :
    Home × List Effect :=
  match s.postId[i]? with
  | none => (s, [.throws .postIdRange])
  | some key =>
    -- `myLikes[key]` is set to false, and to true by each document named `uId`
    let mine := docs.filter fun id => s.uId = some id
    ({ s with likes := Function.update s.likes key (some docs.length),
              myLikes := Function.update s.myLikes key (some !mine.isEmpty) },
      [.stored .likes key post, .stored .myLikes key post] ++
        mine.map (fun _ => .stored .myLikes key post) ++
        if i + 1 = s.postId.length then [.emit .getLikesSuccess] else [])

def getComments (s : Home) : Home × List Effect :=
  (({ s with comments := fun _ => none } : Home).await
    (s.postId.mapIdx fun i post => .getComments i post), [])

/-- The handler of the `i`-th request of `getComments`, made for `post`. -/
def getCommentsThen (i : Nat) (post : String) (docs : List String) (s : Home) :
    Home × List Effect :=
  match s.postId[i]? with
  | none => (s, [.throws .postIdRange])
  | some key =>
    let s := { s with comments := Function.update s.comments key (some docs.length) }
    if i + 1 = s.postId.length then
      (s.getLikes.1, .stored .comments key post :: s.getLikes.2)
    else (s, [.stored .comments key post])

/-! ## The feed -/

def getPosts (s : Home) : Home × List Effect :=
  ({ s with subscriptions := s.subscriptions + 1 }, [.emit .getPostsLoading])

/-- `event.docs.elementAt(event.docs.length - 1 - i)`. -/
def docAt (event : QuerySnapshot) (i : Nat) : Option QueryDoc :=
  event.docs[event.docs.length - 1 - i]?

/-- The `uid` in the data of that document. -/
def uidAt (event : QuerySnapshot) (i : Nat) : Option String :=
  (docAt event i).bind fun doc => doc.data.string "uid"

/-- The listener of `getPosts`: it starts one author lookup for each document. -/
def onPosts (event : QuerySnapshot) (s : Home) : Home × List Effect :=
  let s := { s with posts := [], postId := [], delivered := s.delivered + 1 }
  (s.await ((List.range event.docs.length).map fun i =>
    .author s.delivered event i (uidAt event i)), [])

/-- The value of the author lookup, null when it failed. -/
def getUidUserNameAndImage (data : Option Json) : Option LoginModel :=
  LoginModel.fromJson data

def postOf (doc : QueryDoc) (value : LoginModel) : PostModel :=
  { PostModel.fromJson doc.data with
      postUserImage := value.image, postUserName := value.name }

/-- The callback of the `i`-th lookup.  The callbacks of a snapshot share one variable
`postModel`, and each assigns a new object to it first.  On a null value `value.image`
throws before anything is added, and the error is caught. -/
def authorThen (n : Nat) (event : QuerySnapshot) (i : Nat) (value : Option LoginModel)
    (s : Home) : Home × List Effect :=
  match docAt event i, value with
  | some doc, some v =>
    let s := { s with posts := s.posts ++ [postOf doc v], postId := s.postId ++ [doc.id] }
    let added := some (postOf doc v, doc.id)
    if i + 1 = event.docs.length then
      (s.getComments.1,
        .lookedUp n i added :: .emit .getPostsSuccess :: s.getComments.2)
    else (s, [.lookedUp n i added])
  | _, _ => (s, [.lookedUp n i none])

/-! ## Writes -/

def issue (s : Home) (w : Write) : Home × List Effect :=
  (s.await [.write w false], [.issue w])

/-- `List.removeAt`, which throws on an index out of range. -/
def removeAt {α : Type} (xs : List α) (index : Int) : Option (List α) :=
  if 0 ≤ index ∧ index < xs.length then some (xs.eraseIdx index.toNat) else none

def deletePost (index : Int) (postid : String) (s : Home) : Home × List Effect :=
  match removeAt s.posts index with
  | none => (s, [.throws .indexRange])
  | some posts =>
    let s := { s with posts }
    match removeAt s.postId index with
    | none => (s, [.throws .indexRange])
    | some postId => ({ s with postId } : Home).issue (.deletePost postid)

def like (s : Home) : Home × List Effect :=
  s.issue (.setLike s.selectedPostId s.uId)

/-- The `whenComplete` of `like`; `null + 1` throws. -/
def likeThen (s : Home) : Home × List Effect :=
  match s.likes s.selectedPostId with
  | none => (s, [.toast "Liked" 0, .throws .nullValue])
  | some n =>
    ({ s with likes := Function.update s.likes s.selectedPostId (some (n + 1)),
              myLikes := Function.update s.myLikes s.selectedPostId (some true) },
      [.toast "Liked" 0, .emit .likeSuccess])

def unLike (s : Home) : Home × List Effect :=
  s.issue (.deleteLike s.selectedPostId s.uId)

def unLikeThen (s : Home) : Home × List Effect :=
  let s := { s with myLikes := Function.update s.myLikes s.selectedPostId (some false) }
  match s.likes s.selectedPostId with
  | none => (s, [.toast "Unliked" 0, .throws .nullValue])
  | some n =>
    ({ s with likes := Function.update s.likes s.selectedPostId (some (n - 1)) },
      [.toast "Unliked" 0, .emit .unLikeSuccess])

def sendComment (text now : String) (s : Home) : Home × List Effect :=
  s.issue (.addComment s.selectedPostId (.ofText s.uId (some text) (some now)))

def sendCommentThen (s : Home) : Home × List Effect :=
  ({ s with selectedPostId := "" }, [.toast "Done" 0, .emit .sendCommentSuccess])

/-- The handler of a write that succeeded (`ok`) or failed.  `whenComplete` runs
in both cases, the `then` of `deletePost` only on success. -/
def writeThen (w : Write) (ok : Bool) (s : Home) : Home × List Effect :=
  match w with
  | .addComment _ _ => s.sendCommentThen
  | .deletePost _ => (s, if ok then [.toast "Deleted" 0] else [])
  | .setLike _ _ => s.likeThen
  | .deleteLike _ _ => s.unLikeThen

/-! ## The rows of HomeScreen -/

/-- The delete button of row `index`. -/
def rowDelete (index : Nat) (s : Home) : Home × List Effect :=
  match s.model, s.posts[index]? with
  | none, _ => (s, [.throws .nullValue])
  | some _, none => (s, [.throws .indexRange])
  | some m, some post =>
    if m.uid = post.uid then
      match s.postId[index]? with
      | none => (s, [.throws .postIdRange])
      | some id => s.deletePost index id
    else (s, [.toast "you can not delete otherone post" 2])

/-- The like button of row `index`; a null condition throws. -/
def rowLike (index : Nat) (s : Home) : Home × List Effect :=
  match s.postId[index]? with
  | none => (s, [.throws .postIdRange])
  | some id =>
    let s := { s with selectedPostId := id }
    match s.myLikes id with
    | none => (s, [.throws .nullValue])
    | some true => s.unLike
    | some false => s.like

/-- The comment field of row `index`, submitted with `text` in it. -/
def rowComment (index : Nat) (text now : String) (s : Home) : Home × List Effect :=
  if text = "" then (s, [])
  else match s.postId[index]? with
    | none => (s, [.throws .postIdRange])
    | some id => ({ s with selectedPostId := id } : Home).sendComment text now

/-! ## Sessions -/

/-- `userLogin` or `createUserRegister` has the account of `uid`: it becomes the
global `uId`, and the first build of the new SocialLayout loads its data. -/
def login (uid : String) (s : Home) : Home × List Effect :=
  let s := { s with uId := some uid }
  (s.getUserData.1.getPosts.1, s.getUserData.2 ++ s.getUserData.1.getPosts.2)

/-- `ProfileCubit.logout`, or the forced logout of `openChatScreen`. -/
def logout (s : Home) : Home × List Effect := ({ s with uId := none }, [])

/-! ## Events -/

inductive Event
  | login (uid : String)
  | logout
  | getUserData
  | getPosts
  | getComments
  | getLikes
  | deletePost (index : Int) (postid : String)
  | rowDelete (index : Nat)
  | rowLike (index : Nat)
  | rowComment (index : Nat) (text now : String)
  /-- A subscription of `getPosts` delivers. -/
  | snapshot (event : QuerySnapshot)
  /-- The read of the `k`-th callback answers, with `none` for a read that failed
  or found no document. -/
  | userData (k : Nat) (data : Option Json)
  | author (k : Nat) (data : Option Json)
  /-- The query of the `k`-th callback answers with the ids of its documents. -/
  | comments (k : Nat) (docs : List String)
  | likes (k : Nat) (docs : List String)
  /-- The query fails, and no handler runs. -/
  | queryFailed (k : Nat)
  /-- The server carries out the `k`-th write. -/
  | applied (k : Nat)
  /-- The `k`-th write settles: after it was carried out, or without. -/
  | settled (k : Nat) (ok : Bool)

def step (s : Home) : Event → Option (Home × List Effect)
  | .login uid => some (s.login uid)
  | .logout => some s.logout
  | .getUserData => some s.getUserData
  | .getPosts => some s.getPosts
  | .getComments => some s.getComments
  | .getLikes => some s.getLikes
  | .deletePost index postid => some (s.deletePost index postid)
  | .rowDelete index => some (s.rowDelete index)
  | .rowLike index => some (s.rowLike index)
  | .rowComment index text now => some (s.rowComment index text now)
  | .snapshot event => if 0 < s.subscriptions then some (s.onPosts event) else none
  | .userData k data =>
    match s.inFlight[k]? with
    | some (.getUserData _) => some ((s.landed k).getUserDataThen data)
    | _ => none
  | .author k data =>
    match s.inFlight[k]? with
    | some (.author n event i _) =>
      some ((s.landed k).authorThen n event i (getUidUserNameAndImage data))
    | _ => none
  | .comments k docs =>
    match s.inFlight[k]? with
    | some (.getComments i post) => some ((s.landed k).getCommentsThen i post docs)
    | _ => none
  | .likes k docs =>
    match s.inFlight[k]? with
    | some (.getLikes i post) => some ((s.landed k).getLikesThen i post docs)
    | _ => none
  | .queryFailed k =>
    match s.inFlight[k]? with
    | some (.getComments _ _) => some (s.landed k, [])
    | some (.getLikes _ _) => some (s.landed k, [])
    | _ => none
  | .applied k =>
    match s.inFlight[k]? with
    | some (.write w false) =>
      some ({ s with inFlight := s.inFlight.set k (.write w true) }, [.applied w])
    | _ => none
  | .settled k ok =>
    match s.inFlight[k]? with
    | some (.write w applied) =>
      if ok = applied then some ((s.landed k).writeThen w ok) else none
    | _ => none

def machine : Reactive.Machine Home Event Effect := ⟨step⟩

end Home
end SocialApp
