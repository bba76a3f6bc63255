import SocialApp.Home.Rows

/-! # ProfileScreen and ProfileCubit

The profile shows the posts of the user from a query of its own, and its rows are
built from the lists of `ProfileCubit`.  What a tap on a row does is done by
`SocialHomeCubit`, with the number of the row as an index into the lists of the
feed. -/

namespace SocialApp

open Home (removeAt)

/-- The home cubit, and the fields of the profile cubit on the screen. -/
structure Profile where
  home : Home
  posts : List PostModel
  postId : List String

namespace Profile

inductive ProfileCubitStates
  | getUserPosts
  | deleteUserPost
  | logout
deriving DecidableEq

/-- The effects of the home cubit, and those of the profile.  `commentsScreen`
opens the comments of a post, under its number of likes. -/
inductive Effect
  | home (e : Home.Effect)
  | emit (state : ProfileCubitStates)
  | commentsScreen (postId : String) (likes : Option Int)
  | throws (e : Home.Thrown)
deriving DecidableEq

def init (uId : Option String) : Profile := { home := Home.init uId, posts := [], postId := [] }

/-- A call of the home cubit from the profile. -/
def call (f : Home → Home × List Home.Effect) (s : Profile) : Profile × List Effect :=
  ({ s with home := (f s.home).1 }, (f s.home).2.map .home)

/-! ## ProfileCubit -/

def logout (s : Profile) : Profile × List Effect :=
  ((s.call Home.logout).1, (s.call Home.logout).2 ++ [.emit .logout])

/-- The listener of `getUserPosts`. -/
def onUserPosts (event : QuerySnapshot) (s : Profile) : Profile × List Effect :=
  ({ s with posts := event.docs.map fun doc => PostModel.fromJson doc.data,
            postId := event.docs.map QueryDoc.id }, [.emit .getUserPosts])

def deletePost (index : Int) (s : Profile) : Profile × List Effect :=
  match removeAt s.posts index with
  | none => (s, [.throws .indexRange])
  | some posts =>
    let s := { s with posts }
    match removeAt s.postId index with
    | none => (s, [.throws .indexRange])
    | some postId => ({ s with postId }, [.emit .deleteUserPost])

/-! ## The rows of ProfileScreen -/

/-- An error of the home cubit ends the callback that called it. -/
def threw (o : List Home.Effect) : Bool :=
  o.any fun
    | .throws _ => true
    | _ => false

/-- The delete button of row `index`. -/
def rowDelete (index : Nat) (s : Profile) : Profile × List Effect :=
  match s.home.model, s.posts[index]? with
  | none, _ => (s, [.throws .nullValue])
  | some _, none => (s, [.throws .indexRange])
  | some m, some post =>
    if m.uid = post.uid then
      match s.home.postId[index]? with
      | none => (s, [.throws .postIdRange])
      | some id =>
        let r := s.call (Home.deletePost index id)
        if threw (s.home.deletePost index id).2 then r
        else ((r.1.deletePost index).1, r.2 ++ (r.1.deletePost index).2)
    else (s, [.home (.toast "you can not delete otherone post" 2)])

/-- The like button of row `index`, which is that of the home screen. -/
def rowLike (index : Nat) (s : Profile) : Profile × List Effect := s.call (Home.rowLike index)

/-- The comments button of row `index`. -/
def rowComments (index : Nat) (s : Profile) : Profile × List Effect :=
  match s.home.postId[index]? with
  | none => (s, [.throws .postIdRange])
  | some id => (s, [.commentsScreen id (s.home.likes id)])

/-- The comment field of row `index`, which is that of the home screen. -/
def rowComment (index : Nat) (text now : String) (s : Profile) : Profile × List Effect :=
  s.call (Home.rowComment index text now)

/-! ## Events -/

inductive Event
  | home (e : Home.Event)
  /-- The screen is built with a new cubit. -/
  | opened
  /-- The subscription of `getUserPosts` delivers. -/
  | userPosts (event : QuerySnapshot)
  | logout
  | delete (index : Nat)
  | like (index : Nat)
  | comments (index : Nat)
  | comment (index : Nat) (text now : String)

/-- The row that is tapped. -/
def Event.row : Event → Option Nat
  | .delete index => some index
  | .like index => some index
  | .comments index => some index
  | .comment index _ _ => some index
  | _ => none

def handle (s : Profile) : Event → Option (Profile × List Effect)
  | .home e => (s.home.step e).map fun r => ({ s with home := r.1 }, r.2.map .home)
  | .opened => some ({ s with posts := [], postId := [] }, [])
  | .userPosts event => some (s.onUserPosts event)
  | .logout => some s.logout
  | .delete index => some (s.rowDelete index)
  | .like index => some (s.rowLike index)
  | .comments index => some (s.rowComments index)
  | .comment index text now => some (s.rowComment index text now)

/-- The list has a row for each of `posts`, and no other row can be tapped. -/
def step (s : Profile) (e : Event) : Option (Profile × List Effect) :=
  if ∀ i ∈ e.row, i < s.posts.length then s.handle e else none

def machine : Reactive.Machine Profile Event Effect := ⟨step⟩

end Profile
end SocialApp
