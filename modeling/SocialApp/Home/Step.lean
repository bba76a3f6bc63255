import SocialApp.Home.Cubit
import SocialApp.Reactive.InFlight

/-! # What a step of SocialHomeCubit can do

One inversion lemma for each kind of arrival, one for each handler, and one for
the rows (`posts` and `postId`) with the author lookups in flight.  The invariants
of the cubit are derived from these. -/

namespace SocialApp
namespace Home

theorem step_userData {s s' : Home} {k : Nat} {data : Option Json} {o : List Effect}
    (h : step s (.userData k data) = some (s', o)) :
    ∃ uid, s.inFlight[k]? = some (.getUserData uid) ∧
      (s.landed k).getUserDataThen data = (s', o) := by
  simp only [step] at h
  split at h
  · rename_i uid hk
    exact ⟨uid, hk, Option.some.inj h⟩
  · exact absurd h (by simp)

theorem step_author {s s' : Home} {k : Nat} {data : Option Json} {o : List Effect}
    (h : step s (.author k data) = some (s', o)) :
    ∃ n event i uid, s.inFlight[k]? = some (.author n event i uid) ∧
      (s.landed k).authorThen n event i (getUidUserNameAndImage data) = (s', o) := by
  simp only [step] at h
  split at h
  · rename_i n event i uid hk
    exact ⟨n, event, i, uid, hk, Option.some.inj h⟩
  · exact absurd h (by simp)

theorem step_comments {s s' : Home} {k : Nat} {docs : List String} {o : List Effect}
    (h : step s (.comments k docs) = some (s', o)) :
    ∃ i post, s.inFlight[k]? = some (.getComments i post) ∧
      (s.landed k).getCommentsThen i post docs = (s', o) := by
  simp only [step] at h
  split at h
  · rename_i i post hk
    exact ⟨i, post, hk, Option.some.inj h⟩
  · exact absurd h (by simp)

theorem step_likes {s s' : Home} {k : Nat} {docs : List String} {o : List Effect}
    (h : step s (.likes k docs) = some (s', o)) :
    ∃ i post, s.inFlight[k]? = some (.getLikes i post) ∧
      (s.landed k).getLikesThen i post docs = (s', o) := by
  simp only [step] at h
  split at h
  · rename_i i post hk
    exact ⟨i, post, hk, Option.some.inj h⟩
  · exact absurd h (by simp)

theorem step_queryFailed {s s' : Home} {k : Nat} {o : List Effect}
    (h : step s (.queryFailed k) = some (s', o)) :
    (∃ i post, s.inFlight[k]? = some (.getComments i post) ∨
      s.inFlight[k]? = some (.getLikes i post)) ∧ s' = s.landed k ∧ o = [] := by
  simp only [step] at h
  split at h
  · rename_i i post hk
    simp only [Option.some.injEq, Prod.mk.injEq] at h
    exact ⟨⟨i, post, Or.inl hk⟩, h.1.symm, h.2.symm⟩
  · rename_i i post hk
    simp only [Option.some.injEq, Prod.mk.injEq] at h
    exact ⟨⟨i, post, Or.inr hk⟩, h.1.symm, h.2.symm⟩
  · exact absurd h (by simp)

theorem step_applied {s s' : Home} {k : Nat} {o : List Effect}
    (h : step s (.applied k) = some (s', o)) :
    ∃ w, s.inFlight[k]? = some (.write w false) ∧
      s' = { s with inFlight := s.inFlight.set k (.write w true) } ∧ o = [.applied w] := by
  simp only [step] at h
  split at h
  · rename_i w hk
    simp only [Option.some.injEq, Prod.mk.injEq] at h
    exact ⟨w, hk, h.1.symm, h.2.symm⟩
  · exact absurd h (by simp)

theorem step_settled {s s' : Home} {k : Nat} {ok : Bool} {o : List Effect}
    (h : step s (.settled k ok) = some (s', o)) :
    ∃ w, s.inFlight[k]? = some (.write w ok) ∧ (s.landed k).writeThen w ok = (s', o) := by
  simp only [step] at h
  split at h
  · rename_i w applied hk
    split at h
    · rename_i heq
      exact ⟨w, heq ▸ hk, Option.some.inj h⟩
    · exact absurd h (by simp)
  · exact absurd h (by simp)

theorem step_snapshot {s s' : Home} {event : QuerySnapshot} {o : List Effect}
    (h : step s (.snapshot event) = some (s', o)) :
    0 < s.subscriptions ∧ s.onPosts event = (s', o) := by
  simp only [step] at h
  split at h
  · rename_i hpos
    exact ⟨hpos, Option.some.inj h⟩
  · exact absurd h (by simp)

/-! ## The handlers

What each call or callback can come to, with the state it leaves and its
effects. -/

theorem getUserDataThen_cases (s : Home) (data : Option Json) :
    LoginModel.fromJson data = none ∧
        s.getUserDataThen data = (s, [.emit .getUserError]) ∨
      ∃ m, LoginModel.fromJson data = some m ∧
        s.getUserDataThen data = ({ s with model := some m }, [.emit .getUserSuccess]) := by
  unfold getUserDataThen
  cases hm : LoginModel.fromJson data with
  | none => exact Or.inl ⟨rfl, rfl⟩
  | some m => exact Or.inr ⟨m, rfl, rfl⟩

/-- The rows with the document of a lookup and its author added. -/
def addRow (doc : QueryDoc) (v : LoginModel) (s : Home) : Home :=
  { s with posts := s.posts ++ [postOf doc v], postId := s.postId ++ [doc.id] }

theorem authorThen_cases (s : Home) (n : Nat) (event : QuerySnapshot) (i : Nat)
    (value : Option LoginModel) :
    (docAt event i = none ∨ value = none) ∧
        s.authorThen n event i value = (s, [.lookedUp n i none]) ∨
      ∃ doc v, docAt event i = some doc ∧ value = some v ∧
        (i + 1 ≠ event.docs.length ∧ s.authorThen n event i value =
            (s.addRow doc v, [.lookedUp n i (some (postOf doc v, doc.id))]) ∨
          i + 1 = event.docs.length ∧ s.authorThen n event i value =
            ((s.addRow doc v).getComments.1,
              [.lookedUp n i (some (postOf doc v, doc.id)), .emit .getPostsSuccess])) := by
  unfold authorThen
  cases hdoc : docAt event i with
  | none => exact Or.inl ⟨Or.inl rfl, rfl⟩
  | some doc =>
    cases value with
    | none => exact Or.inl ⟨Or.inr rfl, rfl⟩
    | some v =>
      refine Or.inr ⟨doc, v, rfl, rfl, ?_⟩
      by_cases hlast : i + 1 = event.docs.length
      · exact Or.inr ⟨hlast, if_pos hlast⟩
      · exact Or.inl ⟨hlast, if_neg hlast⟩

/-- A number of comments, stored under `key`. -/
def storeComments (key : String) (n : Nat) (s : Home) : Home :=
  { s with comments := Function.update s.comments key (some n) }

theorem getCommentsThen_cases (s : Home) (i : Nat) (post : String) (docs : List String) :
    s.postId[i]? = none ∧ s.getCommentsThen i post docs = (s, [.throws .postIdRange]) ∨
      ∃ key, s.postId[i]? = some key ∧
        (i + 1 ≠ s.postId.length ∧ s.getCommentsThen i post docs =
            (s.storeComments key docs.length, [.stored .comments key post]) ∨
          i + 1 = s.postId.length ∧ s.getCommentsThen i post docs =
            ((s.storeComments key docs.length).getLikes.1, [.stored .comments key post])) := by
  unfold getCommentsThen
  cases hkey : s.postId[i]? with
  | none => exact Or.inl ⟨rfl, rfl⟩
  | some key =>
    refine Or.inr ⟨key, rfl, ?_⟩
    by_cases hlast : i + 1 = s.postId.length
    · exact Or.inr ⟨hlast, if_pos hlast⟩
    · exact Or.inl ⟨hlast, if_neg hlast⟩

/-- A number of likes, and whether the user's is among them, stored under `key`. -/
def storeLikes (key : String) (n : Int) (mine : Bool) (s : Home) : Home :=
  { s with likes := Function.update s.likes key (some n),
           myLikes := Function.update s.myLikes key (some mine) }

theorem storeLikes_myLikes (key : String) (n : Int) (mine : Bool) (s : Home) :
    (s.storeLikes key n mine).myLikes = Function.update s.myLikes key (some mine) := rfl

/-- The user's own is among the documents of a likes collection. -/
def mine (s : Home) (docs : List String) : Bool :=
  !(docs.filter fun id => s.uId = some id).isEmpty

theorem getLikesThen_cases (s : Home) (i : Nat) (post : String) (docs : List String) :
    s.postId[i]? = none ∧ s.getLikesThen i post docs = (s, [.throws .postIdRange]) ∨
      ∃ key o, s.postId[i]? = some key ∧
        s.getLikesThen i post docs = (s.storeLikes key docs.length (s.mine docs), o) ∧
        .stored .likes key post ∈ o ∧
        (∀ x ∈ o, (∃ field, field ≠ .comments ∧ x = .stored field key post) ∨
          x = .emit .getLikesSuccess) ∧
        (i + 1 = s.postId.length → .emit .getLikesSuccess ∈ o) := by
  unfold getLikesThen
  cases hkey : s.postId[i]? with
  | none => exact Or.inl ⟨rfl, rfl⟩
  | some key =>
    refine Or.inr ⟨key, _, rfl, rfl, by simp, fun x hx => ?_, fun hlast => by simp [hlast]⟩
    rcases List.mem_append.mp hx with hx | hx
    · rcases List.mem_append.mp hx with hx | hx
      · rcases List.mem_cons.mp hx with rfl | hx
        · exact Or.inl ⟨.likes, by simp, rfl⟩
        · exact Or.inl ⟨.myLikes, by simp, List.mem_singleton.mp hx⟩
      · obtain ⟨_, _, rfl⟩ := List.mem_map.mp hx
        exact Or.inl ⟨.myLikes, by simp, rfl⟩
    · split at hx
      · exact Or.inr (List.mem_singleton.mp hx)
      · exact absurd hx (by simp)

theorem deletePost_cases (s : Home) (index : Int) (postid : String) :
    removeAt s.posts index = none ∧
        s.deletePost index postid = (s, [.throws .indexRange]) ∨
      ∃ posts, removeAt s.posts index = some posts ∧
        (removeAt s.postId index = none ∧
            s.deletePost index postid = ({ s with posts }, [.throws .indexRange]) ∨
          ∃ postId, removeAt s.postId index = some postId ∧
            s.deletePost index postid =
              ({ s with posts, postId } : Home).issue (.deletePost postid)) := by
  unfold deletePost
  cases hposts : removeAt s.posts index with
  | none => exact Or.inl ⟨rfl, rfl⟩
  | some posts =>
    refine Or.inr ⟨posts, rfl, ?_⟩
    dsimp only
    cases hpostId : removeAt s.postId index with
    | none => exact Or.inl ⟨rfl, rfl⟩
    | some postId => exact Or.inr ⟨postId, rfl, rfl⟩

/-- The delete button does nothing but throw or refuse, or it deletes the post of a
row whose author is the user of `model`. -/
theorem rowDelete_cases (s : Home) (index : Nat) :
    (∃ x, ((∃ e, x = .throws e) ∨ ∃ msg n, x = .toast msg n) ∧
        s.rowDelete index = (s, [x])) ∨
      ∃ m post id, s.model = some m ∧ s.posts[index]? = some post ∧ m.uid = post.uid ∧
        s.postId[index]? = some id ∧ s.rowDelete index = s.deletePost index id := by
  unfold rowDelete
  cases hm : s.model with
  | none => exact Or.inl ⟨_, Or.inl ⟨.nullValue, rfl⟩, rfl⟩
  | some m =>
    cases hpost : s.posts[index]? with
    | none => exact Or.inl ⟨_, Or.inl ⟨.indexRange, rfl⟩, rfl⟩
    | some post =>
      dsimp only
      by_cases huid : m.uid = post.uid
      · rw [if_pos huid]
        cases hid : s.postId[index]? with
        | none => exact Or.inl ⟨_, Or.inl ⟨.postIdRange, rfl⟩, rfl⟩
        | some id => exact Or.inr ⟨m, post, id, rfl, rfl, huid, rfl, rfl⟩
      · rw [if_neg huid]
        exact Or.inl ⟨_, Or.inr ⟨_, _, rfl⟩, rfl⟩

/-- The like (`put`) or unlike of a post. -/
def likeWrite (put : Bool) (p : String) (uid : Option String) : Write :=
  if put then .setLike p uid else .deleteLike p uid

/-- A tap on a like button asks for the opposite of what the row shows. -/
theorem rowLike_cases (s : Home) (index : Nat) :
    s.postId[index]? = none ∧ s.rowLike index = (s, [.throws .postIdRange]) ∨
      ∃ id, s.postId[index]? = some id ∧
        (s.myLikes id = none ∧
            s.rowLike index = ({ s with selectedPostId := id }, [.throws .nullValue]) ∨
          ∃ b, s.myLikes id = some b ∧ s.rowLike index =
            ({ s with selectedPostId := id } : Home).issue (likeWrite (!b) id s.uId)) := by
  unfold rowLike
  cases hid : s.postId[index]? with
  | none => exact Or.inl ⟨rfl, rfl⟩
  | some id =>
    refine Or.inr ⟨id, rfl, ?_⟩
    dsimp only
    cases hlike : s.myLikes id with
    | none => exact Or.inl ⟨rfl, rfl⟩
    | some b =>
      refine Or.inr ⟨b, rfl, ?_⟩
      cases b with
      | false => rfl
      | true => rfl

theorem rowComment_cases (s : Home) (index : Nat) (text now : String) :
    text = "" ∧ s.rowComment index text now = (s, []) ∨
      text ≠ "" ∧
        (s.postId[index]? = none ∧
            s.rowComment index text now = (s, [.throws .postIdRange]) ∨
          ∃ id, s.postId[index]? = some id ∧ s.rowComment index text now =
            ({ s with selectedPostId := id } : Home).sendComment text now) := by
  unfold rowComment
  by_cases htext : text = ""
  · exact Or.inl ⟨htext, if_pos htext⟩
  · rw [if_neg htext]
    refine Or.inr ⟨htext, ?_⟩
    cases hid : s.postId[index]? with
    | none => exact Or.inl ⟨rfl, rfl⟩
    | some id => exact Or.inr ⟨id, rfl, rfl⟩

/-! ## Asking for the likes -/

/-- The step runs `getLikes`: it is called, or the comments of the last post arrive. -/
def asksLikes (s : Home) : Event → Bool
  | .getLikes => true
  | .comments k _ =>
    match s.inFlight[k]? with
    | some (.getComments i _) => i + 1 = s.postId.length
    | _ => false
  | _ => false

/-- Such a step ends as `getLikes` does, with the user, the model and the list as they
were. -/
theorem step_asksLikes {s s' : Home} {e : Event} {o : List Effect}
    (h : step s e = some (s', o)) (hask : s.asksLikes e = true) :
    ∃ t : Home, s' = t.getLikes.1 ∧ t.uId = s.uId ∧ t.model = s.model ∧ t.posts = s.posts ∧
      t.postId = s.postId := by
  cases e with
  | getLikes => exact ⟨s, (Prod.mk.inj (Option.some.inj h)).1.symm, rfl, rfl, rfl, rfl⟩
  | comments k docs =>
    obtain ⟨i, post, hk, h⟩ := step_comments h
    simp only [asksLikes, hk, decide_eq_true_eq] at hask
    rcases getCommentsThen_cases (s.landed k) i post docs with
      ⟨hkey, hr⟩ | ⟨key, hkey, ⟨hlast, hr⟩ | ⟨hlast, hr⟩⟩
    · have hlength : s.postId.length ≤ i := List.getElem?_eq_none_iff.mp hkey
      omega
    · exact absurd hask hlast
    · exact ⟨_, (Prod.mk.inj (hr.symm.trans h)).1.symm, rfl, rfl, rfl, rfl⟩
  | _ => exact absurd hask (by simp [asksLikes])

/-! ## Effects of a load -/

/-- The effects that only the callbacks of a load have. -/
def Effect.ofLoad : Effect → Bool
  | .lookedUp _ _ _ => true
  | .stored _ _ _ => true
  | .emit .getPostsSuccess => true
  | .emit .getLikesSuccess => true
  | _ => false

/-- The arrivals of a load. -/
def Event.loads : Event → Bool
  | .author _ _ => true
  | .comments _ _ => true
  | .likes _ _ => true
  | _ => false

/-- No effect is one of a load. -/
def Plain (o : List Effect) : Prop := ∀ x ∈ o, x.ofLoad = false

theorem deletePost_plain (s : Home) (index : Int) (postid : String) :
    Plain (s.deletePost index postid).2 := by
  rcases deletePost_cases s index postid with ⟨_, h⟩ | ⟨posts, _, ⟨_, h⟩ | ⟨postId, _, h⟩⟩
  all_goals
    rw [h]
    simp [Plain, Effect.ofLoad, issue]

theorem rowDelete_plain (s : Home) (index : Nat) : Plain (s.rowDelete index).2 := by
  rcases rowDelete_cases s index with ⟨x, hx, h⟩ | ⟨m, post, id, _, _, _, _, h⟩
  · rw [h]
    rcases hx with ⟨e, rfl⟩ | ⟨msg, n, rfl⟩
    · simp [Plain, Effect.ofLoad]
    · simp [Plain, Effect.ofLoad]
  · rw [h]
    exact deletePost_plain s index id

theorem rowLike_plain (s : Home) (index : Nat) : Plain (s.rowLike index).2 := by
  rcases rowLike_cases s index with ⟨_, h⟩ | ⟨id, _, ⟨_, h⟩ | ⟨b, _, h⟩⟩
  all_goals
    rw [h]
    simp [Plain, Effect.ofLoad, issue]

theorem rowComment_plain (s : Home) (index : Nat) (text now : String) :
    Plain (s.rowComment index text now).2 := by
  rcases rowComment_cases s index text now with ⟨_, h⟩ | ⟨_, ⟨_, h⟩ | ⟨id, _, h⟩⟩
  all_goals
    rw [h]
    simp [Plain, Effect.ofLoad, sendComment, issue]

theorem writeThen_plain (s : Home) (w : Write) (ok : Bool) : Plain (s.writeThen w ok).2 := by
  cases w with
  | addComment post comment => simp [writeThen, sendCommentThen, Plain, Effect.ofLoad]
  | deletePost post => cases ok <;> simp [writeThen, Plain, Effect.ofLoad]
  | setLike post uid =>
    simp only [writeThen, likeThen]
    split <;> simp [Plain, Effect.ofLoad]
  | deleteLike post uid =>
    simp only [writeThen, unLikeThen]
    split <;> simp [Plain, Effect.ofLoad]

/-- Only the arrivals of a load have its effects. -/
theorem step_plain {s s' : Home} {e : Event} {o : List Effect} (h : step s e = some (s', o))
    (he : e.loads = false) : Plain o := by
  have hret : ∀ {r : Home × List Effect}, r = (s', o) → Plain r.2 → Plain o := by
    rintro r rfl hr
    exact hr
  cases e with
  | author k data => exact absurd he (by simp [Event.loads])
  | comments k docs => exact absurd he (by simp [Event.loads])
  | likes k docs => exact absurd he (by simp [Event.loads])
  | snapshot event => exact hret (step_snapshot h).2 (by simp [onPosts, Plain])
  | userData k data =>
    obtain ⟨uid, _, h⟩ := step_userData h
    rcases getUserDataThen_cases (s.landed k) data with ⟨_, hr⟩ | ⟨m, _, hr⟩
    · exact hret (hr.symm.trans h) (by simp [Plain, Effect.ofLoad])
    · exact hret (hr.symm.trans h) (by simp [Plain, Effect.ofLoad])
  | queryFailed k =>
    obtain ⟨_, _, rfl⟩ := step_queryFailed h
    simp [Plain]
  | applied k =>
    obtain ⟨w, _, _, rfl⟩ := step_applied h
    simp [Plain, Effect.ofLoad]
  | settled k ok =>
    obtain ⟨w, _, h⟩ := step_settled h
    exact hret h (writeThen_plain _ w ok)
  | rowDelete index => exact hret (Option.some.inj h) (rowDelete_plain s index)
  | deletePost index postid =>
    exact hret (Option.some.inj h) (deletePost_plain s index postid)
  | rowLike index => exact hret (Option.some.inj h) (rowLike_plain s index)
  | rowComment index text now =>
    exact hret (Option.some.inj h) (rowComment_plain s index text now)
  | login uid =>
    exact hret (Option.some.inj h)
      (by simp [login, getUserData, getPosts, Plain, Effect.ofLoad])
  | logout => exact hret (Option.some.inj h) (by simp [logout, Plain])
  | getUserData =>
    exact hret (Option.some.inj h) (by simp [getUserData, Plain, Effect.ofLoad])
  | getPosts =>
    exact hret (Option.some.inj h) (by simp [getPosts, Plain, Effect.ofLoad])
  | getComments => exact hret (Option.some.inj h) (by simp [getComments, Plain])
  | getLikes => exact hret (Option.some.inj h) (by simp [getLikes, Plain])

/-! ## Steps and the rows -/

/-- The author lookup a callback belongs to. -/
def authorOf : Pending → Option (Nat × QuerySnapshot × Nat × Option String)
  | .author n event i uid => some (n, event, i, uid)
  | _ => none

/-- The author lookups in flight. -/
def authors (s : Home) : List (Nat × QuerySnapshot × Nat × Option String) :=
  s.inFlight.filterMap authorOf

theorem mem_authors_iff {s : Home} {n i : Nat} {event : QuerySnapshot} {uid : Option String} :
    (n, event, i, uid) ∈ s.authors ↔ .author n event i uid ∈ s.inFlight := by
  rw [authors, List.mem_filterMap]
  constructor
  · rintro ⟨p, hp, heq⟩
    cases p with
    | author n' event' i' uid' =>
      simp only [authorOf, Option.some.injEq, Prod.mk.injEq] at heq
      obtain ⟨rfl, rfl, rfl, rfl⟩ := heq
      exact hp
    | _ => exact absurd heq (by simp [authorOf])
  · intro h
    exact ⟨_, h, rfl⟩

/-- Calls that remove a row. -/
def Event.deletes : Event → Bool
  | .deletePost _ _ => true
  | .rowDelete _ => true
  | _ => false

def Silent (o : List Effect) : Prop := ∀ n i added, .lookedUp n i added ∉ o

theorem Plain.silent {o : List Effect} (h : Plain o) : Silent o :=
  fun _ _ _ hmem => absurd (h _ hmem) (by simp [Effect.ofLoad])

/-- What a step can do to the rows and to the author lookups. -/
inductive RowsStep (s s' : Home) (o : List Effect) : Event → Prop
  | same {e : Event} (other : ∀ k data, e ≠ .author k data)
      (posts : s'.posts = s.posts) (postId : s'.postId = s.postId)
      (authors : s'.authors = s.authors) (delivered : s'.delivered = s.delivered)
      (silent : Silent o) : RowsStep s s' o e
  | snapshot {event : QuerySnapshot}
      (posts : s'.posts = []) (postId : s'.postId = [])
      (authors : s'.authors =
        s.authors ++ (List.range event.docs.length).map fun i =>
          (s.delivered + 1, event, i, uidAt event i))
      (delivered : s'.delivered = s.delivered + 1)
      (silent : o = []) : RowsStep s s' o (.snapshot event)
  | author {k : Nat} {data : Option Json} {n : Nat} {event : QuerySnapshot} {i : Nat}
      {uid : Option String} {added : Option (PostModel × String)} {rest : List Effect}
      (request : s.inFlight[k]? = some (.author n event i uid))
      (posts : s'.posts = s.posts ++ (added.map Prod.fst).toList)
      (postId : s'.postId = s.postId ++ (added.map Prod.snd).toList)
      (authors : ((n, event, i, uid) :: s'.authors).Perm s.authors)
      (delivered : s'.delivered = s.delivered)
      (effects : o = .lookedUp n i added :: rest) (silent : Silent rest)
      (added_eq : added = (docAt event i).bind fun doc =>
        (getUidUserNameAndImage data).map fun v => (postOf doc v, doc.id)) :
      RowsStep s s' o (.author k data)
  | removed {e : Event} {index : Int} (deletes : e.deletes = true)
      (posts : removeAt s.posts index = some s'.posts)
      (postId : removeAt s.postId index = some s'.postId ∨
        removeAt s.postId index = none ∧ s'.postId = s.postId)
      (authors : s'.authors = s.authors) (delivered : s'.delivered = s.delivered)
      (silent : Silent o) : RowsStep s s' o e

theorem authors_await (s : Home) (ps : List Pending) :
    (s.await ps).authors = s.authors ++ ps.filterMap authorOf := by
  simp [authors, await]

theorem authors_landed {s : Home} {k : Nat} {p : Pending} (hk : s.inFlight[k]? = some p)
    (hp : authorOf p = none) : (s.landed k).authors = s.authors :=
  Reactive.filterMap_eraseIdx_none hk hp

/-- The rows and the lookups are left alone. -/
structure KeepsRows (s s' : Home) : Prop where
  posts : s'.posts = s.posts
  postId : s'.postId = s.postId
  authors : s'.authors = s.authors
  delivered : s'.delivered = s.delivered

theorem KeepsRows.trans {s s₁ s₂ : Home} (h : KeepsRows s s₁) (h₁ : KeepsRows s₁ s₂) :
    KeepsRows s s₂ :=
  { posts := h₁.posts.trans h.posts
    postId := h₁.postId.trans h.postId
    authors := h₁.authors.trans h.authors
    delivered := h₁.delivered.trans h.delivered }

/-- A step that touches neither the rows nor the callbacks in flight. -/
theorem keepsRows_of_inFlight {s s' : Home} (posts : s'.posts = s.posts)
    (postId : s'.postId = s.postId) (inFlight : s'.inFlight = s.inFlight)
    (delivered : s'.delivered = s.delivered) : KeepsRows s s' :=
  { posts, postId, authors := congrArg (List.filterMap authorOf) inFlight, delivered }

theorem KeepsRows.rowsStep {s s' : Home} {o : List Effect} {e : Event} (h : KeepsRows s s')
    (other : ∀ k data, e ≠ .author k data) (ho : Silent o) : RowsStep s s' o e :=
  .same other h.posts h.postId h.authors h.delivered ho

theorem Event.ne_author_of_deletes {e : Event} (h : e.deletes = true) (k : Nat)
    (data : Option Json) : e ≠ .author k data := by
  rintro rfl
  exact absurd h (by simp [Event.deletes])

theorem Event.ne_author_of_loads {e : Event} (h : e.loads = false) (k : Nat)
    (data : Option Json) : e ≠ .author k data := by
  rintro rfl
  exact absurd h (by simp [Event.loads])

theorem landed_keepsRows {s : Home} {k : Nat} {p : Pending} (hk : s.inFlight[k]? = some p)
    (hp : authorOf p = none) : KeepsRows s (s.landed k) :=
  { posts := rfl, postId := rfl, authors := authors_landed hk hp, delivered := rfl }

theorem await_keepsRows {s : Home} {ps : List Pending} (h : ∀ p ∈ ps, authorOf p = none) :
    KeepsRows s (s.await ps) := by
  refine { posts := rfl, postId := rfl, authors := ?_, delivered := rfl }
  rw [authors_await, List.filterMap_eq_nil_iff.mpr h, List.append_nil]

theorem mapIdx_authorOf {req : Nat → String → Pending} (h : ∀ i p, authorOf (req i p) = none)
    (ids : List String) : ∀ p ∈ ids.mapIdx req, authorOf p = none := by
  intro p hp
  obtain ⟨i, hi, rfl⟩ := List.mem_mapIdx.mp hp
  exact h i _

theorem getComments_keepsRows (s : Home) : KeepsRows s s.getComments.1 := by
  have hrows : KeepsRows s (s.await (s.postId.mapIdx .getComments)) :=
    await_keepsRows (mapIdx_authorOf (fun _ _ => rfl) _)
  exact hrows.trans (keepsRows_of_inFlight rfl rfl rfl rfl)

theorem getLikes_keepsRows (s : Home) : KeepsRows s s.getLikes.1 := by
  have hrows : KeepsRows s (s.await (s.postId.mapIdx .getLikes)) :=
    await_keepsRows (mapIdx_authorOf (fun _ _ => rfl) _)
  exact hrows.trans (keepsRows_of_inFlight rfl rfl rfl rfl)

theorem issue_keepsRows (s : Home) (w : Write) : KeepsRows s (s.issue w).1 :=
  await_keepsRows (by simp [authorOf])

theorem getCommentsThen_keepsRows (s : Home) (i : Nat) (post : String) (docs : List String) :
    KeepsRows s (s.getCommentsThen i post docs).1 ∧
      Silent (s.getCommentsThen i post docs).2 := by
  rcases getCommentsThen_cases s i post docs with ⟨_, h⟩ | ⟨key, _, ⟨_, h⟩ | ⟨_, h⟩⟩
  · rw [h]
    exact ⟨keepsRows_of_inFlight rfl rfl rfl rfl, by simp [Silent]⟩
  · rw [h]
    exact ⟨keepsRows_of_inFlight rfl rfl rfl rfl, by simp [Silent]⟩
  · rw [h]
    refine ⟨?_, by simp [Silent]⟩
    exact (getLikes_keepsRows s).trans (keepsRows_of_inFlight rfl rfl rfl rfl)

theorem getLikesThen_keepsRows (s : Home) (i : Nat) (post : String) (docs : List String) :
    KeepsRows s (s.getLikesThen i post docs).1 ∧ Silent (s.getLikesThen i post docs).2 := by
  rcases getLikesThen_cases s i post docs with ⟨_, h⟩ | ⟨key, o, _, h, _, ho, _⟩
  · rw [h]
    exact ⟨keepsRows_of_inFlight rfl rfl rfl rfl, by simp [Silent]⟩
  · rw [h]
    refine ⟨keepsRows_of_inFlight rfl rfl rfl rfl, fun n j added hmem => ?_⟩
    rcases ho _ hmem with ⟨field, -, heq⟩ | heq
    · exact absurd heq (by simp)
    · exact absurd heq (by simp)

theorem writeThen_keepsRows (s : Home) (w : Write) (ok : Bool) :
    KeepsRows s (s.writeThen w ok).1 := by
  cases w with
  | addComment post comment => exact keepsRows_of_inFlight rfl rfl rfl rfl
  | deletePost post => exact keepsRows_of_inFlight rfl rfl rfl rfl
  | setLike post uid =>
    simp only [writeThen, likeThen]
    split <;> exact keepsRows_of_inFlight rfl rfl rfl rfl
  | deleteLike post uid =>
    simp only [writeThen, unLikeThen]
    split <;> exact keepsRows_of_inFlight rfl rfl rfl rfl

/-- A row's button selects its post, and sends at most one write. -/
theorem select_keepsRows (s : Home) (id : String) (w : Write) :
    KeepsRows s (({ s with selectedPostId := id } : Home).issue w).1 :=
  (issue_keepsRows s w).trans (keepsRows_of_inFlight rfl rfl rfl rfl)

theorem rowLike_keepsRows (s : Home) (index : Nat) : KeepsRows s (s.rowLike index).1 := by
  rcases rowLike_cases s index with ⟨_, h⟩ | ⟨id, _, ⟨_, h⟩ | ⟨b, _, h⟩⟩
  · rw [h]
    exact keepsRows_of_inFlight rfl rfl rfl rfl
  · rw [h]
    exact keepsRows_of_inFlight rfl rfl rfl rfl
  · rw [h]
    exact select_keepsRows s id _

theorem rowComment_keepsRows (s : Home) (index : Nat) (text now : String) :
    KeepsRows s (s.rowComment index text now).1 := by
  rcases rowComment_cases s index text now with ⟨_, h⟩ | ⟨_, ⟨_, h⟩ | ⟨id, _, h⟩⟩
  · rw [h]
    exact keepsRows_of_inFlight rfl rfl rfl rfl
  · rw [h]
    exact keepsRows_of_inFlight rfl rfl rfl rfl
  · rw [h]
    exact select_keepsRows s id _

theorem deletePost_rowsStep (s : Home) (index : Int) (postid : String) {e : Event}
    (he : e.deletes = true) :
    RowsStep s (s.deletePost index postid).1 (s.deletePost index postid).2 e := by
  have hsilent := (deletePost_plain s index postid).silent
  rcases deletePost_cases s index postid with
    ⟨_, h⟩ | ⟨posts, hposts, ⟨hpostId, h⟩ | ⟨postId, hpostId, h⟩⟩
  · rw [h] at hsilent ⊢
    exact .same (Event.ne_author_of_deletes he) rfl rfl rfl rfl hsilent
  · rw [h] at hsilent ⊢
    exact .removed he hposts (Or.inr ⟨hpostId, rfl⟩) rfl rfl hsilent
  · rw [h] at hsilent ⊢
    have hrows := issue_keepsRows { s with posts, postId } (.deletePost postid)
    exact .removed he hposts (Or.inl hpostId) hrows.authors rfl hsilent

theorem rowDelete_rowsStep (s : Home) (index : Nat) :
    RowsStep s (s.rowDelete index).1 (s.rowDelete index).2 (.rowDelete index) := by
  have hsilent := (rowDelete_plain s index).silent
  rcases rowDelete_cases s index with ⟨x, _, h⟩ | ⟨m, post, id, _, _, _, _, h⟩
  · rw [h] at hsilent ⊢
    exact .same (Event.ne_author_of_deletes rfl) rfl rfl rfl rfl hsilent
  · rw [h]
    exact deletePost_rowsStep s index id rfl

theorem snapshot_rows {s s' : Home} {event : QuerySnapshot} {o : List Effect}
    (h : step s (.snapshot event) = some (s', o)) :
    s'.posts = [] ∧ s'.postId = [] ∧
      s'.authors =
        s.authors ++ (List.range event.docs.length).map (fun i =>
          (s.delivered + 1, event, i, uidAt event i)) ∧
      s'.delivered = s.delivered + 1 ∧ o = [] := by
  have h := (step_snapshot h).2
  simp only [onPosts, Prod.mk.injEq] at h
  obtain ⟨rfl, rfl⟩ := h
  refine ⟨rfl, rfl, ?_, rfl, rfl⟩
  rw [authors_await]
  simp [authors, authorOf, List.filterMap_map, Function.comp_def]

theorem author_rows {s s' : Home} {k : Nat} {data : Option Json} {o : List Effect}
    (h : step s (.author k data) = some (s', o)) : RowsStep s s' o (.author k data) := by
  obtain ⟨n, event, i, uid, hk, h⟩ := step_author h
  have hauthors : ((n, event, i, uid) :: (s.landed k).authors).Perm s.authors :=
    Reactive.filterMap_eraseIdx_some hk rfl
  rcases authorThen_cases (s.landed k) n event i (getUidUserNameAndImage data) with
    ⟨hnone, hr⟩ | ⟨doc, v, hdoc, hv, ⟨_, hr⟩ | ⟨_, hr⟩⟩
  · rw [hr] at h
    obtain ⟨rfl, rfl⟩ := Prod.mk.inj h
    refine .author hk (List.append_nil _).symm (List.append_nil _).symm hauthors rfl rfl
      (by simp [Silent]) ?_
    rcases hnone with hdoc | hv
    · rw [hdoc]
      rfl
    · rw [hv]
      cases docAt event i <;> rfl
  · rw [hr] at h
    obtain ⟨rfl, rfl⟩ := Prod.mk.inj h
    exact .author hk rfl rfl hauthors rfl rfl (by simp [Silent]) (by rw [hdoc, hv]; rfl)
  · rw [hr] at h
    obtain ⟨rfl, rfl⟩ := Prod.mk.inj h
    have hrows := getComments_keepsRows ((s.landed k).addRow doc v)
    refine .author hk rfl rfl ?_ rfl rfl (by simp [Silent]) (by rw [hdoc, hv]; rfl)
    rw [hrows.authors]
    exact hauthors

theorem step_rows {s s' : Home} {e : Event} {o : List Effect}
    (h : step s e = some (s', o)) : RowsStep s s' o e := by
  have hplain : e.loads = false → Silent o := fun he => (step_plain h he).silent
  have hsame : ∀ {r : Home × List Effect}, r = (s', o) → KeepsRows s r.1 →
      e.loads = false → RowsStep s s' o e := by
    rintro r rfl hr he
    exact hr.rowsStep (Event.ne_author_of_loads he) (hplain he)
  cases e with
  | login uid =>
    have hrows : KeepsRows s (s.await [.getUserData (some uid)]) :=
      await_keepsRows (by simp [authorOf])
    exact hsame (Option.some.inj h) (hrows.trans (keepsRows_of_inFlight rfl rfl rfl rfl)) rfl
  | logout =>
    exact hsame (Option.some.inj h) (keepsRows_of_inFlight rfl rfl rfl rfl) rfl
  | getUserData => exact hsame (Option.some.inj h) (await_keepsRows (by simp [authorOf])) rfl
  | getPosts =>
    exact hsame (Option.some.inj h) (keepsRows_of_inFlight rfl rfl rfl rfl) rfl
  | getComments => exact hsame (Option.some.inj h) (getComments_keepsRows s) rfl
  | getLikes => exact hsame (Option.some.inj h) (getLikes_keepsRows s) rfl
  | deletePost index postid =>
    have hrows := @deletePost_rowsStep s index postid (.deletePost index postid) rfl
    rwa [Option.some.inj h] at hrows
  | rowDelete index =>
    have hrows := rowDelete_rowsStep s index
    rwa [Option.some.inj h] at hrows
  | rowLike index => exact hsame (Option.some.inj h) (rowLike_keepsRows s index) rfl
  | rowComment index text now =>
    exact hsame (Option.some.inj h) (rowComment_keepsRows s index text now) rfl
  | snapshot event =>
    obtain ⟨posts, postId, authors, delivered, silent⟩ := snapshot_rows h
    exact .snapshot posts postId authors delivered silent
  | userData k data =>
    obtain ⟨uid, hk, h⟩ := step_userData h
    have hland := landed_keepsRows hk rfl
    rcases getUserDataThen_cases (s.landed k) data with ⟨_, hr⟩ | ⟨m, _, hr⟩
    · exact hsame (hr.symm.trans h) hland rfl
    · exact hsame (hr.symm.trans h) (hland.trans (keepsRows_of_inFlight rfl rfl rfl rfl)) rfl
  | author k data => exact author_rows h
  | comments k docs =>
    obtain ⟨i, post, hk, h⟩ := step_comments h
    have hrows := getCommentsThen_keepsRows (s.landed k) i post docs
    rw [h] at hrows
    exact ((landed_keepsRows hk rfl).trans hrows.1).rowsStep (by simp) hrows.2
  | likes k docs =>
    obtain ⟨i, post, hk, h⟩ := step_likes h
    have hrows := getLikesThen_keepsRows (s.landed k) i post docs
    rw [h] at hrows
    exact ((landed_keepsRows hk rfl).trans hrows.1).rowsStep (by simp) hrows.2
  | queryFailed k =>
    obtain ⟨⟨i, post, hk⟩, rfl, rfl⟩ := step_queryFailed h
    rcases hk with hk | hk
    · exact (landed_keepsRows hk rfl).rowsStep (by simp) (by simp [Silent])
    · exact (landed_keepsRows hk rfl).rowsStep (by simp) (by simp [Silent])
  | applied k =>
    obtain ⟨w, hk, rfl, rfl⟩ := step_applied h
    exact .same (by simp) rfl rfl (Reactive.filterMap_set hk rfl) rfl (by simp [Silent])
  | settled k ok =>
    obtain ⟨w, hk, h⟩ := step_settled h
    exact hsame h ((landed_keepsRows hk rfl).trans (writeThen_keepsRows _ w ok)) rfl

end Home
end SocialApp
