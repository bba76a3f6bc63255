import SocialApp.Home.Rows
import SocialApp.Reactive.History

/-! # The likes that a row shows

HomeScreen lists the posts as soon as there are posts, comments and likes at all, and
then each row reads the likes of its own post.  The rows find them exactly when no answer
brings up the list while likes that were asked for have yet to arrive. -/

namespace SocialApp
namespace Home

/-- Some entry of a map. -/
def Filled {α : Type} (m : String → Option α) : Prop := ∃ key, m key ≠ none

/-- The list condition of HomeScreen. -/
def Listed (s : Home) : Prop :=
  s.model ≠ none ∧ s.posts ≠ [] ∧ Filled s.comments ∧ Filled s.likes

/-- Each row that is listed has an id, with a number of likes and the user's own. -/
def RowsKnown (s : Home) : Prop :=
  Listed s → ∀ i < s.posts.length,
    ∃ id, s.postId[i]? = some id ∧ s.likes id ≠ none ∧ s.myLikes id ≠ none

/-- Each row has likes. -/
def RowsLiked (s : Home) : Prop := ∀ id ∈ s.postId, s.likes id ≠ none

/-! ## Requests and answers -/

/-- The posts that were listed when `getLikes` ran last, those whose likes had been asked
for when it ended, and those under which an answer has been stored since. -/
structure LikesHistory where
  listed : List String
  requested : List String
  answered : List String

/-- The post of a request of `getLikes`. -/
def Pending.likesOf : Pending → Option String
  | .getLikes _ post => some post
  | _ => none

namespace LikesHistory

def start : LikesHistory := { listed := [], requested := [], answered := [] }

def note (h : LikesHistory) (s : Home) (e : Event) (s' : Home) (_ : List Effect) : LikesHistory :=
  if s.asksLikes e then
    { listed := s.postId, requested := s'.inFlight.filterMap Pending.likesOf, answered := [] }
  else
    match e with
    | .likes k _ =>
      match s.inFlight[k]? with
      | some (.getLikes i _) =>
        match s.postId[i]? with
        | some key => { h with answered := key :: h.answered }
        | none => h
      | _ => h
    | _ => h

theorem note_comments (h : LikesHistory) (s s' : Home) (k : Nat) (docs : List String)
    (o : List Effect) : h.note s (.comments k docs) s' o =
      if s.asksLikes (.comments k docs) then
        { listed := s.postId, requested := s'.inFlight.filterMap Pending.likesOf, answered := [] }
      else h := rfl

/-- The likes of a post that was listed, or has had an answer, do not wait for a request. -/
def In (h : LikesHistory) (id : String) : Prop :=
  (id ∈ h.listed ∨ id ∈ h.answered) ∧ (id ∈ h.requested → id ∈ h.answered)

end LikesHistory

/-- The cubit with what it has asked for. -/
def asking : Reactive.Machine (Home × LikesHistory) Event Effect :=
  machine.withHistory LikesHistory.note

/-- Which arrivals leave no listed row without likes. -/
def InTimeForLikes (p : Home × LikesHistory) : Event → Prop
  -- the first profile, after comments and likes
  | .userData _ data => LoginModel.fromJson data ≠ none → p.1.model = none → p.1.posts ≠ [] →
    Filled p.1.comments → p.2.answered ≠ [] → ∀ id ∈ p.1.postId, p.2.In id
  -- a post that starts no new load, while others may be listed
  | .author k data => ∀ n event i uid doc, p.1.inFlight[k]? = some (.author n event i uid) →
    docAt event i = some doc → LoginModel.fromJson data ≠ none → i + 1 ≠ event.docs.length →
    p.1.model ≠ none → Filled p.1.comments → p.2.answered ≠ [] → p.2.In doc.id
  -- the first number of comments, unless it is that of the last post
  | .comments k _ => ∀ i post, p.1.inFlight[k]? = some (.getComments i post) →
    i + 1 < p.1.postId.length → p.1.model ≠ none → ¬ Filled p.1.comments →
    p.2.answered ≠ [] → ∀ id ∈ p.1.postId, p.2.In id
  -- the first likes after `getLikes`
  | .likes k _ => ∀ i post key, p.1.inFlight[k]? = some (.getLikes i post) →
    p.1.postId[i]? = some key → p.1.model ≠ none → Filled p.1.comments → p.2.answered = [] →
    ∀ id ∈ p.1.postId, id = key
  | _ => True

/-- There is an id for each post, the user's own like is known where the number of
likes is, these are the posts that have been answered, and `getLikes` has asked for all
that were listed. -/
structure Sound (p : Home × LikesHistory) : Prop where
  paired : p.1.posts.length = p.1.postId.length
  mine : ∀ key, p.1.likes key ≠ none → p.1.myLikes key ≠ none
  stored : ∀ key, p.1.likes key ≠ none ↔ key ∈ p.2.answered
  asked : ∀ key ∈ p.2.listed, key ∈ p.2.requested

theorem Sound.known_iff {p : Home × LikesHistory} (hp : Sound p) :
    RowsKnown p.1 ↔ (Listed p.1 → RowsLiked p.1) := by
  unfold RowsKnown RowsLiked
  refine imp_congr_right fun _ => ?_
  constructor
  · intro h id hid
    obtain ⟨i, hi, hget⟩ := List.mem_iff_getElem.mp hid
    obtain ⟨id', hid', hlikes, -⟩ := h i (hp.paired ▸ hi)
    rw [List.getElem?_eq_getElem hi, hget] at hid'
    rwa [Option.some.inj hid']
  · intro h i hi
    have hi' : i < p.1.postId.length := hp.paired ▸ hi
    have hlikes := h _ (List.getElem_mem hi')
    exact ⟨_, List.getElem?_eq_getElem hi', hlikes, hp.mine _ hlikes⟩

/-- The likes of a post are there when they do not wait for a request. -/
theorem Sound.in_iff {p : Home × LikesHistory} (hp : Sound p) (id : String) :
    p.2.In id ↔ p.1.likes id ≠ none := by
  rw [hp.stored]
  constructor
  · intro ⟨hlisted, hanswered⟩
    exact hlisted.elim (fun h => hanswered (hp.asked id h)) fun h => h
  · exact fun h => ⟨.inr h, fun _ => h⟩

theorem Sound.filled_iff {p : Home × LikesHistory} (hp : Sound p) :
    Filled p.1.likes ↔ p.2.answered ≠ [] := by
  constructor
  · rintro ⟨key, hkey⟩
    exact List.ne_nil_of_mem ((hp.stored key).mp hkey)
  · intro hne
    obtain ⟨key, hkey⟩ := List.exists_mem_of_ne_nil _ hne
    exact ⟨key, (hp.stored key).mpr hkey⟩

theorem Sound.rowsLiked_iff {p : Home × LikesHistory} (hp : Sound p) :
    RowsLiked p.1 ↔ ∀ id ∈ p.1.postId, p.2.In id :=
  forall_congr' fun id => imp_congr_right fun _ => (hp.in_iff id).symm

theorem Sound.posts_ne_nil {p : Home × LikesHistory} (hp : Sound p) {id : String}
    (h : id ∈ p.1.postId) : p.1.posts ≠ [] := by
  intro hnil
  have hlength := hp.paired
  rw [hnil] at hlength
  exact absurd (List.length_pos_of_mem h) (by simp [← hlength])

/-- A step that neither stores nor clears likes. -/
theorem Sound.keep {p p' : Home × LikesHistory} (hp : Sound p)
    (paired : p'.1.posts.length = p'.1.postId.length)
    (likes : ∀ key, p'.1.likes key = none ↔ p.1.likes key = none)
    (mine : ∀ key, p'.1.myLikes key = none → p.1.myLikes key = none)
    (record : p'.2 = p.2) : Sound p' where
  paired := paired
  mine key hlikes hnone := hp.mine key (fun hold => hlikes ((likes key).mpr hold)) (mine key hnone)
  stored key := by rw [ne_eq, likes, record, ← ne_eq, hp.stored]
  asked := by rw [record]; exact hp.asked

theorem Filled.update {α : Type} (m : String → Option α) (key : String) (x : α) :
    Filled (Function.update m key (some x)) := ⟨key, by simp⟩

theorem not_filled_none {α : Type} : ¬ Filled (fun _ => none : String → Option α) :=
  fun ⟨_, h⟩ => h rfl

/-- A step that neither adds a row nor takes likes away. -/
structure Keeps (s s' : Home) : Prop where
  model : s'.model = s.model
  posts : s'.posts ≠ [] → s.posts ≠ []
  postId : ∀ id ∈ s'.postId, id ∈ s.postId
  comments : s'.comments = s.comments
  likes : ∀ key, s'.likes key = none ↔ s.likes key = none
  mine : ∀ key, s'.myLikes key = none → s.myLikes key = none

theorem Keeps.known {s s' : Home} (h : Keeps s s') (hknown : Listed s → RowsLiked s) :
    Listed s' → RowsLiked s' := by
  intro hlisted id hid
  obtain ⟨hmodel, hposts, hcomments, key, hkey⟩ := hlisted
  have hlisted : Listed s :=
    ⟨h.model ▸ hmodel, h.posts hposts, h.comments ▸ hcomments, key, fun hnone =>
      hkey ((h.likes key).mpr hnone)⟩
  exact fun hnone => hknown hlisted id (h.postId id hid) ((h.likes id).mp hnone)

theorem Keeps.of_landed {s s' : Home} {k : Nat} (h : Keeps (s.landed k) s') : Keeps s s' :=
  { model := h.model, posts := h.posts, postId := h.postId, comments := h.comments
    likes := h.likes, mine := h.mine }

/-- Nothing happens to what the list shows. -/
theorem keeps_of_eq {s s' : Home} (model : s'.model = s.model) (posts : s'.posts = s.posts)
    (postId : s'.postId = s.postId) (comments : s'.comments = s.comments)
    (likes : s'.likes = s.likes) (myLikes : s'.myLikes = s.myLikes) : Keeps s s' :=
  { model, comments
    posts := fun h => posts ▸ h
    postId := fun id hid => postId ▸ hid
    likes := fun key => by rw [likes]
    mine := fun key h => myLikes ▸ h }

theorem mem_of_removeAt_ne_nil {α : Type} {xs ys : List α} {index : Int}
    (h : removeAt xs index = some ys) (hne : ys ≠ []) : xs ≠ [] := by
  obtain ⟨y, ys', rfl⟩ := List.exists_cons_of_ne_nil hne
  exact List.ne_nil_of_mem (mem_of_mem_removeAt h List.mem_cons_self)

theorem deletePost_keeps (s : Home) (index : Int) (postid : String) :
    Keeps s (s.deletePost index postid).1 := by
  rcases deletePost_cases s index postid with
    ⟨_, h⟩ | ⟨posts, hposts, ⟨_, h⟩ | ⟨postId, hpostId, h⟩⟩
  · rw [h]
    exact keeps_of_eq rfl rfl rfl rfl rfl rfl
  · rw [h]
    exact { model := rfl, posts := mem_of_removeAt_ne_nil hposts, postId := fun _ hid => hid
            comments := rfl, likes := fun _ => Iff.rfl, mine := fun _ h => h }
  · rw [h]
    exact { model := rfl, posts := mem_of_removeAt_ne_nil hposts
            postId := fun _ hid => mem_of_mem_removeAt hpostId hid
            comments := rfl, likes := fun _ => Iff.rfl, mine := fun _ h => h }

theorem rowDelete_keeps (s : Home) (index : Nat) : Keeps s (s.rowDelete index).1 := by
  rcases rowDelete_cases s index with ⟨x, _, h⟩ | ⟨m, post, id, _, _, _, _, h⟩
  · rw [h]
    exact keeps_of_eq rfl rfl rfl rfl rfl rfl
  · rw [h]
    exact deletePost_keeps s index id

theorem rowLike_keeps (s : Home) (index : Nat) : Keeps s (s.rowLike index).1 := by
  rcases rowLike_cases s index with ⟨_, h⟩ | ⟨id, _, ⟨_, h⟩ | ⟨b, _, h⟩⟩
  all_goals
    rw [h]
    exact keeps_of_eq rfl rfl rfl rfl rfl rfl

theorem rowComment_keeps (s : Home) (index : Nat) (text now : String) :
    Keeps s (s.rowComment index text now).1 := by
  rcases rowComment_cases s index text now with ⟨_, h⟩ | ⟨_, ⟨_, h⟩ | ⟨id, _, h⟩⟩
  all_goals
    rw [h]
    exact keeps_of_eq rfl rfl rfl rfl rfl rfl

theorem update_eq_none_iff {α : Type} {m : String → Option α} {key : String} {x y : α}
    (h : m key = some x) (key' : String) :
    Function.update m key (some y) key' = none ↔ m key' = none := by
  by_cases heq : key' = key
  · rw [heq, Function.update_self, h]
    simp
  · rw [Function.update_of_ne heq]

theorem none_of_update {α : Type} {m : String → Option α} {key key' : String} {y : α}
    (h : Function.update m key (some y) key' = none) : m key' = none := by
  by_cases heq : key' = key
  · rw [heq, Function.update_self] at h
    exact absurd h (by simp)
  · rwa [Function.update_of_ne heq] at h

theorem writeThen_keeps (s : Home) (w : Write) (ok : Bool) : Keeps s (s.writeThen w ok).1 := by
  cases w with
  | addComment post comment => exact keeps_of_eq rfl rfl rfl rfl rfl rfl
  | deletePost post => exact keeps_of_eq rfl rfl rfl rfl rfl rfl
  | setLike post uid =>
    simp only [writeThen, likeThen]
    split
    · exact keeps_of_eq rfl rfl rfl rfl rfl rfl
    · rename_i n hlikes
      exact { model := rfl, posts := fun h => h, postId := fun _ h => h, comments := rfl
              likes := update_eq_none_iff hlikes, mine := fun _ h => none_of_update h }
  | deleteLike post uid =>
    simp only [writeThen, unLikeThen]
    split
    · exact { model := rfl, posts := fun h => h, postId := fun _ h => h, comments := rfl
              likes := fun _ => Iff.rfl, mine := fun _ h => none_of_update h }
    · rename_i n hlikes
      exact { model := rfl, posts := fun h => h, postId := fun _ h => h, comments := rfl
              likes := update_eq_none_iff hlikes, mine := fun _ h => none_of_update h }

/-- The list is not shown. -/
theorem known_of_unlisted {s : Home} (h : ¬ Listed s) : Listed s → RowsLiked s :=
  fun hlisted => absurd hlisted h

/-- The likes are asked for again. -/
theorem getLikes_sound {t : Home} {r : LikesHistory}
    (paired : t.posts.length = t.postId.length) (record : r.listed = t.postId)
    (requested : r.requested = t.getLikes.1.inFlight.filterMap Pending.likesOf)
    (answered : r.answered = []) : Sound (t.getLikes.1, r) where
  paired := paired
  mine key h := absurd rfl h
  stored key := by
    rw [answered]
    exact iff_of_false (fun h => h rfl) List.not_mem_nil
  asked key hkey := by
    rw [record] at hkey
    obtain ⟨i, hi, hget⟩ := List.mem_iff_getElem.mp hkey
    rw [requested]
    refine List.mem_filterMap.mpr ⟨.getLikes i key, List.mem_append_right _ ?_, rfl⟩
    exact List.mem_iff_getElem.mpr ⟨i, by simpa using hi, by simp [hget]⟩

/-- An answer is stored. -/
theorem storeLikes_sound {s : Home} {r : LikesHistory} (hp : Sound (s, r)) (key : String) (n : Int)
    (mine : Bool) :
    Sound (s.storeLikes key n mine, { r with answered := key :: r.answered }) where
  paired := hp.paired
  mine key' hlikes := by
    have hlikes : Function.update s.likes key (some n) key' ≠ none := hlikes
    show Function.update s.myLikes key (some mine) key' ≠ none
    by_cases heq : key' = key
    · rw [heq, Function.update_self]
      simp
    · rw [Function.update_of_ne heq] at hlikes ⊢
      exact hp.mine key' hlikes
  stored key' := by
    show Function.update s.likes key (some n) key' ≠ none ↔ key' ∈ key :: r.answered
    by_cases heq : key' = key
    · rw [heq, Function.update_self]
      exact iff_of_true (by simp) List.mem_cons_self
    · rw [Function.update_of_ne heq, hp.stored key', List.mem_cons]
      exact (or_iff_right heq).symm
  asked := hp.asked

/-- The profile arrives. -/
theorem userData_known {s s' : Home} {r : LikesHistory} {k : Nat} {data : Option Json}
    {o : List Effect} (hp : Sound (s, r)) (hknown : Listed s → RowsLiked s)
    (h : step s (.userData k data) = some (s', o)) :
    Sound (s', r) ∧ ((Listed s' → RowsLiked s') ↔ InTimeForLikes (s, r) (.userData k data)) := by
  obtain ⟨uid, _, h⟩ := step_userData h
  rcases getUserDataThen_cases (s.landed k) data with ⟨hnone, hr⟩ | ⟨m, hm, hr⟩
  · obtain ⟨rfl, rfl⟩ := Prod.mk.inj (hr.symm.trans h)
    refine ⟨hp.keep hp.paired (fun _ => Iff.rfl) (fun _ h => h) rfl, iff_of_true hknown ?_⟩
    exact fun hsome => absurd hnone hsome
  · obtain ⟨rfl, rfl⟩ := Prod.mk.inj (hr.symm.trans h)
    refine ⟨hp.keep hp.paired (fun _ => Iff.rfl) (fun _ h => h) rfl, ?_⟩
    constructor
    · intro h _ _ hposts hcomments hanswered
      exact hp.rowsLiked_iff.mp (h ⟨by simp, hposts, hcomments, hp.filled_iff.mpr hanswered⟩)
    · intro h hlisted
      obtain ⟨-, hposts, hcomments, hlikes⟩ := hlisted
      by_cases hmodel : s.model = none
      · exact hp.rowsLiked_iff.mpr
          (h (by simp [hm]) hmodel hposts hcomments (hp.filled_iff.mp hlikes))
      · exact hknown ⟨hmodel, hposts, hcomments, hlikes⟩

/-- A post is added to the list. -/
theorem author_known {s s' : Home} {r : LikesHistory} {k : Nat} {data : Option Json}
    {o : List Effect} (hp : Sound (s, r)) (hknown : Listed s → RowsLiked s)
    (h : step s (.author k data) = some (s', o)) :
    Sound (s', r) ∧ ((Listed s' → RowsLiked s') ↔ InTimeForLikes (s, r) (.author k data)) := by
  have hpaired : s'.posts.length = s'.postId.length := step_paired hp.paired h
  obtain ⟨n, event, i, uid, hk, h⟩ := step_author h
  have hcond : InTimeForLikes (s, r) (.author k data) ↔ ∀ doc, docAt event i = some doc →
      LoginModel.fromJson data ≠ none → i + 1 ≠ event.docs.length →
      s.model ≠ none → Filled s.comments → r.answered ≠ [] → r.In doc.id := by
    constructor
    · exact fun h doc => h n event i uid doc hk
    · intro h n' event' i' uid' doc hk'
      obtain ⟨-, rfl, rfl, -⟩ := Pending.author.inj (Option.some.inj (hk.symm.trans hk'))
      exact h doc
  rw [hcond]
  rcases authorThen_cases (s.landed k) n event i (getUidUserNameAndImage data) with
    ⟨hnone, hr⟩ | ⟨doc, v, hdoc, hv, ⟨hlast, hr⟩ | ⟨hlast, hr⟩⟩
  · obtain ⟨rfl, rfl⟩ := Prod.mk.inj (hr.symm.trans h)
    refine ⟨hp.keep hpaired (fun _ => Iff.rfl) (fun _ h => h) rfl,
      iff_of_true hknown fun doc hdoc hdata => ?_⟩
    rcases hnone with hnone | hnone
    · exact absurd (hnone.symm.trans hdoc) (by simp)
    · exact absurd hnone hdata
  · obtain ⟨rfl, rfl⟩ := Prod.mk.inj (hr.symm.trans h)
    refine ⟨hp.keep hpaired (fun _ => Iff.rfl) (fun _ h => h) rfl, ?_⟩
    constructor
    · intro h doc' hdoc' _ _ hmodel hcomments hanswered
      rw [← Option.some.inj (hdoc.symm.trans hdoc')]
      exact (hp.in_iff doc.id).mpr (h ⟨hmodel, by simp [addRow], hcomments,
        hp.filled_iff.mpr hanswered⟩ doc.id (by simp [addRow]))
    · intro h hlisted id hid
      obtain ⟨hmodel, -, hcomments, hlikes⟩ := hlisted
      rcases List.mem_append.mp hid with hid | hid
      · exact hknown ⟨hmodel, hp.posts_ne_nil hid, hcomments, hlikes⟩ id hid
      · rw [List.mem_singleton.mp hid]
        have hdata : LoginModel.fromJson data = some v := hv
        exact (hp.in_iff doc.id).mp
          (h doc hdoc (by simp [hdata]) hlast hmodel hcomments (hp.filled_iff.mp hlikes))
  · obtain ⟨rfl, rfl⟩ := Prod.mk.inj (hr.symm.trans h)
    refine ⟨hp.keep hpaired (fun _ => Iff.rfl) (fun _ h => h) rfl,
      iff_of_true (known_of_unlisted ?_) ?_⟩
    · exact fun hlisted => not_filled_none hlisted.2.2.1
    · exact fun _ _ _ hne => absurd hlast hne

/-- A number of comments arrives. -/
theorem comments_known {s s' : Home} {r r' : LikesHistory} {k : Nat} {docs : List String}
    {o : List Effect} (hp : Sound (s, r)) (hknown : Listed s → RowsLiked s)
    (h : step s (.comments k docs) = some (s', o)) (hnote : r' = r.note s (.comments k docs) s' o) :
    Sound (s', r') ∧
      ((Listed s' → RowsLiked s') ↔ InTimeForLikes (s, r) (.comments k docs)) := by
  have hpaired : s'.posts.length = s'.postId.length := step_paired hp.paired h
  obtain ⟨i, post, hk, h⟩ := step_comments h
  have hcond : InTimeForLikes (s, r) (.comments k docs) ↔
      (i + 1 < s.postId.length → s.model ≠ none → ¬ Filled s.comments →
        r.answered ≠ [] → ∀ id ∈ s.postId, r.In id) := by
    constructor
    · exact fun h => h i post hk
    · intro h i' post' hk'
      obtain ⟨rfl, -⟩ := Pending.getComments.inj (Option.some.inj (hk.symm.trans hk'))
      exact h
  rw [hcond]
  rcases getCommentsThen_cases (s.landed k) i post docs with
    ⟨hnone, hr⟩ | ⟨key, hkey, ⟨hlast, hr⟩ | ⟨hlast, hr⟩⟩
  · obtain ⟨rfl, rfl⟩ := Prod.mk.inj (hr.symm.trans h)
    have hlength : s.postId.length ≤ i := List.getElem?_eq_none_iff.mp hnone
    have hrecord : r' = r := by
      rw [hnote, LikesHistory.note_comments, if_neg (by simp [asksLikes, hk]; omega)]
    refine ⟨hp.keep hpaired (fun _ => Iff.rfl) (fun _ h => h) hrecord, ?_⟩
    exact iff_of_true hknown fun hi => absurd hi (by omega)
  · obtain ⟨rfl, rfl⟩ := Prod.mk.inj (hr.symm.trans h)
    have hi : i < s.postId.length := (List.getElem?_eq_some_iff.mp hkey).1
    have hlast : i + 1 ≠ s.postId.length := hlast
    have hposts := hp.posts_ne_nil (List.mem_of_getElem? hkey)
    have hrecord : r' = r := by
      rw [hnote, LikesHistory.note_comments, if_neg (by simp [asksLikes, hk, hlast])]
    refine ⟨hp.keep hpaired (fun _ => Iff.rfl) (fun _ h => h) hrecord, ?_⟩
    constructor
    · intro h _ hmodel _ hanswered
      exact hp.rowsLiked_iff.mp
        (h ⟨hmodel, hposts, Filled.update _ _ _, hp.filled_iff.mpr hanswered⟩)
    · intro h hlisted
      obtain ⟨hmodel, -, -, hlikes⟩ := hlisted
      by_cases hcomments : Filled s.comments
      · exact hknown ⟨hmodel, hposts, hcomments, hlikes⟩
      · exact hp.rowsLiked_iff.mpr
          (h (by omega) hmodel hcomments (hp.filled_iff.mp hlikes))
  · obtain ⟨rfl, rfl⟩ := Prod.mk.inj (hr.symm.trans h)
    have hlast : i + 1 = s.postId.length := hlast
    have hrecord := hnote
    rw [LikesHistory.note_comments, if_pos (by simp [asksLikes, hk, hlast])] at hrecord
    refine ⟨getLikes_sound hpaired (by rw [hrecord]; rfl) (by rw [hrecord]) (by rw [hrecord]),
      iff_of_true (known_of_unlisted ?_) ?_⟩
    · exact fun hlisted => not_filled_none hlisted.2.2.2
    · exact fun hi => absurd hi (by omega)

/-- The likes of a post arrive. -/
theorem likes_known {s s' : Home} {r r' : LikesHistory} {k : Nat} {docs : List String}
    {o : List Effect} (hp : Sound (s, r)) (hknown : Listed s → RowsLiked s)
    (h : step s (.likes k docs) = some (s', o)) (hnote : r' = r.note s (.likes k docs) s' o) :
    Sound (s', r') ∧ ((Listed s' → RowsLiked s') ↔ InTimeForLikes (s, r) (.likes k docs)) := by
  obtain ⟨i, post, hk, h⟩ := step_likes h
  have hcond : InTimeForLikes (s, r) (.likes k docs) ↔ ∀ key, s.postId[i]? = some key →
      s.model ≠ none → Filled s.comments → r.answered = [] → ∀ id ∈ s.postId, id = key := by
    constructor
    · exact fun h key => h i post key hk
    · intro h i' post' key hk'
      obtain ⟨rfl, -⟩ := Pending.getLikes.inj (Option.some.inj (hk.symm.trans hk'))
      exact h key
  rw [hcond]
  rcases getLikesThen_cases (s.landed k) i post docs with ⟨hnone, hr⟩ | ⟨key, o', hkey, hr, -⟩
  · obtain ⟨rfl, rfl⟩ := Prod.mk.inj (hr.symm.trans h)
    have hnone : s.postId[i]? = none := hnone
    have hrecord : r' = r := by
      simp only [hnote, LikesHistory.note, asksLikes, hk, hnone, Bool.false_eq_true, if_false]
    refine ⟨hp.keep hp.paired (fun _ => Iff.rfl) (fun _ h => h) hrecord,
      iff_of_true hknown fun key hkey => ?_⟩
    exact absurd (hnone.symm.trans hkey) (by simp)
  · obtain ⟨rfl, rfl⟩ := Prod.mk.inj (hr.symm.trans h)
    have hkey : s.postId[i]? = some key := hkey
    have hposts := hp.posts_ne_nil (List.mem_of_getElem? hkey)
    have hrecord : r' = { r with answered := key :: r.answered } := by
      simp only [hnote, LikesHistory.note, asksLikes, hk, hkey, Bool.false_eq_true, if_false]
    have hlanded : Sound (s.landed k, r) :=
      hp.keep hp.paired (fun _ => Iff.rfl) (fun _ h => h) rfl
    refine ⟨hrecord ▸ storeLikes_sound hlanded key _ _, ?_⟩
    constructor
    · intro h key' hkey' hmodel hcomments hanswered id hid
      by_contra hne
      rw [Option.some.inj (hkey'.symm.trans hkey)] at hne
      have hlikes : Function.update s.likes key (some (docs.length : Int)) id ≠ none :=
        h ⟨hmodel, hposts, hcomments, Filled.update _ _ _⟩ id hid
      rw [Function.update_of_ne hne] at hlikes
      have hmem : id ∈ r.answered := (hp.stored id).mp hlikes
      rw [hanswered] at hmem
      exact absurd hmem List.not_mem_nil
    · intro h hlisted id hid
      obtain ⟨hmodel, -, hcomments, -⟩ := hlisted
      show Function.update s.likes key (some (docs.length : Int)) id ≠ none
      by_cases heq : id = key
      · rw [heq, Function.update_self]
        simp
      · rw [Function.update_of_ne heq]
        by_cases hanswered : r.answered = []
        · exact absurd (h key hkey hmodel hcomments hanswered id hid) heq
        · exact hknown ⟨hmodel, hposts, hcomments, hp.filled_iff.mpr hanswered⟩ id hid

/-- One step: what is recorded stays true, and the rows stay known exactly when it is one
of those that keep them so. -/
theorem step_known {s s' : Home} {r r' : LikesHistory} {e : Event} {o : List Effect}
    (hp : Sound (s, r)) (hknown : Listed s → RowsLiked s) (h : step s e = some (s', o))
    (hnote : r' = r.note s e s' o) :
    Sound (s', r') ∧ ((Listed s' → RowsLiked s') ↔ InTimeForLikes (s, r) e) := by
  have hpaired : s'.posts.length = s'.postId.length := step_paired hp.paired h
  have hkeeps : ∀ {t : Home × List Effect}, t = (s', o) → Keeps s t.1 → r' = r →
      InTimeForLikes (s, r) e →
      Sound (s', r') ∧ ((Listed s' → RowsLiked s') ↔ InTimeForLikes (s, r) e) := by
    intro t ht hkept hrecord hcond
    rw [ht] at hkept
    exact ⟨hp.keep hpaired hkept.likes hkept.mine hrecord,
      iff_of_true (hkept.known hknown) hcond⟩
  cases e with
  | login uid =>
    exact hkeeps (Option.some.inj h) (keeps_of_eq rfl rfl rfl rfl rfl rfl) hnote trivial
  | logout =>
    exact hkeeps (Option.some.inj h) (keeps_of_eq rfl rfl rfl rfl rfl rfl) hnote trivial
  | getUserData =>
    exact hkeeps (Option.some.inj h) (keeps_of_eq rfl rfl rfl rfl rfl rfl) hnote trivial
  | getPosts =>
    exact hkeeps (Option.some.inj h) (keeps_of_eq rfl rfl rfl rfl rfl rfl) hnote trivial
  | getComments =>
    obtain ⟨rfl, rfl⟩ := Prod.mk.inj (Option.some.inj h)
    refine ⟨hp.keep hpaired (fun _ => Iff.rfl) (fun _ h => h) hnote,
      iff_of_true (known_of_unlisted ?_) trivial⟩
    exact fun hlisted => not_filled_none hlisted.2.2.1
  | getLikes =>
    obtain ⟨rfl, rfl⟩ := Prod.mk.inj (Option.some.inj h)
    refine ⟨getLikes_sound hp.paired (by rw [hnote]; rfl) (by rw [hnote]; rfl)
      (by rw [hnote]; rfl), iff_of_true (known_of_unlisted ?_) trivial⟩
    exact fun hlisted => not_filled_none hlisted.2.2.2
  | deletePost index postid =>
    exact hkeeps (Option.some.inj h) (deletePost_keeps s index postid) hnote trivial
  | rowDelete index =>
    exact hkeeps (Option.some.inj h) (rowDelete_keeps s index) hnote trivial
  | rowLike index => exact hkeeps (Option.some.inj h) (rowLike_keeps s index) hnote trivial
  | rowComment index text now =>
    exact hkeeps (Option.some.inj h) (rowComment_keeps s index text now) hnote trivial
  | snapshot event =>
    obtain ⟨-, h⟩ := step_snapshot h
    obtain ⟨rfl, rfl⟩ := Prod.mk.inj h
    refine ⟨hp.keep hpaired (fun _ => Iff.rfl) (fun _ h => h) hnote,
      iff_of_true (known_of_unlisted ?_) trivial⟩
    exact fun hlisted => hlisted.2.1 rfl
  | userData k data =>
    have hrecord : r' = r := hnote
    rw [hrecord]
    exact userData_known hp hknown h
  | author k data =>
    have hrecord : r' = r := hnote
    rw [hrecord]
    exact author_known hp hknown h
  | comments k docs => exact comments_known hp hknown h hnote
  | likes k docs => exact likes_known hp hknown h hnote
  | queryFailed k =>
    obtain ⟨-, rfl, rfl⟩ := step_queryFailed h
    exact hkeeps rfl (keeps_of_eq rfl rfl rfl rfl rfl rfl) hnote trivial
  | applied k =>
    obtain ⟨w, -, rfl, rfl⟩ := step_applied h
    exact hkeeps rfl (keeps_of_eq rfl rfl rfl rfl rfl rfl) hnote trivial
  | settled k ok =>
    obtain ⟨w, -, h⟩ := step_settled h
    exact hkeeps h (writeThen_keeps (s.landed k) w ok).of_landed hnote trivial

/-- Along every run, the rows that are listed have likes exactly when no arrival brings up
a row, or the list, whose likes have yet to arrive. -/
theorem rows_known_iff (u : Option String) (es : List Event) :
    machine.Every (fun _ _ s' _ => RowsKnown s') (init u) es ↔
      asking.Every (fun p e _ _ => InTimeForLikes p e) (init u, LikesHistory.start) es := by
  rw [← Reactive.Machine.every_withHistory_iff LikesHistory.note LikesHistory.start]
  refine Reactive.Machine.every_iff (I := fun p => Sound p ∧ RowsKnown p.1) ?_ ?_
  · intro p e p' o hinv h
    obtain ⟨hp, hknown⟩ := hinv
    obtain ⟨h, hnote⟩ := Reactive.Machine.step_withHistory.mp h
    obtain ⟨hp', hcond⟩ := step_known hp (hp.known_iff.mp hknown) h hnote
    exact ⟨hp'.known_iff.trans hcond, fun hknown' => ⟨hp', hknown'⟩⟩
  · refine ⟨{ paired := rfl, mine := fun key h => absurd rfl h, stored := fun key => ?_
              asked := fun key h => absurd h List.not_mem_nil }, fun hlisted => ?_⟩
    · exact iff_of_false (fun h => h rfl) List.not_mem_nil
    · exact absurd rfl hlisted.2.1

/-- The first likes to arrive show the list, and the other row has none. -/
theorem row_without_likes :
    ∃ s o, machine.run (init none)
        (loadTwoPosts ++ [.comments 0 [], .comments 0 [], .likes 0 []]) = some (s, o) ∧
      Listed s ∧ s.postId[1]? = some "2022-01-01" ∧ s.myLikes "2022-01-01" = none ∧
      ¬ RowsKnown s := by
  refine ⟨_, _, rfl, ?_⟩
  have hlisted : ∀ {s : Home}, s.model ≠ none → s.posts ≠ [] →
      s.comments "2022-01-01" ≠ none → s.likes "2022-01-02" ≠ none → Listed s :=
    fun hmodel hposts hcomments hlikes => ⟨hmodel, hposts, ⟨_, hcomments⟩, ⟨_, hlikes⟩⟩
  refine ⟨hlisted (by decide) (by decide) (by decide) (by decide), rfl, by decide, fun h => ?_⟩
  obtain ⟨id, hid, -, hmine⟩ := h
    (hlisted (by decide) (by decide) (by decide) (by decide)) 1 (by decide)
  rw [← Option.some.inj hid] at hmine
  exact hmine (by decide)

end Home
end SocialApp
