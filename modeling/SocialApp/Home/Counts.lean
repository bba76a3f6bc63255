import SocialApp.Home.Load
import SocialApp.Home.Session

/-! # The numbers in the rows

The number of comments of a row is what one query of a load has found, and its likes are
what another has.  The maps keep the numbers of the load before until this one clears
them, and each answer is stored under the id that `postId` has at the index of its
request. -/

namespace SocialApp
namespace Home

/-- The ids of the documents in the collections `comments` and `likes` of each post. -/
structure Collections where
  comments : String → List String
  likes : String → List String

variable {server : Collections} {event : QuerySnapshot} {u : String}

/-- The events that change the user. -/
def Event.sessions : Event → Bool
  | .login _ => true
  | .logout => true
  | _ => false

/-! ## Maps that agree with the server -/

/-- Each entry of a map is the value of its key. -/
def Tells {α : Type} (m : String → Option α) (value : String → α) : Prop :=
  ∀ p x, m p = some x → x = value p

theorem Tells.update {α : Type} {m : String → Option α} {value : String → α}
    (h : Tells m value) {key : String} {x : α} (hx : x = value key) :
    Tells (Function.update m key (some x)) value := by
  intro p y hy
  by_cases hp : p = key
  · subst hp
    rw [Function.update_self, Option.some.injEq] at hy
    exact hy.symm.trans hx
  · rw [Function.update_of_ne hp] at hy
    exact h p y hy

theorem Tells.eq {α : Type} {m : String → Option α} {value : String → α} (h : Tells m value)
    {p : String} (hp : m p ≠ none) : m p = some (value p) := by
  obtain ⟨x, hx⟩ := Option.ne_none_iff_exists'.mp hp
  rw [hx, h p x hx]

/-- The likes have been asked for since the load began. -/
def LikesAsked (s : Home) (o : List Effect) : Prop :=
  (∃ i p, .getLikes i p ∈ s.inFlight) ∨ .emit .getLikesSuccess ∈ o

theorem LikesAsked.of_step {s s' : Home} {o o' : List Effect} (h : LikesAsked s' (o ++ o'))
    (hrequests : ∀ i p, .getLikes i p ∈ s'.inFlight → .getLikes i p ∈ s.inFlight)
    (hemit : .emit .getLikesSuccess ∉ o') : LikesAsked s o := by
  rcases h with ⟨i, p, hp⟩ | h
  · exact Or.inl ⟨i, p, hrequests i p hp⟩
  · exact Or.inr ((List.mem_append.mp h).resolve_right hemit)

/-- The account of the maps while the answers of a load arrive, which began with the
numbers of comments `before`. -/
structure Counted (server : Collections) (u : String) (before : String → Option Nat) (s : Home)
    (o : List Effect) : Prop where
  user : s.uId = some u
  older : .emit .getPostsSuccess ∉ o → s.comments = before
  comments : .emit .getPostsSuccess ∈ o →
    Tells s.comments fun p => (server.comments p).length
  likes : LikesAsked s o → Tells s.likes fun p => ((server.likes p).length : Int)
  myLikes : LikesAsked s o → Tells s.myLikes fun p => decide (u ∈ server.likes p)

/-! ## The steps of a load -/

theorem step_uId {s s' : Home} {e : Event} {o : List Effect} (h : step s e = some (s', o))
    (he : e.sessions = false) : s'.uId = s.uId := by
  cases hbrings : e.brings with
  | false =>
    cases step_session h hbrings with
    | same uId _ _ => exact uId
    | cleared uId _ _ => exact uId
    | logout _ => exact absurd he (by simp [Event.sessions])
    | @liked k ok x write _ =>
      obtain ⟨w, _, h⟩ := step_settled h
      have huId : ((s.landed k).writeThen w ok).1.uId = s.uId := by
        cases w with
        | addComment _ _ => rfl
        | deletePost _ => rfl
        | setLike _ _ =>
          simp only [writeThen, likeThen]
          split <;> rfl
        | deleteLike _ _ =>
          simp only [writeThen, unLikeThen]
          split <;> rfl
      rwa [h] at huId
  | true =>
    cases e with
    | userData k data =>
      obtain ⟨uid, _, h⟩ := step_userData h
      rcases getUserDataThen_cases (s.landed k) data with ⟨_, hr⟩ | ⟨m, _, hr⟩
      · rw [hr, Prod.mk.injEq] at h
        rw [← h.1]
        rfl
      · rw [hr, Prod.mk.injEq] at h
        rw [← h.1]
        rfl
    | likes k docs =>
      obtain ⟨i, post, _, h⟩ := step_likes h
      rcases getLikesThen_cases (s.landed k) i post docs with
        ⟨_, hr⟩ | ⟨key, effects, _, hr, _⟩
      · rw [hr, Prod.mk.injEq] at h
        rw [← h.1]
        rfl
      · rw [hr, Prod.mk.injEq] at h
        rw [← h.1]
        rfl
    | login _ => exact absurd he (by simp [Event.sessions])
    | _ => exact absurd hbrings (by simp [Event.brings])

/-- A step beside the load. -/
theorem Counted.beside {before : String → Option Nat} {s s' : Home} {o o' : List Effect}
    (hs : Counted server u before s o) (hmaps : KeepsMaps s s') (huId : s'.uId = s.uId)
    (hplain : Plain o') : Counted server u before s' (o ++ o') := by
  have hposts : .emit .getPostsSuccess ∉ o' :=
    fun h => absurd (hplain _ h) (by simp [Effect.ofLoad])
  have hasked : LikesAsked s' (o ++ o') → LikesAsked s o := fun h =>
    h.of_step (fun i p => (hmaps.requests _ rfl).mp)
      fun hmem => absurd (hplain _ hmem) (by simp [Effect.ofLoad])
  refine { user := huId.trans hs.user, older := fun h => ?_, comments := fun h => ?_
           likes := fun h => ?_, myLikes := fun h => ?_ }
  · rw [hmaps.comments]
    exact hs.older fun hmem => h (List.mem_append_left _ hmem)
  · rw [hmaps.comments]
    exact hs.comments ((List.mem_append.mp h).resolve_right hposts)
  · rw [hmaps.likes]
    exact hs.likes (hasked h)
  · rw [hmaps.myLikes]
    exact hs.myLikes (hasked h)

/-- Each row has the numbers of the server, and the user's own like. -/
def RowsCounted (server : Collections) (u : String) (s : Home) : Prop :=
  ∀ p ∈ s.postId, s.comments p = some (server.comments p).length ∧
    s.likes p = some ((server.likes p).length : Int) ∧
    s.myLikes p = some (decide (u ∈ server.likes p))

theorem Counted.rows {before : String → Option Nat} {s : Home} {o : List Effect}
    (hs : Counted server u before s o) (hdone : LoadDone s o) : RowsCounted server u s := by
  intro p hp
  have hasked : LikesAsked s o := Or.inr hdone.likes
  exact ⟨(hs.comments hdone.posts).eq ((hdone.commentsKeys p).mpr hp),
    (hs.likes hasked).eq ((hdone.likesKeys p).mpr hp),
    (hs.myLikes hasked).eq ((hdone.myLikesKeys p).mpr hp)⟩

/-- Where nothing was counted before, a row that has its number of comments is one that
this load has asked for. -/
theorem Counted.done {s : Home} {o : List Effect} (hl : Loading event s o)
    (hs : Counted server u (fun _ => none) s o) (hdone : Idle s) (hsome : s.postId ≠ [])
    (hrows : RowsCounted server u s) : LoadDone s o := by
  have hcounted : ∀ p ∈ s.postId, s.comments p ≠ none := by
    intro p hp
    rw [(hrows p hp).1]
    exact Option.some_ne_none _
  rcases hl.stage with hlook | ⟨ids, rest, before, later, hc⟩
  · obtain ⟨p, hp⟩ := List.exists_mem_of_ne_nil _ hsome
    exact absurd (congrFun (hs.older hlook.emits) p) (hcounted p hp)
  · by_cases hrest : rest = []
    · subst hrest
      exact hc.done hl hdone
    · obtain ⟨p, hp⟩ := List.exists_mem_of_ne_nil rest hrest
      have hnodup := hl.postId_nodup
      rw [hc.postId] at hnodup
      have hids : p ∈ ids := by
        refine (hc.comments.keys (fun i q => hdone.notMem rfl) p).mp (hcounted p ?_)
        rw [hc.postId]
        exact List.mem_append_right _ hp
      exact absurd hp (List.disjoint_of_nodup_append hnodup hids)

end Home
end SocialApp
