import SocialApp.Home.Likes
import SocialApp.Home.Counts
import SocialApp.Reactive.Shared

/-! # The likes of many users

Every device has a cubit of its own, and all of them write to the likes of one server.  A
like is a document that is named by its user, so what the devices of other users do cannot
add or remove it. -/

namespace SocialApp
namespace Home

open Reactive (own)

/-- The devices, with the users who have a document in `posts/p/likes`. -/
def devices : Reactive.Machine ((Nat → Home) × (String → Finset String)) (Nat × Event)
    (Nat × Effect) :=
  machine.shared serve

/-! ## Who writes -/

/-- The user whose like a write in flight sets or deletes. -/
def Pending.liker : Pending → Option String
  | .write (.setLike _ uid) _ => uid
  | .write (.deleteLike _ uid) _ => uid
  | _ => none

/-- A like in flight after a step was there before it, or is the user's. -/
def LikersKept (s s' : Home) : Prop :=
  ∀ x ∈ s'.inFlight, x ∈ s.inFlight ∨ x.liker = none ∨ x.liker = s.uId

/-- The server carries nothing out. -/
def Unserved (o : List Effect) : Prop := ∀ w, .applied w ∉ o

/-- What a step can do to the likes in flight. -/
inductive LikersStep (s s' : Home) (o : List Effect) : Prop
  | applied {k : Nat} {w : Write} (write : s.inFlight[k]? = some (.write w false))
      (state : s' = { s with inFlight := s.inFlight.set k (.write w true) })
      (effects : o = [.applied w])
  | other (kept : LikersKept s s') (unserved : Unserved o)

theorem likersKept_of_append {s s' : Home} {ps : List Pending}
    (inFlight : s'.inFlight = s.inFlight ++ ps)
    (hps : ∀ x ∈ ps, x.liker = none ∨ x.liker = s.uId) : LikersKept s s' := by
  intro x hx
  rw [inFlight] at hx
  rcases List.mem_append.mp hx with hx | hx
  · exact Or.inl hx
  · exact Or.inr (hps x hx)

theorem LikersKept.refl (s : Home) : LikersKept s s := fun _ => Or.inl

theorem LikersKept.of_landed {s s' : Home} {k : Nat} (h : LikersKept (s.landed k) s') :
    LikersKept s s' := by
  intro x hx
  rcases h x hx with hx | hliker
  · exact Or.inl (List.mem_of_mem_eraseIdx hx)
  · exact Or.inr hliker

theorem likeWrite_liker (put : Bool) (p : String) (uid : Option String) (served : Bool) :
    (Pending.write (likeWrite put p uid) served).liker = uid := by
  cases put <;> rfl

theorem mapIdx_liker {ps : List String} {f : Nat → String → Pending}
    (hf : ∀ i p, (f i p).liker = none) {x : Pending} (hx : x ∈ ps.mapIdx f) :
    x.liker = none := by
  obtain ⟨i, _, rfl⟩ := List.mem_mapIdx.mp hx
  exact hf i _

theorem deletePost_likers (s : Home) (index : Int) (postid : String) :
    LikersKept s (s.deletePost index postid).1 ∧ Unserved (s.deletePost index postid).2 := by
  rcases deletePost_cases s index postid with ⟨_, h⟩ | ⟨posts, _, ⟨_, h⟩ | ⟨postId, _, h⟩⟩
  · rw [h]
    exact ⟨.refl s, by simp [Unserved]⟩
  · rw [h]
    exact ⟨.refl s, by simp [Unserved]⟩
  · rw [h]
    refine ⟨likersKept_of_append rfl fun x hx => ?_, by simp [Unserved, issue]⟩
    rw [List.mem_singleton.mp hx]
    exact Or.inl rfl

theorem rowDelete_likers (s : Home) (index : Nat) :
    LikersKept s (s.rowDelete index).1 ∧ Unserved (s.rowDelete index).2 := by
  rcases rowDelete_cases s index with ⟨x, hx, h⟩ | ⟨m, post, id, _, _, _, _, h⟩
  · rw [h]
    refine ⟨.refl s, fun w hw => ?_⟩
    rw [← List.mem_singleton.mp hw] at hx
    simp at hx
  · rw [h]
    exact deletePost_likers s index id

theorem rowLike_likers (s : Home) (index : Nat) :
    LikersKept s (s.rowLike index).1 ∧ Unserved (s.rowLike index).2 := by
  rcases rowLike_cases s index with ⟨_, h⟩ | ⟨id, _, ⟨_, h⟩ | ⟨b, _, h⟩⟩
  · rw [h]
    exact ⟨.refl s, by simp [Unserved]⟩
  · rw [h]
    exact ⟨.refl s, by simp [Unserved]⟩
  · rw [h]
    refine ⟨likersKept_of_append rfl fun x hx => ?_, by simp [Unserved, issue]⟩
    rw [List.mem_singleton.mp hx]
    exact Or.inr (likeWrite_liker _ _ _ _)

theorem rowComment_likers (s : Home) (index : Nat) (text now : String) :
    LikersKept s (s.rowComment index text now).1 ∧
      Unserved (s.rowComment index text now).2 := by
  rcases rowComment_cases s index text now with ⟨_, h⟩ | ⟨_, ⟨_, h⟩ | ⟨id, _, h⟩⟩
  · rw [h]
    exact ⟨.refl s, by simp [Unserved]⟩
  · rw [h]
    exact ⟨.refl s, by simp [Unserved]⟩
  · rw [h]
    refine ⟨likersKept_of_append rfl fun x hx => ?_, by simp [Unserved, sendComment, issue]⟩
    rw [List.mem_singleton.mp hx]
    exact Or.inl rfl

theorem authorThen_likers (s : Home) (n : Nat) (event : QuerySnapshot) (i : Nat)
    (value : Option LoginModel) :
    LikersKept s (s.authorThen n event i value).1 ∧ Unserved (s.authorThen n event i value).2 := by
  rcases authorThen_cases s n event i value with ⟨_, h⟩ | ⟨doc, v, _, _, ⟨_, h⟩ | ⟨_, h⟩⟩
  · rw [h]
    exact ⟨.refl s, by simp [Unserved]⟩
  · rw [h]
    exact ⟨fun _ => Or.inl, by simp [Unserved]⟩
  · rw [h]
    exact ⟨likersKept_of_append rfl fun x hx => Or.inl (mapIdx_liker (fun _ _ => rfl) hx),
      by simp [Unserved]⟩

theorem getCommentsThen_likers (s : Home) (i : Nat) (post : String) (docs : List String) :
    LikersKept s (s.getCommentsThen i post docs).1 ∧
      Unserved (s.getCommentsThen i post docs).2 := by
  rcases getCommentsThen_cases s i post docs with ⟨_, h⟩ | ⟨key, _, ⟨_, h⟩ | ⟨_, h⟩⟩
  · rw [h]
    exact ⟨.refl s, by simp [Unserved]⟩
  · rw [h]
    exact ⟨fun _ => Or.inl, by simp [Unserved]⟩
  · rw [h]
    exact ⟨likersKept_of_append rfl fun x hx => Or.inl (mapIdx_liker (fun _ _ => rfl) hx),
      by simp [Unserved]⟩

theorem getLikesThen_likers (s : Home) (i : Nat) (post : String) (docs : List String) :
    LikersKept s (s.getLikesThen i post docs).1 ∧ Unserved (s.getLikesThen i post docs).2 := by
  rcases getLikesThen_cases s i post docs with ⟨_, h⟩ | ⟨key, effects, _, h, _, hof, _⟩
  · rw [h]
    exact ⟨.refl s, by simp [Unserved]⟩
  · rw [h]
    refine ⟨fun _ => Or.inl, fun w hw => ?_⟩
    rcases hof _ hw with ⟨field, heq⟩ | heq
    · exact absurd heq (by simp)
    · exact absurd heq (by simp)

theorem writeThen_likers (s : Home) (w : Write) (ok : Bool) :
    LikersKept s (s.writeThen w ok).1 ∧ Unserved (s.writeThen w ok).2 := by
  cases w with
  | addComment post comment =>
    exact ⟨fun _ => Or.inl, by simp [writeThen, sendCommentThen, Unserved]⟩
  | deletePost post => cases ok <;> exact ⟨.refl s, by simp [writeThen, Unserved]⟩
  | setLike post uid =>
    simp only [writeThen, likeThen]
    split
    · exact ⟨.refl s, by simp [Unserved]⟩
    · exact ⟨fun _ => Or.inl, by simp [Unserved]⟩
  | deleteLike post uid =>
    simp only [writeThen, unLikeThen]
    split
    · exact ⟨fun _ => Or.inl, by simp [Unserved]⟩
    · exact ⟨fun _ => Or.inl, by simp [Unserved]⟩

theorem step_likers {s s' : Home} {e : Event} {o : List Effect}
    (h : step s e = some (s', o)) : LikersStep s s' o := by
  have hret : ∀ {r : Home × List Effect}, r = (s', o) →
      LikersKept s r.1 ∧ Unserved r.2 → LikersStep s s' o := by
    rintro r rfl ⟨kept, unserved⟩
    exact .other kept unserved
  have hland : ∀ {k : Nat} {r : Home × List Effect}, r = (s', o) →
      LikersKept (s.landed k) r.1 ∧ Unserved r.2 → LikersStep s s' o := by
    rintro k r rfl ⟨kept, unserved⟩
    exact .other kept.of_landed unserved
  cases e with
  | login uid =>
    refine hret (Option.some.inj h) ⟨likersKept_of_append rfl fun x hx => ?_,
      by simp [login, getUserData, getPosts, Unserved]⟩
    rw [List.mem_singleton.mp hx]
    exact Or.inl rfl
  | logout => exact hret (Option.some.inj h) ⟨.refl s, by simp [logout, Unserved]⟩
  | getUserData =>
    refine hret (Option.some.inj h) ⟨likersKept_of_append rfl fun x hx => ?_,
      by simp [getUserData, Unserved]⟩
    rw [List.mem_singleton.mp hx]
    exact Or.inl rfl
  | getPosts => exact hret (Option.some.inj h) ⟨.refl s, by simp [getPosts, Unserved]⟩
  | getComments =>
    exact hret (Option.some.inj h)
      ⟨likersKept_of_append rfl fun x hx => Or.inl (mapIdx_liker (fun _ _ => rfl) hx),
        by simp [getComments, Unserved]⟩
  | getLikes =>
    exact hret (Option.some.inj h)
      ⟨likersKept_of_append rfl fun x hx => Or.inl (mapIdx_liker (fun _ _ => rfl) hx),
        by simp [getLikes, Unserved]⟩
  | deletePost index postid => exact hret (Option.some.inj h) (deletePost_likers s index postid)
  | rowDelete index => exact hret (Option.some.inj h) (rowDelete_likers s index)
  | rowLike index => exact hret (Option.some.inj h) (rowLike_likers s index)
  | rowComment index text now =>
    exact hret (Option.some.inj h) (rowComment_likers s index text now)
  | snapshot event =>
    refine hret (step_snapshot h).2 ⟨likersKept_of_append rfl fun x hx => ?_,
      by simp [onPosts, Unserved]⟩
    obtain ⟨i, _, rfl⟩ := List.mem_map.mp hx
    exact Or.inl rfl
  | userData k data =>
    obtain ⟨uid, _, h⟩ := step_userData h
    rcases getUserDataThen_cases (s.landed k) data with ⟨_, hr⟩ | ⟨m, _, hr⟩
    · exact hland (hr.symm.trans h) ⟨.refl _, by simp [Unserved]⟩
    · exact hland (hr.symm.trans h) ⟨fun _ => Or.inl, by simp [Unserved]⟩
  | author k data =>
    obtain ⟨n, event, i, uid, _, h⟩ := step_author h
    exact hland h (authorThen_likers _ n event i _)
  | comments k docs =>
    obtain ⟨i, post, _, h⟩ := step_comments h
    exact hland h (getCommentsThen_likers _ i post docs)
  | likes k docs =>
    obtain ⟨i, post, _, h⟩ := step_likes h
    exact hland h (getLikesThen_likers _ i post docs)
  | queryFailed k =>
    obtain ⟨_, rfl, rfl⟩ := step_queryFailed h
    exact .other (LikersKept.of_landed (.refl _)) (by simp [Unserved])
  | applied k =>
    obtain ⟨w, hk, hs', ho⟩ := step_applied h
    exact .applied hk hs' ho
  | settled k ok =>
    obtain ⟨w, _, h⟩ := step_settled h
    exact hland h (writeThen_likers _ w ok)

/-! ## Each user on a device -/

variable {owner : String → Nat}

/-- The users of a device, who are logged in or have a like in flight, have it for their
own. -/
structure Theirs (owner : String → Nat) (i : Nat) (s : Home) : Prop where
  user : ∀ u, s.uId = some u → owner u = i
  likers : ∀ x ∈ s.inFlight, ∀ u, x.liker = some u → owner u = i

/-- Only the users of a device log in on it. -/
def LogsIn (owner : String → Nat) (i : Nat) (e : Event) : Prop :=
  ∀ u, e = .login u → owner u = i

/-- The user after a step. -/
theorem step_user {s s' : Home} {e : Event} {o : List Effect} (h : step s e = some (s', o)) :
    s'.uId = s.uId ∨ s'.uId = none ∨ ∃ u, e = .login u ∧ s'.uId = some u := by
  cases he : e.sessions with
  | false => exact Or.inl (step_uId h he)
  | true =>
    cases e with
    | login u =>
      have hr : (s.login u).1 = s' := congrArg Prod.fst (Option.some.inj h)
      rw [← hr]
      exact Or.inr (Or.inr ⟨u, rfl, rfl⟩)
    | logout =>
      have hr : s.logout.1 = s' := congrArg Prod.fst (Option.some.inj h)
      rw [← hr]
      exact Or.inr (Or.inl rfl)
    | _ => exact absurd he (by simp [Event.sessions])

theorem step_theirs {i : Nat} {s s' : Home} {e : Event} {o : List Effect}
    (hs : Theirs owner i s) (h : step s e = some (s', o)) (he : LogsIn owner i e) :
    Theirs owner i s' := by
  have huser : ∀ u, s'.uId = some u → owner u = i := by
    intro u hu
    rcases step_user h with hsame | hnone | ⟨v, rfl, hv⟩
    · exact hs.user u (hsame ▸ hu)
    · rw [hnone] at hu
      exact absurd hu (by simp)
    · rw [hv, Option.some.injEq] at hu
      exact he u (by rw [hu])
  refine { user := huser, likers := fun x hx u hu => ?_ }
  cases step_likers h with
  | @applied k w write state effects =>
    rw [state] at hx
    rcases List.mem_or_eq_of_mem_set hx with hx | rfl
    · exact hs.likers x hx u hu
    · refine hs.likers _ (List.mem_of_getElem? write) u ?_
      cases w <;> exact hu
  | other kept unserved =>
    rcases kept x hx with hx | hnone | hown
    · exact hs.likers x hx u hu
    · rw [hnone] at hu
      exact absurd hu (by simp)
    · exact hs.user u (hown ▸ hu)

/-! ## What a user has of the likes on the server -/

/-- Which posts the users of a device like. -/
def likesOf (owner : String → Nat) (i : Nat) (likers : String → Finset String) (p u : String) :
    Bool :=
  decide (owner u = i ∧ u ∈ likers p)

theorem mem_serve_likeWrite {likers : String → Finset String} {put : Bool} {p q u v : String} :
    v ∈ serve likers (.applied (likeWrite put p (some u))) q ↔
      if q = p ∧ v = u then put = true else v ∈ likers q := by
  rw [serve_likeWrite]
  by_cases hq : q = p
  · subst hq
    rw [Function.update_self]
    cases put with
    | false =>
      by_cases hv : v = u
      · simp [Reactive.Request.serve, hv]
      · simp [Reactive.Request.serve, hv]
    | true =>
      by_cases hv : v = u
      · simp [Reactive.Request.serve, hv]
      · simp [Reactive.Request.serve, hv]
  · rw [Function.update_of_ne hq, if_neg fun h => hq h.1]

/-- An effect changes the likes of one user or none. -/
theorem serve_cases (x : Effect) :
    (∀ likers, serve likers x = likers) ∨
      ∃ put p u, x = .applied (likeWrite put p (some u)) := by
  cases x with
  | applied w =>
    cases w with
    | addComment post comment => exact Or.inl fun _ => rfl
    | deletePost post => exact Or.inl fun _ => rfl
    | setLike p uid =>
      cases uid with
      | none => exact Or.inl fun _ => rfl
      | some u => exact Or.inr ⟨true, p, u, rfl⟩
    | deleteLike p uid =>
      cases uid with
      | none => exact Or.inl fun _ => rfl
      | some u => exact Or.inr ⟨false, p, u, rfl⟩
  | _ => exact Or.inl fun _ => rfl

/-- The devices do not touch the likes of each other's users. -/
theorem devices_apart (owner : String → Nat) (i : Nat) :
    Reactive.Machine.Apart machine serve (Theirs owner) (LogsIn owner) i (likesOf owner i) := by
  refine { keep := fun j s e s' o hs h he => step_theirs hs h he, others := ?_, seen := ?_ }
  · intro j s e s' o hji hs h he x hx likers
    rcases serve_cases x with hnone | ⟨put, p, u, rfl⟩
    · rw [hnone likers]
    have hu : owner u = j := by
      cases step_likers h with
      | @applied k w write state effects =>
        rw [effects, List.mem_singleton, Effect.applied.injEq] at hx
        refine hs.likers _ (List.mem_of_getElem? write) u ?_
        rw [← hx]
        exact likeWrite_liker _ _ _ _
      | other kept unserved => exact absurd hx (unserved _)
    funext q v
    refine decide_eq_decide.mpr (and_congr_right fun hv => ?_)
    rw [mem_serve_likeWrite, if_neg]
    rintro ⟨-, rfl⟩
    exact hji (hu.symm.trans hv)
  · intro likers likers' x hview
    rcases serve_cases x with hnone | ⟨put, p, u, rfl⟩
    · rw [hnone likers, hnone likers']
      exact hview
    funext q v
    refine decide_eq_decide.mpr (and_congr_right fun hv => ?_)
    rw [mem_serve_likeWrite, mem_serve_likeWrite]
    split
    · exact Iff.rfl
    · have hsame := decide_eq_decide.mp (congrFun (congrFun hview q) v)
      exact (and_congr_right_iff.mp hsame) hv

theorem likesOf_inj {likers likers' : String → Finset String}
    (h : ∀ i, likesOf owner i likers = likesOf owner i likers') : likers = likers' := by
  funext p
  ext u
  have hu := decide_eq_decide.mp (congrFun (congrFun (h (owner u)) p) u)
  exact (and_congr_right_iff.mp hu) rfl

/-- However the same events of each device are interleaved, every device comes to the same
state, with the same effects, and the server to the same likes, as long as no two devices
are used by one user. -/
theorem interleavings_agree {es es' : List (Nat × Event)}
    {s₀ s s' : (Nat → Home) × (String → Finset String)} {o o' : List (Nat × Effect)}
    (h₀ : ∀ i, Theirs owner i (s₀.1 i)) (hes : ∀ x ∈ es, LogsIn owner x.1 x.2)
    (hsame : ∀ i, own i es = own i es') (hrun : devices.run s₀ es = some (s, o))
    (hrun' : devices.run s₀ es' = some (s', o')) : s = s' ∧ ∀ i, own i o = own i o' :=
  Reactive.Machine.run_interleaved (devices_apart owner) (fun _ _ => likesOf_inj) h₀ hes hsame
    hrun hrun'

/-- ann and bob have loaded the two posts, each on a device of their own. -/
def annAndBob : (Nat → Home) × (String → Finset String) :=
  (fun i => if i = 0 then twoPostsLiked.home else if i = 1 then
      ((machine.run (init none) (.login "bob" :: loadTwoPosts.tail ++
        [.comments 0 [], .comments 0 [], .likes 0 ["ann"], .likes 0 []])).map Prod.fst).getD
          (init none)
    else init none,
    twoPostsLiked.likers)

def deviceOf (u : String) : Nat := if u = "bob" then 1 else 0

theorem annAndBob_theirs (i : Nat) : Theirs deviceOf i (annAndBob.1 i) := by
  match i with
  | 0 =>
    refine { user := fun u hu => ?_, likers := fun x hx => absurd hx List.not_mem_nil }
    rw [← Option.some.inj hu]
    rfl
  | 1 =>
    refine { user := fun u hu => ?_, likers := fun x hx => absurd hx List.not_mem_nil }
    rw [← Option.some.inj hu]
    rfl
  | i + 2 =>
    refine { user := fun u hu => ?_, likers := fun x hx => absurd hx List.not_mem_nil }
    have hnone : (none : Option String) = some u := hu
    exact absurd hnone (by simp)

/-- ann takes back her like of a post that bob likes. -/
def tapsOfBoth : List (Nat × Event) :=
  [(0, .rowLike 0), (1, .rowLike 0), (0, .applied 0), (1, .applied 0), (0, .settled 0 true),
    (1, .settled 0 true)]

/-- The same, with bob's like carried out and answered first. -/
def tapsInTurn : List (Nat × Event) :=
  [(1, .rowLike 0), (1, .applied 0), (1, .settled 0 true), (0, .rowLike 0), (0, .applied 0),
    (0, .settled 0 true)]

theorem tapsOfBoth_own (i : Nat) : own i tapsOfBoth = own i tapsInTurn := by
  match i with
  | 0 => rfl
  | 1 => rfl
  | i + 2 => rfl

theorem tapsOfBoth_logsIn : ∀ x ∈ tapsOfBoth, LogsIn deviceOf x.1 x.2 := by
  intro x hx u hu
  simp only [tapsOfBoth, List.mem_cons, List.not_mem_nil, or_false] at hx
  rcases hx with rfl | rfl | rfl | rfl | rfl | rfl
  all_goals exact absurd hu (by simp)

theorem interleavings_agree_annAndBob :
    ∃ s o s' o', devices.run annAndBob tapsOfBoth = some (s, o) ∧
      devices.run annAndBob tapsInTurn = some (s', o') ∧
      "ann" ∉ s.2 "2022-01-02" ∧ "bob" ∈ s.2 "2022-01-02" ∧ s = s' := by
  refine ⟨_, _, _, _, rfl, rfl, by decide, by decide, ?_⟩
  exact (@interleavings_agree deviceOf tapsOfBoth tapsInTurn annAndBob _ _ _ _
    annAndBob_theirs tapsOfBoth_logsIn tapsOfBoth_own rfl rfl).1

/-! ## What a user is shown -/

theorem run_liked {es : List Event} {s : Liked} {p : Home × (String → Finset String)}
    {o : List Effect} (hrun : (machine.served serve).run (s.home, s.likers) es = some (p, o)) :
    Liked.machine.run s es = some ({ home := p.1, likers := p.2 }, o) := by
  induction es generalizing s o with
  | nil =>
    rw [Reactive.Machine.run_nil, Option.some.injEq, Prod.mk.injEq] at hrun
    obtain ⟨rfl, rfl⟩ := hrun
    rfl
  | cons e es ih =>
    obtain ⟨q, o₁, o₂, hstep, hrest, rfl⟩ := Reactive.Machine.run_cons.mp hrun
    obtain ⟨hhome, hlikers⟩ := Reactive.Machine.step_served.mp hstep
    refine Reactive.Machine.run_cons.mpr ⟨{ home := q.1, likers := q.2 }, o₁, o₂, ?_, ih hrest,
      rfl⟩
    show (s.home.step e).map _ = _
    rw [hlikers]
    exact Option.map_eq_some_iff.mpr ⟨(q.1, o₁), hhome, rfl⟩

/-- Whatever the users of other devices do: a user who taps each post only while none of
its own likes is in flight, and whose taps complete while their post is selected, is shown
whether the server has the user's like, for every loaded post, whenever no like of this
device is in flight. -/
theorem own_likes_shown {u : String} {i : Nat} {es : List (Nat × Event)}
    {s₀ s : (Nat → Home) × (String → Finset String)} {o : List (Nat × Effect)}
    (h₀ : ∀ j, Theirs owner j (s₀.1 j)) (hes : ∀ x ∈ es, LogsIn owner x.1 x.2)
    (hagreed : Agreed u { home := s₀.1 i, likers := s₀.2 })
    (htaps : ∀ e ∈ own i es, e.taps = true)
    (halone : Liked.machine.Every (fun s e _ _ => Alone s e)
      { home := s₀.1 i, likers := s₀.2 } (own i es))
    (hrun : devices.run s₀ es = some (s, o)) (hquiet : ∀ p, (s.1 i).requests p = []) :
    ∀ p ∈ (s.1 i).postId, (s.1 i).myLikes p = some (decide (u ∈ s.2 p)) := by
  obtain ⟨likers, hown, hview⟩ :=
    Reactive.Machine.run_own (devices_apart owner i) h₀ hes rfl hrun
  have hboth := (Reactive.Machine.every_of_forall (M := Liked.machine)
    (Q := fun _ e _ _ => e.taps = true) (fun _ _ _ _ h => h) htaps _).and halone
  have hliked := run_liked (s := { home := s₀.1 i, likers := s₀.2 }) hown
  have hs : Agreed u { home := s.1 i, likers } :=
    Reactive.Machine.run_state_invariant (M := Liked.machine)
      (fun s e s' o hs hstep hq => step_agreed hs hstep hq.1 hq.2) hagreed hboth hliked
  intro p hp
  have hagrees := hs.agrees p hp
  rw [hquiet p] at hagrees
  have howner : owner u = i := (h₀ i).user u hagreed.uId
  have hmem := decide_eq_decide.mp (congrFun (congrFun hview p) u)
  have hsame : u ∈ s.2 p ↔ u ∈ likers p := (and_congr_right_iff.mp hmem) howner
  rw [hagrees.2, decide_eq_decide.mpr hsame]

theorem own_likes_shown_annAndBob :
    ∃ s o, devices.run annAndBob tapsOfBoth = some (s, o) ∧
      (s.1 0).postId = ["2022-01-02", "2022-01-01"] ∧
      ∀ p ∈ (s.1 0).postId, (s.1 0).myLikes p = some (decide ("ann" ∈ s.2 p)) := by
  refine ⟨_, _, rfl, rfl, @own_likes_shown deviceOf "ann" 0 tapsOfBoth annAndBob _ _
    annAndBob_theirs tapsOfBoth_logsIn twoPostsLiked_agreed ?_ ?_ rfl (fun _ => rfl)⟩
  · decide
  · refine Reactive.Machine.every_cons rfl (fun _ _ => rfl) ?_
    refine Reactive.Machine.every_cons rfl trivial ?_
    exact Reactive.Machine.every_cons rfl (fun _ h => Option.some.inj h) trivial

end Home
end SocialApp
