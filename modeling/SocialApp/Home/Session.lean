import SocialApp.Home.Requests
import SocialApp.Home.Responses
import SocialApp.Reactive.History

/-! # What is shown to the user who is logged in

The cubit outlives the sessions of its users.  A logout clears the global `uId`
and nothing else, and what was asked for in one session may arrive in the next. -/

namespace SocialApp
namespace Home

/-- The events that bring a user, his profile or his likes. -/
def Event.brings : Event → Bool
  | .login _ => true
  | .userData _ _ => true
  | .likes _ _ => true
  | _ => false

/-- What the other steps can do to the user, the model and `myLikes`. -/
inductive SessionStep (s s' : Home) : Event → Prop
  | same {e : Event} (uId : s'.uId = s.uId) (model : s'.model = s.model)
      (myLikes : s'.myLikes = s.myLikes) : SessionStep s s' e
  | cleared {e : Event} (uId : s'.uId = s.uId) (model : s'.model = s.model)
      (myLikes : s'.myLikes = fun _ => none) : SessionStep s s' e
  | logout (uId : s'.uId = none) (model : s'.model = s.model)
      (myLikes : s'.myLikes = s.myLikes) : SessionStep s s' .logout
  | liked {k : Nat} {ok : Bool} {x : Pending} (write : s.inFlight[k]? = some x)
      (likes : x.likes = true) : SessionStep s s' (.settled k ok)

theorem deletePost_session (s : Home) (index : Int) (postid : String) {e : Event} :
    SessionStep s (s.deletePost index postid).1 e := by
  rcases deletePost_cases s index postid with ⟨_, h⟩ | ⟨posts, _, ⟨_, h⟩ | ⟨postId, _, h⟩⟩
  all_goals
    rw [h]
    exact .same rfl rfl rfl

theorem rowDelete_session (s : Home) (index : Nat) {e : Event} :
    SessionStep s (s.rowDelete index).1 e := by
  rcases rowDelete_cases s index with ⟨x, _, h⟩ | ⟨m, post, id, _, _, _, _, h⟩
  · rw [h]
    exact .same rfl rfl rfl
  · rw [h]
    exact deletePost_session s index id

theorem rowLike_session (s : Home) (index : Nat) {e : Event} :
    SessionStep s (s.rowLike index).1 e := by
  rcases rowLike_cases s index with ⟨_, h⟩ | ⟨id, _, ⟨_, h⟩ | ⟨b, _, h⟩⟩
  all_goals
    rw [h]
    exact .same rfl rfl rfl

theorem rowComment_session (s : Home) (index : Nat) (text now : String) {e : Event} :
    SessionStep s (s.rowComment index text now).1 e := by
  rcases rowComment_cases s index text now with ⟨_, h⟩ | ⟨_, ⟨_, h⟩ | ⟨id, _, h⟩⟩
  all_goals
    rw [h]
    exact .same rfl rfl rfl

theorem authorThen_session (s : Home) (n : Nat) (event : QuerySnapshot) (i : Nat)
    (value : Option LoginModel) {e : Event} :
    SessionStep s (s.authorThen n event i value).1 e := by
  rcases authorThen_cases s n event i value with ⟨_, h⟩ | ⟨doc, v, _, _, ⟨_, h⟩ | ⟨_, h⟩⟩
  all_goals
    rw [h]
    exact .same rfl rfl rfl

theorem getCommentsThen_session (s : Home) (i : Nat) (post : String) (docs : List String)
    {e : Event} : SessionStep s (s.getCommentsThen i post docs).1 e := by
  rcases getCommentsThen_cases s i post docs with ⟨_, h⟩ | ⟨key, _, ⟨_, h⟩ | ⟨_, h⟩⟩
  · rw [h]
    exact .same rfl rfl rfl
  · rw [h]
    exact .same rfl rfl rfl
  · rw [h]
    exact .cleared rfl rfl rfl

/-- A callback of the state it runs in acts on the state it was in flight in. -/
theorem SessionStep.of_landed {s s' : Home} {k : Nat} {e : Event}
    (h : ∀ {e'}, SessionStep (s.landed k) s' e') : SessionStep s s' e := by
  cases @h .getPosts with
  | same uId model myLikes => exact .same uId model myLikes
  | cleared uId model myLikes => exact .cleared uId model myLikes

theorem step_session {s s' : Home} {e : Event} {o : List Effect}
    (h : step s e = some (s', o)) (he : e.brings = false) : SessionStep s s' e := by
  have hret : ∀ {r : Home × List Effect}, r = (s', o) → SessionStep s r.1 e →
      SessionStep s s' e := by
    rintro r rfl hr
    exact hr
  cases e with
  | login uid => exact absurd he (by simp [Event.brings])
  | userData k data => exact absurd he (by simp [Event.brings])
  | likes k docs => exact absurd he (by simp [Event.brings])
  | logout => exact hret (Option.some.inj h) (.logout rfl rfl rfl)
  | getUserData => exact hret (Option.some.inj h) (.same rfl rfl rfl)
  | getPosts => exact hret (Option.some.inj h) (.same rfl rfl rfl)
  | getComments => exact hret (Option.some.inj h) (.same rfl rfl rfl)
  | getLikes => exact hret (Option.some.inj h) (.cleared rfl rfl rfl)
  | deletePost index postid =>
    exact hret (Option.some.inj h) (deletePost_session s index postid)
  | rowDelete index => exact hret (Option.some.inj h) (rowDelete_session s index)
  | rowLike index => exact hret (Option.some.inj h) (rowLike_session s index)
  | rowComment index text now =>
    exact hret (Option.some.inj h) (rowComment_session s index text now)
  | snapshot event => exact hret (step_snapshot h).2 (.same rfl rfl rfl)
  | author k data =>
    obtain ⟨n, event, i, uid, hk, h⟩ := step_author h
    exact hret h (SessionStep.of_landed (authorThen_session _ n event i _))
  | comments k docs =>
    obtain ⟨i, post, hk, h⟩ := step_comments h
    exact hret h (SessionStep.of_landed (getCommentsThen_session _ i post docs))
  | queryFailed k =>
    obtain ⟨_, rfl, _⟩ := step_queryFailed h
    exact .same rfl rfl rfl
  | applied k =>
    obtain ⟨w, _, rfl, _⟩ := step_applied h
    exact .same rfl rfl rfl
  | settled k ok =>
    obtain ⟨w, hk, h⟩ := step_settled h
    cases w with
    | addComment post comment => exact hret h (.same rfl rfl rfl)
    | deletePost post => exact hret h (.same rfl rfl rfl)
    | setLike post uid => exact .liked hk rfl
    | deleteLike post uid => exact .liked hk rfl

/-! ## The user's own -/

/-- `myLikes` says of each post whether `u` likes it. -/
def MyLikesOf (likers : String → List String) (u : String) (s : Home) : Prop :=
  ∀ p b, s.myLikes p = some b → b = decide (u ∈ likers p)

/-- The profile that SocialLayout shows to a user is his. -/
def ModelOwn (s : Home) : Prop := ∀ u m, s.uId = some u → s.model = some m → m.uid = some u

/-- Whenever SocialLayout shows a screen to a user, the model and the likes are
those of this user. -/
def ShownOwn (likers : String → List String) (s : Home) : Prop :=
  ∀ u m, s.uId = some u → s.model = some m → m.uid = some u ∧ MyLikesOf likers u s

/-- The answers of the server, while the likes stay as they are: the document of a
user names this user, the likes of a post are its likers, and no like completes. -/
def Honest (likers : String → List String) (s : Home) (e : Event) : Prop :=
  match e with
  | .userData k data => ∀ uid json, s.inFlight[k]? = some (.getUserData uid) →
      data = some json → ∃ u, uid = some u ∧ json.string "uid" = some u
  | .likes k docs => ∀ i post, s.inFlight[k]? = some (.getLikes i post) →
      ∀ u, u ∈ docs ↔ u ∈ likers post
  | .settled k _ => ∀ x, s.inFlight[k]? = some x → x.likes = false
  | _ => True

/-- For whom the last profile that arrived was asked for, and, for each post under which
likes have arrived since the last `getLikes`, who was logged in when they did and the
post they were asked for. -/
structure Arrivals where
  profile : Option (Option String)
  likes : String → Option (Option String × String)

namespace Arrivals

def start : Arrivals := { profile := none, likes := fun _ => none }

def note (h : Arrivals) (s : Home) (e : Event) (_ : Home) (_ : List Effect) : Arrivals :=
  match e with
  | .userData k data =>
    match s.inFlight[k]?, LoginModel.fromJson data with
    | some (.getUserData uid), some _ => { h with profile := some uid }
    | _, _ => h
  | .likes k _ =>
    match s.inFlight[k]? with
    | some (.getLikes i post) =>
      match s.postId[i]? with
      | some key => { h with likes := Function.update h.likes key (some (s.uId, post)) }
      | none => h
    | _ => h
  | e => if asksLikes s e then { h with likes := fun _ => none } else h

/-- All likes that have arrived came while `u` was logged in, for the post they are
stored under. -/
def LikesFor (h : Arrivals) (u : String) : Prop :=
  ∀ key v post, h.likes key = some (v, post) → v = some u ∧ post = key

end Arrivals

/-- The cubit with what has arrived. -/
def arriving : Reactive.Machine (Home × Arrivals) Event Effect := machine.withHistory Arrivals.note

/-- A user logs in when the last profile to arrive, if any, was asked for him, and a
profile that arrives while a user is logged in was asked for him. -/
def AskedByUser (p : Home × Arrivals) (e : Event) : Prop :=
  match e with
  | .login u => ∀ r, p.2.profile = some r → r = some u
  | .userData k data => ∀ u r, p.1.uId = some u → p.1.inFlight[k]? = some (.getUserData r) →
      LoginModel.fromJson data ≠ none → r = some u
  | _ => True

/-- When a user logs in after a profile has arrived, or a profile arrives for him, all
likes have arrived while he was logged in and for their own post; and so do those that
arrive afterwards. -/
def LikedByUser (p : Home × Arrivals) (e : Event) : Prop :=
  match e with
  | .login u => p.2.profile ≠ none → p.2.LikesFor u
  | .userData _ data => ∀ u, p.1.uId = some u → LoginModel.fromJson data ≠ none → p.2.LikesFor u
  | .likes k _ => p.1.uId ≠ none → p.2.profile ≠ none → ∀ i post key,
      p.1.inFlight[k]? = some (.getLikes i post) → p.1.postId[i]? = some key → post = key
  | _ => True

/-- What keeps the sessions apart. -/
def KeptApart (p : Home × Arrivals) (e : Event) : Prop := AskedByUser p e ∧ LikedByUser p e

/-! ## The account of the arrivals -/

/-- The model and `myLikes` are what has arrived. -/
structure Account (likers : String → List String) (p : Home × Arrivals) : Prop where
  model : ∀ m, p.1.model = some m → ∃ u, p.2.profile = some (some u) ∧ m.uid = some u
  unread : p.1.model = none → p.2.profile = none
  likes : ∀ key b, p.1.myLikes key = some b → ∃ v post, p.2.likes key = some (v, post) ∧
    (b = true ↔ ∃ w, v = some w ∧ w ∈ likers post)

theorem start_account (likers : String → List String) (u : Option String) :
    Account likers (init u, Arrivals.start) where
  model _ hm := absurd hm (by simp [init])
  unread _ := rfl
  likes _ _ hb := absurd hb (by simp [init])

/-- A user is shown his own when what has arrived is his. -/
theorem Account.modelOwn_iff {likers : String → List String} {p : Home × Arrivals}
    (hp : Account likers p) :
    ModelOwn p.1 ↔ ∀ u r, p.1.uId = some u → p.2.profile = some r → r = some u := by
  constructor
  · intro hown u r hu hr
    cases hm : p.1.model with
    | none => exact absurd ((hp.unread hm).symm.trans hr) (by simp)
    | some m =>
      obtain ⟨v, hv, huid⟩ := hp.model m hm
      rw [← Option.some.inj (hv.symm.trans hr), ← huid]
      exact hown u m hu hm
  · intro hown u m hu hm
    obtain ⟨v, hv, huid⟩ := hp.model m hm
    exact huid.trans (hown u (some v) hu hv)

theorem Account.myLikesOf {likers : String → List String} {p : Home × Arrivals}
    (hp : Account likers p) {u : String} (hlikes : p.2.LikesFor u) :
    MyLikesOf likers u p.1 := by
  intro key b hb
  obtain ⟨v, post, harrived, hiff⟩ := hp.likes key b hb
  obtain ⟨rfl, rfl⟩ := hlikes key v post harrived
  rw [Bool.eq_iff_iff, hiff, decide_eq_true_eq]
  exact ⟨fun ⟨w, hw, hmem⟩ => Option.some.inj hw ▸ hmem, fun hmem => ⟨u, rfl, hmem⟩⟩

/-- The steps that bring nothing leave the record, or forget the likes with the map. -/
theorem note_of_brings {h : Arrivals} {s s' : Home} {e : Event} {o : List Effect}
    (he : e.brings = false) : h.note s e s' o =
      if asksLikes s e then { h with likes := fun _ => none } else h := by
  cases e with
  | userData k data => exact absurd he (by simp [Event.brings])
  | likes k docs => exact absurd he (by simp [Event.brings])
  | _ => rfl

/-- `getLikes` clears the map. -/
theorem asksLikes_clears {s s' : Home} {e : Event} {o : List Effect}
    (h : step s e = some (s', o)) (hask : asksLikes s e = true) :
    s'.uId = s.uId ∧ s'.model = s.model ∧ s'.myLikes = fun _ => none := by
  obtain ⟨t, rfl, huId, hmodel, -, -⟩ := step_asksLikes h hask
  exact ⟨huId, hmodel, rfl⟩

theorem login_account {likers : String → List String} {p p' : Home × Arrivals} {u : String}
    {o : List Effect} (hp : Account likers p) (h : p.1.step (.login u) = some (p'.1, o))
    (hnote : p'.2 = p.2.note p.1 (.login u) p'.1 o) :
    Account likers p' ∧ p'.2 = p.2 ∧ p'.1.uId = some u := by
  obtain ⟨hs, -⟩ := Prod.mk.inj (Option.some.inj h)
  have hrecord : p'.2 = p.2 := hnote
  refine ⟨{ model := ?_, unread := ?_, likes := ?_ }, hrecord, by rw [← hs]; rfl⟩
  · rw [← hs, hrecord]
    exact hp.model
  · rw [← hs, hrecord]
    exact hp.unread
  · rw [← hs, hrecord]
    exact hp.likes

/-- A profile arrives, or the read fails. -/
theorem userData_account {likers : String → List String} {p p' : Home × Arrivals} {k : Nat}
    {data : Option Json} {o : List Effect} (hp : Account likers p)
    (h : p.1.step (.userData k data) = some (p'.1, o))
    (hnote : p'.2 = p.2.note p.1 (.userData k data) p'.1 o)
    (honest : Honest likers p.1 (.userData k data)) :
    Account likers p' ∧ p'.1.uId = p.1.uId ∧ ∃ r, p.1.inFlight[k]? = some (.getUserData r) ∧
      p'.2 = if LoginModel.fromJson data = none then p.2 else { p.2 with profile := some r } := by
  obtain ⟨r, hk, h⟩ := step_userData h
  rcases getUserDataThen_cases (p.1.landed k) data with ⟨hnone, hr⟩ | ⟨m, hm, hr⟩
  · obtain ⟨hs, -⟩ := Prod.mk.inj (hr.symm.trans h)
    have hrecord : p'.2 = p.2 := by
      rw [hnote]
      simp only [Arrivals.note, hk, hnone]
    refine ⟨{ model := ?_, unread := ?_, likes := ?_ }, by rw [← hs]; rfl, r, hk,
      by rw [if_pos hnone, hrecord]⟩
    · rw [← hs, hrecord]
      exact hp.model
    · rw [← hs, hrecord]
      exact hp.unread
    · rw [← hs, hrecord]
      exact hp.likes
  · obtain ⟨hs, -⟩ := Prod.mk.inj (hr.symm.trans h)
    have hrecord : p'.2 = { p.2 with profile := some r } := by
      rw [hnote]
      simp only [Arrivals.note, hk, hm]
    refine ⟨{ model := fun m' hm' => ?_, unread := fun hm' => ?_, likes := ?_ },
      by rw [← hs]; rfl, r, hk, by rw [if_neg (by simp [hm]), hrecord]⟩
    · obtain ⟨json, rfl, rfl⟩ := Option.map_eq_some_iff.mp hm
      obtain ⟨v, rfl, hjson⟩ := honest r json hk rfl
      rw [← hs] at hm'
      rw [hrecord, ← Option.some.inj hm']
      exact ⟨v, rfl, hjson⟩
    · rw [← hs] at hm'
      exact absurd hm' (by simp)
    · rw [← hs, hrecord]
      exact hp.likes

/-- Likes arrive. -/
theorem likes_account {likers : String → List String} {p p' : Home × Arrivals} {k : Nat}
    {docs : List String} {o : List Effect} (hp : Account likers p)
    (h : p.1.step (.likes k docs) = some (p'.1, o))
    (hnote : p'.2 = p.2.note p.1 (.likes k docs) p'.1 o)
    (honest : Honest likers p.1 (.likes k docs)) :
    Account likers p' ∧ p'.1.uId = p.1.uId ∧ p'.2.profile = p.2.profile ∧
      ∀ u, p.1.uId = some u → p.2.LikesFor u → (∀ i post key,
        p.1.inFlight[k]? = some (.getLikes i post) → p.1.postId[i]? = some key → post = key) →
        p'.2.LikesFor u := by
  obtain ⟨i, post, hk, h⟩ := step_likes h
  rcases getLikesThen_cases (p.1.landed k) i post docs with ⟨hkey, hr⟩ | ⟨key, o', hkey, hr, -⟩
  · obtain ⟨hs, -⟩ := Prod.mk.inj (hr.symm.trans h)
    have hkey : p.1.postId[i]? = none := hkey
    have hrecord : p'.2 = p.2 := by
      rw [hnote]
      simp only [Arrivals.note, hk, hkey]
    refine ⟨{ model := ?_, unread := ?_, likes := ?_ }, by rw [← hs]; rfl, by rw [hrecord],
      fun u _ hlikes _ => by rw [hrecord]; exact hlikes⟩
    · rw [← hs, hrecord]
      exact hp.model
    · rw [← hs, hrecord]
      exact hp.unread
    · rw [← hs, hrecord]
      exact hp.likes
  · obtain ⟨hs, -⟩ := Prod.mk.inj (hr.symm.trans h)
    have hkey : p.1.postId[i]? = some key := hkey
    have hrecord : p'.2 =
        { p.2 with likes := Function.update p.2.likes key (some (p.1.uId, post)) } := by
      rw [hnote]
      simp only [Arrivals.note, hk, hkey]
    have harrived : p'.2.likes = Function.update p.2.likes key (some (p.1.uId, post)) := by
      rw [hrecord]
    refine ⟨{ model := ?_, unread := ?_, likes := fun key' b hb => ?_ }, by rw [← hs]; rfl,
      by rw [hrecord], fun u hu hlikes hown key' v q hq => ?_⟩
    · rw [← hs, hrecord]
      exact hp.model
    · rw [← hs, hrecord]
      exact hp.unread
    · rw [← hs, storeLikes_myLikes] at hb
      rw [harrived]
      by_cases heq : key' = key
      · rw [heq, Function.update_self, Option.some.injEq] at hb
        refine ⟨p.1.uId, post, by rw [heq, Function.update_self], ?_⟩
        rw [← hb, mine_iff]
        exact exists_congr fun w => and_congr_right fun _ => honest i post hk w
      · rw [Function.update_of_ne heq] at hb
        rw [Function.update_of_ne heq]
        exact hp.likes key' b hb
    · rw [harrived] at hq
      rcases eq_or_of_update hq with hold | ⟨rfl, hnew⟩
      · exact hlikes key' v q hold
      · obtain ⟨rfl, rfl⟩ := Prod.mk.inj hnew
        exact ⟨hu, hown i q key' hk hkey⟩

/-- The other steps bring nothing: whoever is logged in stays or logs out. -/
theorem other_account {likers : String → List String} {p p' : Home × Arrivals} {e : Event}
    {o : List Effect} (hp : Account likers p) (h : p.1.step e = some (p'.1, o))
    (hnote : p'.2 = p.2.note p.1 e p'.1 o) (he : e.brings = false)
    (honest : Honest likers p.1 e) :
    Account likers p' ∧ (p'.1.uId = p.1.uId ∨ p'.1.uId = none) ∧ p'.2.profile = p.2.profile ∧
      ∀ u, p.2.LikesFor u → p'.2.LikesFor u := by
  rw [note_of_brings he] at hnote
  cases hask : asksLikes p.1 e with
  | true =>
    obtain ⟨huId, hmodel, hmine⟩ := asksLikes_clears h hask
    rw [if_pos hask] at hnote
    refine ⟨{ model := ?_, unread := ?_, likes := ?_ }, .inl huId, by rw [hnote],
      fun u _ key v post hq => ?_⟩
    · rw [hmodel, hnote]
      exact hp.model
    · rw [hmodel, hnote]
      exact hp.unread
    · rw [hmine]
      exact fun key b hb => absurd hb (by simp)
    · rw [hnote] at hq
      exact absurd hq (by simp)
  | false =>
    rw [if_neg (by simp [hask])] at hnote
    have hkeep : ∀ u, p.2.LikesFor u → p'.2.LikesFor u := fun u hlikes => by rwa [hnote]
    cases step_session h he with
    | same uId model myLikes =>
      refine ⟨{ model := ?_, unread := ?_, likes := ?_ }, .inl uId, by rw [hnote], hkeep⟩
      · rw [model, hnote]
        exact hp.model
      · rw [model, hnote]
        exact hp.unread
      · rw [myLikes, hnote]
        exact hp.likes
    | cleared uId model myLikes =>
      refine ⟨{ model := ?_, unread := ?_, likes := ?_ }, .inl uId, by rw [hnote], hkeep⟩
      · rw [model, hnote]
        exact hp.model
      · rw [model, hnote]
        exact hp.unread
      · rw [myLikes]
        exact fun key b hb => absurd hb (by simp)
    | logout uId model myLikes =>
      refine ⟨{ model := ?_, unread := ?_, likes := ?_ }, .inr uId, by rw [hnote], hkeep⟩
      · rw [model, hnote]
        exact hp.model
      · rw [model, hnote]
        exact hp.unread
      · rw [myLikes, hnote]
        exact hp.likes
    | liked write likes =>
      rw [honest _ write] at likes
      exact absurd likes (by simp)

/-! ## Runs -/

/-- The screens of a run show the user's own as long as nothing that has arrived is
another user's. -/
def OwnArrived (p : Home × Arrivals) : Prop :=
  ∀ u, p.1.uId = some u → p.2.profile ≠ none → p.2.LikesFor u

theorem step_modelOwn_iff {likers : String → List String} {p p' : Home × Arrivals} {e : Event}
    {o : List Effect} (hp : Account likers p) (hown : ModelOwn p.1)
    (h : arriving.step p e = some (p', o)) (honest : Honest likers p.1 e) :
    Account likers p' ∧ (ModelOwn p'.1 ↔ AskedByUser p e) := by
  obtain ⟨h, hnote⟩ := Reactive.Machine.step_withHistory.mp h
  have hbefore := hp.modelOwn_iff.mp hown
  cases he : e.brings with
  | true =>
    cases e with
    | login u =>
      obtain ⟨hp', hrecord, huId⟩ := login_account hp h hnote
      refine ⟨hp', ?_⟩
      rw [hp'.modelOwn_iff, hrecord, huId]
      exact ⟨fun hall r hr => hall u r rfl hr,
        fun hcond v r hv hr => Option.some.inj hv ▸ hcond r hr⟩
    | userData k data =>
      obtain ⟨hp', huId, r, hk, hrecord⟩ := userData_account hp h hnote honest
      refine ⟨hp', ?_⟩
      rw [hp'.modelOwn_iff, hrecord, huId]
      by_cases hnone : LoginModel.fromJson data = none
      · rw [if_pos hnone]
        exact iff_of_true hbefore fun _ _ _ _ hdata => absurd hnone hdata
      · rw [if_neg hnone]
        constructor
        · intro hall u r' hu hk' _
          obtain rfl := Pending.getUserData.inj (Option.some.inj (hk.symm.trans hk'))
          exact hall u r hu rfl
        · intro hcond u r' hu hr
          rw [← Option.some.inj hr]
          exact hcond u r hu hk hnone
    | likes k docs =>
      obtain ⟨hp', huId, hprofile, -⟩ := likes_account hp h hnote honest
      refine ⟨hp', ?_⟩
      rw [hp'.modelOwn_iff, hprofile, huId]
      exact iff_of_true hbefore trivial
    | _ => exact absurd he (by simp [Event.brings])
  | false =>
    obtain ⟨hp', huId, hprofile, -⟩ := other_account hp h hnote he honest
    refine ⟨hp', iff_of_true ?_ ?_⟩
    · rw [hp'.modelOwn_iff, hprofile]
      rcases huId with huId | huId
      · rw [huId]
        exact hbefore
      · rw [huId]
        exact fun u _ hu => absurd hu (by simp)
    · cases e with
      | login u => exact absurd he (by simp [Event.brings])
      | userData k data => exact absurd he (by simp [Event.brings])
      | _ => trivial

theorem step_ownArrived {likers : String → List String} {p p' : Home × Arrivals} {e : Event}
    {o : List Effect} (hp : Account likers p) (hs : OwnArrived p)
    (h : arriving.step p e = some (p', o)) (honest : Honest likers p.1 e)
    (hliked : LikedByUser p e) : OwnArrived p' := by
  obtain ⟨h, hnote⟩ := Reactive.Machine.step_withHistory.mp h
  intro u hu hprofile
  cases he : e.brings with
  | true =>
    cases e with
    | login v =>
      obtain ⟨-, hrecord, huId⟩ := login_account hp h hnote
      rw [hrecord] at hprofile ⊢
      rw [← Option.some.inj (huId.symm.trans hu)]
      exact hliked hprofile
    | userData k data =>
      obtain ⟨-, huId, r, hk, hrecord⟩ := userData_account hp h hnote honest
      rw [huId] at hu
      by_cases hnone : LoginModel.fromJson data = none
      · rw [hrecord, if_pos hnone] at hprofile ⊢
        exact hs u hu hprofile
      · rw [hrecord, if_neg hnone]
        exact hliked u hu hnone
    | likes k docs =>
      obtain ⟨-, huId, hprofile', hkeep⟩ := likes_account hp h hnote honest
      rw [huId] at hu
      rw [hprofile'] at hprofile
      exact hkeep u hu (hs u hu hprofile) (hliked (by simp [hu]) hprofile)
    | _ => exact absurd he (by simp [Event.brings])
  | false =>
    obtain ⟨-, huId, hprofile', hkeep⟩ := other_account hp h hnote he honest
    rw [hprofile'] at hprofile
    rcases huId with huId | huId
    · exact hkeep u (hs u (huId ▸ hu) hprofile)
    · exact absurd (huId.symm.trans hu) (by simp)

/-- Along a run in which no like completes: the profile that SocialLayout shows is that of
the user who is logged in exactly when each user logs in after no other profile than his
own and no profile arrives that he has not asked for; and the likes are his as well when
they have arrived for him and for their own posts. -/
theorem shown_own (likers : String → List String) (u : Option String) (es : List Event)
    (honest : machine.Every (fun s e _ _ => Honest likers s e) (init u) es) :
    (machine.Every (fun _ _ s' _ => ModelOwn s') (init u) es ↔
      arriving.Every (fun p e _ _ => AskedByUser p e) (init u, Arrivals.start) es) ∧
    (arriving.Every (fun p e _ _ => KeptApart p e) (init u, Arrivals.start) es →
      machine.Every (fun _ _ s' _ => ShownOwn likers s') (init u) es) := by
  have hinit := start_account likers u
  have hmodel : ModelOwn (init u) := fun v m _ hm => absurd hm (by simp [init])
  have harrived : OwnArrived (init u, Arrivals.start) := fun v _ hr => absurd rfl hr
  have honest' := (Reactive.Machine.every_withHistory_iff Arrivals.note Arrivals.start).mpr honest
  constructor
  · rw [← Reactive.Machine.every_withHistory_iff Arrivals.note Arrivals.start]
    refine Reactive.Machine.every_iff_of (I := fun p => Account likers p ∧ ModelOwn p.1)
      ?_ ⟨hinit, hmodel⟩ honest'
    intro p e p' o hinv h hh
    obtain ⟨hp, hown⟩ := hinv
    obtain ⟨hp', hiff⟩ := step_modelOwn_iff hp hown h hh
    exact ⟨hiff, fun hown' => ⟨hp', hown'⟩⟩
  · intro hkept
    rw [← Reactive.Machine.every_withHistory_iff Arrivals.note Arrivals.start]
    refine (Reactive.Machine.every_iff_of (M := arriving)
      (I := fun p => Account likers p ∧ ModelOwn p.1 ∧ OwnArrived p)
      (H := fun p e _ _ => Honest likers p.1 e ∧ KeptApart p e) (R := fun _ _ _ _ => True)
      ?_ ⟨hinit, hmodel, harrived⟩ (honest'.and hkept)).mpr
      (Reactive.Machine.every_of_forall (G := fun _ => True) (fun _ _ _ _ _ => trivial)
        (fun _ _ => trivial) _)
    intro p e p' o hinv h hcond
    obtain ⟨hp, hown, hlikes⟩ := hinv
    obtain ⟨hh, hasked, hliked⟩ := hcond
    obtain ⟨hp', hiff⟩ := step_modelOwn_iff hp hown h hh
    have hown' := hiff.mpr hasked
    have hlikes' := step_ownArrived hp hlikes h hh hliked
    refine ⟨iff_of_true (fun u m hu hm => ⟨hown' u m hu hm, ?_⟩) trivial,
      fun _ => ⟨hp', hown', hlikes'⟩⟩
    obtain ⟨v, hv, -⟩ := hp'.model m hm
    exact hp'.myLikesOf (hlikes' u hu (by simp [hv]))

/-- bob's profile cannot be read and he logs out.  ann logs in, her feed is loaded with the
post that she likes, she logs out and logs in again. -/
def twoSessions : List Event :=
  [.login "bob", .userData 0 none, .logout] ++ loadTwoPosts ++
    [.comments 0 [], .comments 0 [], .likes 0 ["ann"], .likes 0 [], .logout, .login "ann"]

def likersOfTwo (post : String) : List String := if post = "2022-01-02" then ["ann"] else []

/-- ann logs in, her profile is loaded, and she logs out. -/
def sessionOfAnn : List Event :=
  [.login "ann", .userData 0 (some (userOf "ann").toMap), .logout]

theorem userOf_honest {likers : String → List String} {s : Home} {k : Nat} {u : String}
    (hk : s.inFlight[k]? = some (.getUserData (some u))) :
    Honest likers s (.userData k (some (userOf u).toMap)) := by
  intro uid json hk' hdata
  obtain rfl := Pending.getUserData.inj (Option.some.inj (hk.symm.trans hk'))
  refine ⟨u, rfl, ?_⟩
  rw [← Option.some.inj hdata]
  rfl

theorem twoSessions_honest :
    machine.Every (fun s e _ _ => Honest likersOfTwo s e) (init none) twoSessions := by
  refine Reactive.Machine.every_cons rfl trivial ?_
  refine Reactive.Machine.every_cons rfl (fun _ _ _ hdata => absurd hdata (by simp)) ?_
  refine Reactive.Machine.every_cons rfl trivial (Reactive.Machine.every_cons rfl trivial ?_)
  refine Reactive.Machine.every_cons rfl trivial ?_
  refine Reactive.Machine.every_cons rfl (userOf_honest rfl) ?_
  refine Reactive.Machine.every_cons rfl trivial (Reactive.Machine.every_cons rfl trivial ?_)
  refine Reactive.Machine.every_cons rfl trivial (Reactive.Machine.every_cons rfl trivial ?_)
  refine Reactive.Machine.every_cons rfl ?_ (Reactive.Machine.every_cons rfl ?_ ?_)
  · intro i post hk u
    obtain ⟨-, rfl⟩ := Pending.getLikes.inj (Option.some.inj hk)
    exact Iff.rfl
  · intro i post hk u
    obtain ⟨-, rfl⟩ := Pending.getLikes.inj (Option.some.inj hk)
    exact Iff.rfl
  · exact Reactive.Machine.every_cons rfl trivial (Reactive.Machine.every_cons rfl trivial trivial)

theorem shown_own_twoSessions :
    ∃ s o, machine.run (init none) twoSessions = some (s, o) ∧ s.uId = some "ann" ∧
      s.myLikes "2022-01-02" = some true ∧ s.myLikes "2022-01-01" = some false ∧
      machine.Every (fun _ _ s' _ => ShownOwn likersOfTwo s') (init none) twoSessions := by
  refine ⟨_, _, rfl, rfl, rfl, rfl,
    (shown_own likersOfTwo none twoSessions twoSessions_honest).2 ?_⟩
  have hnone : ∀ {α : Type} {a : α} {C : Prop}, none = some a → C := fun h =>
    absurd h (Option.some_ne_none _).symm
  have hplain : ∀ {h : Arrivals} {s : Home} {e : Event}, e.brings = false →
      KeptApart (s, h) e := by
    intro h s e he
    cases e with
    | login u => exact absurd he (by simp [Event.brings])
    | userData k data => exact absurd he (by simp [Event.brings])
    | likes k docs => exact absurd he (by simp [Event.brings])
    | _ => exact ⟨trivial, trivial⟩
  refine Reactive.Machine.every_cons rfl ⟨fun _ hr => hnone hr, fun h => absurd rfl h⟩ ?_
  refine Reactive.Machine.every_cons rfl ⟨fun _ _ _ _ h => absurd rfl h,
    fun _ _ h => absurd rfl h⟩ ?_
  refine Reactive.Machine.every_cons rfl (hplain rfl) ?_
  refine Reactive.Machine.every_cons rfl ⟨fun _ hr => hnone hr, fun h => absurd rfl h⟩ ?_
  refine Reactive.Machine.every_cons rfl (hplain rfl) ?_
  refine Reactive.Machine.every_cons rfl ⟨fun u r hu hk _ => ?_, fun _ _ _ key v post hq => ?_⟩ ?_
  · rw [← Pending.getUserData.inj (Option.some.inj hk)]
    exact hu
  · exact hnone hq
  refine Reactive.Machine.every_cons rfl (hplain rfl) ?_
  refine Reactive.Machine.every_cons rfl (hplain rfl) ?_
  refine Reactive.Machine.every_cons rfl (hplain rfl) ?_
  refine Reactive.Machine.every_cons rfl (hplain rfl) ?_
  refine Reactive.Machine.every_cons rfl ⟨trivial, fun _ _ i post key hk hkey => ?_⟩ ?_
  · obtain ⟨rfl, rfl⟩ := Pending.getLikes.inj (Option.some.inj hk)
    exact Option.some.inj hkey
  refine Reactive.Machine.every_cons rfl ⟨trivial, fun _ _ i post key hk hkey => ?_⟩ ?_
  · obtain ⟨rfl, rfl⟩ := Pending.getLikes.inj (Option.some.inj hk)
    exact Option.some.inj hkey
  refine Reactive.Machine.every_cons rfl (hplain rfl) ?_
  refine Reactive.Machine.every_cons rfl ⟨fun r hr => ?_, fun _ key v post hq => ?_⟩ trivial
  · exact (Option.some.inj hr).symm
  · have hq : Function.update (Function.update (fun _ => none) "2022-01-02"
        (some (some "ann", "2022-01-02"))) "2022-01-01" (some (some "ann", "2022-01-01")) key =
        some (v, post) := hq
    rcases eq_or_of_update hq with hold | ⟨rfl, hlast⟩
    · rcases eq_or_of_update hold with hfirst | ⟨rfl, hfirst⟩
      · exact hnone hfirst
      · obtain ⟨rfl, rfl⟩ := Prod.mk.inj hfirst
        exact ⟨rfl, rfl⟩
    · obtain ⟨rfl, rfl⟩ := Prod.mk.inj hlast
      exact ⟨rfl, rfl⟩

/-- bob logs in after ann has logged out, and is shown ann's profile as his own
before his own arrives. -/
theorem shown_of_last_session :
    machine.Every (fun s e _ _ => Honest (fun _ => []) s e) (init none)
        (sessionOfAnn ++ [.login "bob"]) ∧
      ¬ machine.Every (fun _ _ s' _ => ShownOwn (fun _ => []) s') (init none)
        (sessionOfAnn ++ [.login "bob"]) := by
  constructor
  · refine Reactive.Machine.every_cons rfl trivial (Reactive.Machine.every_cons rfl
      (userOf_honest rfl) ?_)
    exact Reactive.Machine.every_cons rfl trivial (Reactive.Machine.every_cons rfl trivial trivial)
  · intro h
    have hlast := Reactive.Machine.run_state_invariant (M := machine)
      (I := fun s => ShownOwn (fun _ => []) s) (fun _ _ _ _ _ _ hq => hq)
      (fun _ _ _ hm => absurd hm (by simp [init])) h rfl
    have hann := (hlast "bob" (userOf "ann") rfl rfl).1
    exact absurd hann (by decide)

end Home
end SocialApp
