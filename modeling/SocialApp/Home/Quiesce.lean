import SocialApp.Home.Rows
import SocialApp.Reactive.Quiesce

/-! # How much a load reads

The last author lookup of a snapshot asks for the comments of every post listed then,
and an answer that finds its post at the end of the list asks for the likes of all of
them.  Each callback in flight is weighed by the answers it can still lead to.  The list
only grows while no snapshot comes and no post is deleted, so an answer whose index is
already inside the list leads to nothing more. -/

namespace SocialApp
namespace Home

/-- The arrivals of something that was asked for. -/
def Event.awaited : Event → Bool
  | .userData _ _ => true
  | .author _ _ => true
  | .comments _ _ => true
  | .likes _ _ => true
  | .queryFailed _ => true
  | .applied _ => true
  | .settled _ _ => true
  | _ => false

/-- The arrivals that a callback can lead to, its own included, when `shown` posts are
listed and no more than `atMost` can be. -/
def weight (shown atMost : Nat) : Pending → Nat
  | .getUserData _ => 1
  | .author _ event i _ => if i + 1 = event.docs.length then 1 + 2 * atMost else 1
  | .getComments i _ => if shown ≤ i + 1 ∧ i + 1 ≤ atMost then i + 2 else 1
  | .getLikes _ _ => 1
  | .write _ applied => if applied then 1 else 2

/-- The posts that can come to be listed before the next snapshot. -/
def atMost (s : Home) : Nat := s.postId.length + s.authors.length

/-- The arrivals that are still to come before the next call or snapshot. -/
def work (s : Home) : Nat :=
  Reactive.total (weight s.postId.length s.atMost) s.inFlight

/-- A list that is longer, or that less can be added to, makes no callback heavier. -/
theorem weight_mono {shown shown' atMost atMost' : Nat} (hshown : shown ≤ shown')
    (hmost : atMost' ≤ atMost) (p : Pending) : weight shown' atMost' p ≤ weight shown atMost p := by
  cases p with
  | author n event i uid =>
    simp only [weight]
    split <;> omega
  | getComments i post =>
    simp only [weight]
    split
    · exact Nat.le_of_eq (if_pos (by omega)).symm
    · split <;> omega
  | _ => exact Nat.le_refl _

theorem weight_pos (shown atMost : Nat) (p : Pending) : 0 < weight shown atMost p := by
  cases p with
  | author n event i uid => simp only [weight]; split <;> omega
  | getComments i post => simp only [weight]; split <;> omega
  | write w applied => cases applied <;> exact Nat.succ_pos _
  | _ => exact Nat.one_pos

/-- A batch of comment queries: the one for the end of the list weighs as much as the
rest together. -/
theorem total_getComments (ids : List String) (atMost : Nat) :
    Reactive.total (weight ids.length atMost) (ids.mapIdx .getComments) ≤ 2 * ids.length := by
  rcases List.eq_nil_or_concat ids with rfl | ⟨init, last, rfl⟩
  · exact Nat.le_refl 0
  rw [List.concat_eq_append, List.mapIdx_append, Reactive.total_append]
  have hinit : Reactive.total (weight (init ++ [last]).length atMost)
      (init.mapIdx .getComments) = init.length := by
    rw [Reactive.total_of_one, List.length_mapIdx]
    intro p hp
    obtain ⟨i, hi, rfl⟩ := List.mem_mapIdx.mp hp
    rw [List.length_append, List.length_singleton]
    exact if_neg (by omega)
  have hlast : weight (init ++ [last]).length atMost (.getComments init.length last) ≤
      init.length + 2 := by
    simp only [weight]
    split <;> omega
  rw [hinit]
  simp only [Reactive.total, List.mapIdx_cons, List.mapIdx_nil, Nat.zero_add, List.length_append,
    List.length_singleton] at hlast ⊢
  omega

theorem total_getLikes (ids : List String) (shown atMost : Nat) :
    Reactive.total (weight shown atMost) (ids.mapIdx .getLikes) = ids.length := by
  rw [Reactive.total_of_one, List.length_mapIdx]
  intro p hp
  obtain ⟨i, hi, rfl⟩ := List.mem_mapIdx.mp hp
  rfl

/-! ## One arrival -/

/-- A callback that runs and leaves the list alone. -/
theorem work_landed {s t : Home} {k : Nat} {p : Pending} (hk : s.inFlight[k]? = some p)
    (hp : authorOf p = none) (postId : t.postId = s.postId)
    (inFlight : t.inFlight = s.inFlight.eraseIdx k) :
    work s = weight s.postId.length s.atMost p + work t := by
  have hauthors : t.authors = s.authors := by
    rw [authors, inFlight]
    exact authors_landed hk hp
  rw [work, Reactive.total_eraseIdx _ hk, work, atMost, atMost, postId, hauthors, inFlight]

theorem authors_of_landed {s : Home} {k n i : Nat} {event : QuerySnapshot} {uid : Option String}
    (hk : s.inFlight[k]? = some (.author n event i uid)) :
    s.authors.length = (s.landed k).authors.length + 1 := by
  have hperm : ((n, event, i, uid) :: (s.landed k).authors).Perm s.authors :=
    Reactive.filterMap_eraseIdx_some hk rfl
  exact hperm.length_eq.symm

/-- An author lookup that adds no row. -/
theorem work_lookupFailed {s : Home} {k n i : Nat} {event : QuerySnapshot} {uid : Option String}
    (hk : s.inFlight[k]? = some (.author n event i uid)) : work (s.landed k) < work s := by
  have hauthors : (s.landed k).authors.length ≤ s.authors.length :=
    Nat.le_of_succ_le (Nat.le_of_eq (authors_of_landed hk).symm)
  have hrest := Reactive.total_mono
    (@weight_mono s.postId.length s.postId.length s.atMost (s.landed k).atMost (Nat.le_refl _)
      (Nat.add_le_add_left hauthors _)) (s.inFlight.eraseIdx k)
  have hone := weight_pos s.postId.length s.atMost (.author n event i uid)
  rw [work, work, Reactive.total_eraseIdx _ hk]
  exact Nat.lt_of_le_of_lt hrest (Nat.lt_add_of_pos_left hone)

/-- An author lookup that adds a row. -/
theorem work_lookedUp {s : Home} {k n i : Nat} {event : QuerySnapshot} {uid : Option String}
    {doc : QueryDoc} {v : LoginModel} (hk : s.inFlight[k]? = some (.author n event i uid)) :
    work ((s.landed k).addRow doc v) < work s ∧
      (i + 1 = event.docs.length → work ((s.landed k).addRow doc v).getComments.1 < work s) := by
  have hauthors := authors_of_landed hk
  -- one post more is listed, and one lookup less is in flight
  have hmost : s.atMost = s.postId.length + 1 + (s.landed k).authors.length := by
    rw [atMost, hauthors]
    omega
  have hlength : ((s.landed k).addRow doc v).postId.length = s.postId.length + 1 :=
    List.length_append
  have hrow : ((s.landed k).addRow doc v).atMost = s.atMost := by
    rw [hmost, atMost, hlength]
    rfl
  have hrest := Reactive.total_mono
    (@weight_mono s.postId.length (s.postId.length + 1) s.atMost s.atMost (Nat.le_succ _)
      (Nat.le_refl _)) (s.inFlight.eraseIdx k)
  have hwork : work s = weight s.postId.length s.atMost (.author n event i uid) +
      Reactive.total (weight s.postId.length s.atMost) (s.inFlight.eraseIdx k) :=
    Reactive.total_eraseIdx _ hk
  refine ⟨?_, fun hlast => ?_⟩
  · have hone := weight_pos s.postId.length s.atMost (.author n event i uid)
    rw [hwork, work, hrow, hlength]
    exact Nat.lt_of_le_of_lt hrest (Nat.lt_add_of_pos_left hone)
  · have hkeep := getComments_keepsRows ((s.landed k).addRow doc v)
    have hsame : ((s.landed k).addRow doc v).getComments.1.atMost = s.atMost := by
      rw [← hrow, atMost, hkeep.postId, hkeep.authors, atMost]
    have hbatch := total_getComments ((s.landed k).addRow doc v).postId s.atMost
    rw [hlength] at hbatch
    have hweight : weight s.postId.length s.atMost (.author n event i uid) = 1 + 2 * s.atMost :=
      if_pos hlast
    have hinFlight : ((s.landed k).addRow doc v).getComments.1.inFlight =
        s.inFlight.eraseIdx k ++ ((s.landed k).addRow doc v).postId.mapIdx .getComments := rfl
    rw [hwork, hweight, work, hsame, hkeep.postId, hlength, hinFlight, Reactive.total_append]
    omega

/-- An answer to a comment query. -/
theorem work_comments {s : Home} {k i : Nat} {post : String}
    (hk : s.inFlight[k]? = some (.getComments i post)) (docs : List String) :
    work ((s.landed k).getCommentsThen i post docs).1 < work s := by
  have hone := weight_pos s.postId.length s.atMost (.getComments i post)
  rcases getCommentsThen_cases (s.landed k) i post docs with
    ⟨_, hr⟩ | ⟨key, _, ⟨_, hr⟩ | ⟨hlast, hr⟩⟩
  · have hwork := @work_landed s (s.landed k) k _ hk rfl rfl rfl
    rw [hr]
    show work (s.landed k) < work s
    omega
  · have hwork := @work_landed s ((s.landed k).storeComments key docs.length) k _ hk rfl rfl rfl
    rw [hr]
    show work ((s.landed k).storeComments key docs.length) < work s
    omega
  · have hwork := @work_landed s ((s.landed k).storeComments key docs.length) k _ hk rfl rfl rfl
    rw [hr]
    have hkeep := getLikes_keepsRows ((s.landed k).storeComments key docs.length)
    have hlast : i + 1 = s.postId.length := hlast
    -- the likes of all the posts are asked for, and the weight of the query was for them
    have hweight : weight s.postId.length s.atMost (.getComments i post) = i + 2 :=
      if_pos ⟨Nat.le_of_eq hlast.symm, hlast ▸ Nat.le_add_right _ _⟩
    have hmost : ((s.landed k).storeComments key docs.length).getLikes.1.atMost =
        ((s.landed k).storeComments key docs.length).atMost := by
      rw [atMost, hkeep.postId, hkeep.authors, atMost]
    have hinFlight : ((s.landed k).storeComments key docs.length).getLikes.1.inFlight =
        ((s.landed k).storeComments key docs.length).inFlight ++ s.postId.mapIdx .getLikes := rfl
    have hdone : work ((s.landed k).storeComments key docs.length).getLikes.1 =
        work ((s.landed k).storeComments key docs.length) + s.postId.length := by
      rw [work, hmost, hkeep.postId, hinFlight, Reactive.total_append, total_getLikes, work]
    rw [hweight] at hwork
    show work ((s.landed k).storeComments key docs.length).getLikes.1 < work s
    omega

/-- Each arrival takes at least one off the work that is left. -/
theorem step_work {s s' : Home} {e : Event} {o : List Effect} (he : e.awaited = true)
    (h : step s e = some (s', o)) : work s' < work s := by
  have hless : ∀ {k : Nat} {p : Pending} {t : Home}, s.inFlight[k]? = some p →
      authorOf p = none → t.postId = s.postId → t.inFlight = s.inFlight.eraseIdx k →
      work t < work s := by
    intro k p t hk hp postId inFlight
    rw [work_landed hk hp postId inFlight]
    exact Nat.lt_add_of_pos_left (weight_pos _ _ p)
  cases e with
  | userData k data =>
    obtain ⟨uid, hk, h⟩ := step_userData h
    rcases getUserDataThen_cases (s.landed k) data with ⟨_, hr⟩ | ⟨m, _, hr⟩
    · obtain ⟨rfl, -⟩ := Prod.mk.inj (hr.symm.trans h)
      exact hless hk rfl rfl rfl
    · obtain ⟨rfl, -⟩ := Prod.mk.inj (hr.symm.trans h)
      exact hless hk rfl rfl rfl
  | author k data =>
    obtain ⟨n, event, i, uid, hk, h⟩ := step_author h
    rcases authorThen_cases (s.landed k) n event i (getUidUserNameAndImage data) with
      ⟨_, hr⟩ | ⟨doc, v, _, _, ⟨_, hr⟩ | ⟨hlast, hr⟩⟩
    · obtain ⟨rfl, -⟩ := Prod.mk.inj (hr.symm.trans h)
      exact work_lookupFailed hk
    · obtain ⟨rfl, -⟩ := Prod.mk.inj (hr.symm.trans h)
      exact (work_lookedUp hk).1
    · obtain ⟨rfl, -⟩ := Prod.mk.inj (hr.symm.trans h)
      exact (work_lookedUp hk).2 hlast
  | comments k docs =>
    obtain ⟨i, post, hk, h⟩ := step_comments h
    have hless := work_comments hk docs
    rwa [h] at hless
  | likes k docs =>
    obtain ⟨i, post, hk, h⟩ := step_likes h
    rcases getLikesThen_cases (s.landed k) i post docs with ⟨_, hr⟩ | ⟨key, o', _, hr, _⟩
    · obtain ⟨rfl, -⟩ := Prod.mk.inj (hr.symm.trans h)
      exact hless hk rfl rfl rfl
    · obtain ⟨rfl, -⟩ := Prod.mk.inj (hr.symm.trans h)
      exact hless hk rfl rfl rfl
  | queryFailed k =>
    obtain ⟨⟨i, post, hk⟩, rfl, -⟩ := step_queryFailed h
    rcases hk with hk | hk
    · exact hless hk rfl rfl rfl
    · exact hless hk rfl rfl rfl
  | applied k =>
    obtain ⟨w, hk, rfl, -⟩ := step_applied h
    have hauthors := Reactive.filterMap_set hk
      (show authorOf (.write w true) = authorOf (.write w false) from rfl)
    have hmost : ({ s with inFlight := s.inFlight.set k (.write w true) } : Home).atMost =
        s.atMost := by
      rw [atMost, atMost, authors, hauthors]
      rfl
    rw [work, work, hmost, Reactive.total_set _ hk, Reactive.total_eraseIdx _ hk]
    exact Nat.add_lt_add_right (Nat.lt_succ_self 1) _
  | settled k ok =>
    obtain ⟨w, hk, h⟩ := step_settled h
    have hkeep := writeThen_keepsRows (s.landed k) w ok
    have hinFlight : ((s.landed k).writeThen w ok).1.inFlight = s.inFlight.eraseIdx k := by
      cases w with
      | addComment post comment => rfl
      | deletePost post => rfl
      | setLike post uid => simp only [writeThen, likeThen]; split <;> rfl
      | deleteLike post uid => simp only [writeThen, unLikeThen]; split <;> rfl
    rw [h] at hkeep hinFlight
    exact hless hk rfl hkeep.postId hinFlight
  | _ => exact absurd he (by simp [Event.awaited])

/-- Whatever is in flight can arrive, at least as a failure. -/
theorem rests_iff (s : Home) :
    machine.Rests (fun e => e.awaited = true) s ↔ s.inFlight = [] := by
  constructor
  · intro hrests
    cases hps : s.inFlight with
    | nil => rfl
    | cons p ps =>
      have hk : s.inFlight[0]? = some p := by rw [hps]; rfl
      have hmove : ∃ e, Event.awaited e = true ∧ (step s e).isSome = true := by
        cases p with
        | getUserData uid => exact ⟨.userData 0 none, rfl, by simp only [step, hk]; rfl⟩
        | author n event i uid => exact ⟨.author 0 none, rfl, by simp only [step, hk]; rfl⟩
        | getComments i post => exact ⟨.queryFailed 0, rfl, by simp only [step, hk]; rfl⟩
        | getLikes i post => exact ⟨.queryFailed 0, rfl, by simp only [step, hk]; rfl⟩
        | write w applied =>
          exact ⟨.settled 0 applied, rfl, by simp only [step, hk, if_true]; rfl⟩
      obtain ⟨e, he, hsome⟩ := hmove
      have hnone : step s e = none := hrests e he
      rw [hnone] at hsome
      exact absurd hsome (by simp)
  · intro hnil e he
    show step s e = none
    cases e with
    | userData k data => simp only [step, hnil, List.getElem?_nil]
    | author k data => simp only [step, hnil, List.getElem?_nil]
    | comments k docs => simp only [step, hnil, List.getElem?_nil]
    | likes k docs => simp only [step, hnil, List.getElem?_nil]
    | queryFailed k => simp only [step, hnil, List.getElem?_nil]
    | applied k => simp only [step, hnil, List.getElem?_nil]
    | settled k ok => simp only [step, hnil, List.getElem?_nil]
    | _ => exact absurd he (by simp [Event.awaited])

/-- What the cubit has started always ends.  Between two calls or snapshots no more
arrives than `work` says, whatever the answers are, and nothing is in flight in the end. -/
theorem comes_to_rest (s : Home) :
    (∀ es s' o, (∀ e ∈ es, Event.awaited e = true) → machine.run s es = some (s', o) →
        es.length + work s' ≤ work s) ∧
      ∃ es s' o, (∀ e ∈ es, Event.awaited e = true) ∧ machine.run s es = some (s', o) ∧
        s'.inFlight = [] := by
  have hstep : ∀ s e s' o, Event.awaited e = true → machine.step s e = some (s', o) →
      work s' < work s := fun _ _ _ _ he h => step_work he h
  refine ⟨fun es s' o hes hrun => Reactive.Machine.run_length_le hstep hes hrun, ?_⟩
  obtain ⟨es, s', o, hes, hrun, hrests⟩ := Reactive.Machine.exists_run_rests hstep s
  exact ⟨es, s', o, hes, hrun, (rests_iff s').mp hrests⟩

/-! ## Listeners -/

/-- The listeners that an event adds: a new SocialLayout calls `getPosts`, and so does a
refresh. -/
def Event.listeners : Event → Nat
  | .login _ => 1
  | .getPosts => 1
  | _ => 0

theorem deletePost_subscriptions (s : Home) (index : Int) (postid : String) :
    (s.deletePost index postid).1.subscriptions = s.subscriptions := by
  rcases deletePost_cases s index postid with ⟨-, h⟩ | ⟨posts, -, ⟨-, h⟩ | ⟨postId, -, h⟩⟩
  · rw [h]
  · rw [h]
  · rw [h]
    rfl

theorem authorThen_subscriptions (s : Home) (n : Nat) (event : QuerySnapshot) (i : Nat)
    (value : Option LoginModel) :
    (s.authorThen n event i value).1.subscriptions = s.subscriptions := by
  rcases authorThen_cases s n event i value with
    ⟨-, h⟩ | ⟨doc, v, -, -, ⟨-, h⟩ | ⟨-, h⟩⟩
  · rw [h]
  · rw [h]
    rfl
  · rw [h]
    rfl

theorem writeThen_subscriptions (s : Home) (w : Write) (ok : Bool) :
    (s.writeThen w ok).1.subscriptions = s.subscriptions := by
  cases w with
  | addComment post comment => rfl
  | deletePost post => rfl
  | setLike post uid =>
    simp only [writeThen, likeThen]
    split
    · rfl
    · rfl
  | deleteLike post uid =>
    simp only [writeThen, unLikeThen]
    split
    · rfl
    · rfl

/-- A call of `getPosts` adds a listener, and nothing takes one away. -/
theorem step_subscriptions {s s' : Home} {e : Event} {o : List Effect}
    (h : s.step e = some (s', o)) : s'.subscriptions = s.subscriptions + e.listeners := by
  have hof : ∀ {r : Home × List Effect}, r = (s', o) → r.1.subscriptions = s.subscriptions →
      s'.subscriptions = s.subscriptions := by
    intro r hr hsame
    rw [hr] at hsame
    exact hsame
  cases e with
  | login uid =>
    rw [← (Prod.mk.inj (Option.some.inj h)).1]
    rfl
  | logout => exact hof (Option.some.inj h) rfl
  | getUserData => exact hof (Option.some.inj h) rfl
  | getPosts =>
    rw [← (Prod.mk.inj (Option.some.inj h)).1]
    rfl
  | getComments => exact hof (Option.some.inj h) rfl
  | getLikes => exact hof (Option.some.inj h) rfl
  | deletePost index postid =>
    exact hof (Option.some.inj h) (deletePost_subscriptions s index postid)
  | rowDelete index =>
    refine hof (Option.some.inj h) ?_
    rcases rowDelete_cases s index with ⟨x, -, hr⟩ | ⟨m, post, id, -, -, -, -, hr⟩
    · rw [hr]
    · rw [hr]
      exact deletePost_subscriptions s index id
  | rowLike index =>
    refine hof (Option.some.inj h) ?_
    rcases rowLike_cases s index with ⟨-, hr⟩ | ⟨id, -, ⟨-, hr⟩ | ⟨b, -, hr⟩⟩
    · rw [hr]
    · rw [hr]
    · rw [hr]
      rfl
  | rowComment index text now =>
    refine hof (Option.some.inj h) ?_
    rcases rowComment_cases s index text now with ⟨-, hr⟩ | ⟨-, ⟨-, hr⟩ | ⟨id, -, hr⟩⟩
    · rw [hr]
    · rw [hr]
    · rw [hr]
      rfl
  | snapshot event =>
    obtain ⟨-, hr⟩ := step_snapshot h
    exact hof hr rfl
  | userData k data =>
    obtain ⟨uid, -, hr⟩ := step_userData h
    refine hof hr ?_
    rcases getUserDataThen_cases (s.landed k) data with ⟨-, hr⟩ | ⟨m, -, hr⟩
    · rw [hr]
      rfl
    · rw [hr]
      rfl
  | author k data =>
    obtain ⟨n, event, i, uid, -, hr⟩ := step_author h
    exact hof hr (authorThen_subscriptions (s.landed k) n event i _)
  | comments k docs =>
    obtain ⟨i, post, -, hr⟩ := step_comments h
    refine hof hr ?_
    rcases getCommentsThen_cases (s.landed k) i post docs with
      ⟨-, hr⟩ | ⟨key, -, ⟨-, hr⟩ | ⟨-, hr⟩⟩
    · rw [hr]
      rfl
    · rw [hr]
      rfl
    · rw [hr]
      rfl
  | likes k docs =>
    obtain ⟨i, post, -, hr⟩ := step_likes h
    refine hof hr ?_
    rcases getLikesThen_cases (s.landed k) i post docs with ⟨-, hr⟩ | ⟨key, o, -, hr, -⟩
    · rw [hr]
      rfl
    · rw [hr]
      rfl
  | queryFailed k =>
    obtain ⟨-, hr, -⟩ := step_queryFailed h
    rw [hr]
    rfl
  | applied k =>
    obtain ⟨w, -, hr, -⟩ := step_applied h
    rw [hr]
    rfl
  | settled k ok =>
    obtain ⟨w, -, hr⟩ := step_settled h
    exact hof hr (writeThen_subscriptions (s.landed k) w ok)

/-- In any run there is a listener for each call of `getPosts`. -/
theorem run_subscriptions {s s' : Home} {es : List Event} {o : List Effect}
    (hrun : machine.run s es = some (s', o)) :
    s'.subscriptions = s.subscriptions + Reactive.total Event.listeners es := by
  induction es generalizing s o with
  | nil =>
    rw [Reactive.Machine.run_nil, Option.some.injEq, Prod.mk.injEq] at hrun
    rw [← hrun.1]
    rfl
  | cons e es ih =>
    obtain ⟨s₁, o₁, o₂, hstep, hrest, -⟩ := Reactive.Machine.run_cons.mp hrun
    rw [ih hrest, step_subscriptions hstep, Reactive.total, Nat.add_assoc]

/-! ## Loads that overlap -/

/-- The author lookups that a snapshot starts. -/
def lookupsOf (n : Nat) (event : QuerySnapshot) : List Pending :=
  (List.range event.docs.length).map fun i => .author n event i (uidAt event i)

theorem total_lookups (n : Nat) (event : QuerySnapshot) (shown atMost : Nat) :
    Reactive.total (weight shown atMost) (lookupsOf n event) ≤ event.docs.length + 2 * atMost := by
  unfold lookupsOf
  cases hlen : event.docs.length with
  | zero => exact Nat.zero_le _
  | succ m =>
    have hinit : Reactive.total (weight shown atMost)
        ((List.range m).map fun i => .author n event i (uidAt event i)) = m := by
      rw [Reactive.total_of_one, List.length_map, List.length_range]
      intro p hp
      obtain ⟨i, hi, rfl⟩ := List.mem_map.mp hp
      have := List.mem_range.mp hi
      exact if_neg (by omega)
    have hlast : weight shown atMost (.author n event m (uidAt event m)) = 1 + 2 * atMost :=
      if_pos hlen.symm
    rw [List.range_succ, List.map_append, Reactive.total_append, hinit]
    simp only [Reactive.total, List.map_cons, List.map_nil, hlast]
    omega

/-- The posts of some snapshots, counted in each. -/
def docsOf (events : List QuerySnapshot) : Nat :=
  Reactive.total (fun event => event.docs.length) events

theorem lookups_authors (n : Nat) (event : QuerySnapshot) :
    ((lookupsOf n event).filterMap authorOf).length = event.docs.length := by
  simp [lookupsOf, authorOf, List.filterMap_map, Function.comp_def]

/-- The lookups of snapshots that were delivered one after another, with the weight that
they have together. -/
theorem snapshots_lookups {events : List QuerySnapshot} {s s' : Home} {o : List Effect}
    (hrun : machine.run s (events.map .snapshot) = some (s', o)) :
    ∃ ps, s'.inFlight = s.inFlight ++ ps ∧ (ps.filterMap authorOf).length = docsOf events ∧
      (events ≠ [] → s'.postId = []) ∧
      ∀ shown atMost, Reactive.total (weight shown atMost) ps ≤
        docsOf events + 2 * atMost * events.length := by
  induction events generalizing s o with
  | nil =>
    rw [List.map_nil, Reactive.Machine.run_nil, Option.some.injEq, Prod.mk.injEq] at hrun
    exact ⟨[], by rw [List.append_nil, hrun.1], rfl, fun h => absurd rfl h,
      fun _ _ => Nat.zero_le _⟩
  | cons event events ih =>
    obtain ⟨s₁, o₁, o₂, h₁, hrest, -⟩ := Reactive.Machine.run_cons.mp hrun
    obtain ⟨ps, hps, hauthors, hpostId, hweight⟩ := ih hrest
    have hfirst := (step_snapshot h₁).2
    simp only [onPosts, Prod.mk.injEq] at hfirst
    have hinFlight : s₁.inFlight = s.inFlight ++ lookupsOf (s.delivered + 1) event := by
      rw [← hfirst.1]
      rfl
    have hnil : s₁.postId = [] := by
      rw [← hfirst.1]
      rfl
    refine ⟨lookupsOf (s.delivered + 1) event ++ ps, ?_, ?_, fun _ => ?_, fun shown atMost => ?_⟩
    · rw [hps, hinFlight, List.append_assoc]
    · rw [List.filterMap_append, List.length_append, lookups_authors, hauthors]
      rfl
    · cases events with
      | nil =>
        rw [List.map_nil, Reactive.Machine.run_nil, Option.some.injEq, Prod.mk.injEq] at hrest
        rw [← hrest.1]
        exact hnil
      | cons event' events => exact hpostId (List.cons_ne_nil _ _)
    · have hone := total_lookups (s.delivered + 1) event shown atMost
      have hmore := hweight shown atMost
      rw [Reactive.total_append, List.length_cons, Nat.mul_succ]
      have hdocs : docsOf (event :: events) = event.docs.length + docsOf events := rfl
      omega

/-- Each listener delivers a change of the posts, so it is delivered as often as `getPosts`
has been called.  When that happens while nothing is in flight, each of the posts delivered
costs one read and two more for every delivery: three where there is one listener. -/
theorem loads_cost {events : List QuerySnapshot} {es : List Event} {s s' : Home}
    {o : List Effect} (hquiet : s.inFlight = []) (hes : ∀ e ∈ es, Event.awaited e = true)
    (hrun : machine.run s (events.map .snapshot ++ es) = some (s', o)) :
    es.length ≤ docsOf events * (1 + 2 * events.length) := by
  obtain ⟨s₁, o₁, o₂, hload, hrest, -⟩ := Reactive.Machine.run_append.mp hrun
  have hle := (comes_to_rest s₁).1 es s' o₂ hes hrest
  obtain ⟨ps, hps, hauthors, hpostId, hweight⟩ := snapshots_lookups hload
  rw [hquiet, List.nil_append] at hps
  have hmost : events ≠ [] → s₁.atMost = docsOf events := by
    intro hne
    rw [atMost, hpostId hne, authors, hps, hauthors, List.length_nil, Nat.zero_add]
  have hbound := hweight s₁.postId.length s₁.atMost
  rw [← hps] at hbound
  cases events with
  | nil =>
    have hnone : work s₁ ≤ 0 := hbound
    omega
  | cons event events =>
    rw [hmost (List.cons_ne_nil _ _)] at hbound
    have hwork : work s₁ ≤ docsOf (event :: events) +
        2 * docsOf (event :: events) * (event :: events).length := by
      rw [work, hmost (List.cons_ne_nil _ _)]
      exact hbound
    calc es.length ≤ work s₁ := by omega
      _ ≤ docsOf (event :: events) +
          2 * docsOf (event :: events) * (event :: events).length := hwork
      _ = docsOf (event :: events) * (1 + 2 * (event :: events).length) := by
        rw [Nat.mul_add, Nat.mul_one, Nat.mul_left_comm, Nat.mul_assoc]

/-- A load of two posts that reads all it can. -/
def arrivalsOfTwoPosts : List Event :=
  [.author 0 (some (userOf "bob").toMap), .author 0 (some (userOf "ann").toMap),
    .comments 0 [], .comments 0 ["first"], .likes 0 ["ann"], .likes 0 []]

def annListening : Home := { init (some "ann") with subscriptions := 1 }

theorem loads_cost_twoPosts :
    ∃ s' o, machine.run annListening ([twoPosts].map .snapshot ++ arrivalsOfTwoPosts) =
        some (s', o) ∧
      arrivalsOfTwoPosts.length ≤ docsOf [twoPosts] * (1 + 2 * [twoPosts].length) :=
  ⟨_, _, rfl, @loads_cost [twoPosts] arrivalsOfTwoPosts annListening _ _ rfl (by decide) rfl⟩

end Home
end SocialApp
