import SocialApp.Home.Feed
import SocialApp.Home.Requests

/-! # Loading the feed

A snapshot starts the author lookups, the lookup of the last index starts the
requests for the numbers of comments, and the answer for the last of these starts
the requests for the likes.  Each stage takes the arrival with the last index for
the end of the stage. -/

namespace SocialApp
namespace Home

open Reactive (Completion Fill)

/-- The indices of the lookups that succeeded, in the order they did. -/
def succeeded (o : List Effect) : List Nat :=
  (Fill.successes (lookups o)).map Completion.index

/-- The load has said that it is complete, and every post of `postId`, and nothing
else, has its number of comments and its likes; the home list is shown as soon as
`model` is there. -/
structure LoadDone (s : Home) (o : List Effect) : Prop where
  posts : .emit .getPostsSuccess ∈ o
  likes : .emit .getLikesSuccess ∈ o
  commentsKeys : ∀ p, s.comments p ≠ none ↔ p ∈ s.postId
  likesKeys : ∀ p, s.likes p ≠ none ↔ p ∈ s.postId
  myLikesKeys : ∀ p, s.myLikes p ≠ none ↔ p ∈ s.postId
  shown : s.posts ≠ [] ∧ (∃ p, s.comments p ≠ none) ∧ ∃ p, s.likes p ≠ none

/-! ## The effects of a load -/

theorem succeeded_append (o o' : List Effect) :
    succeeded (o ++ o') = succeeded o ++ succeeded o' := by
  simp [succeeded, lookups, Fill.successes]

theorem Silent.succeeded {o : List Effect} (h : Silent o) : succeeded o = [] := by
  rw [Home.succeeded, h.lookups]
  rfl

theorem succeeded_none (n i : Nat) {o : List Effect} (h : Silent o) :
    succeeded (.lookedUp n i none :: o) = [] := by
  rw [Home.succeeded, lookups_author n i none h]
  rfl

theorem succeeded_stored (field : Field) (key source : String) :
    succeeded [.stored field key source] = [] := rfl

theorem succeeded_some (n i : Nat) (x : PostModel × String) {o : List Effect} (h : Silent o) :
    succeeded (.lookedUp n i (some x) :: o) = [i] := by
  rw [Home.succeeded, lookups_author n i (some x) h]
  rfl

/-! ## Stages -/

/-- The lookup of the last index has not succeeded, and nothing was asked for. -/
structure Looking (event : QuerySnapshot) (s : Home) (o : List Effect) : Prop where
  last : event.docs.length - 1 ∉ succeeded o
  emits : .emit .getPostsSuccess ∉ o
  comments : ∀ i p, .getComments i p ∉ s.inFlight
  likes : ∀ i p, .getLikes i p ∉ s.inFlight

/-- The request for the comments of the last of `ids` is not answered. -/
structure Waiting (ids : List String) (s : Home) : Prop where
  last : ∃ p, .getComments (ids.length - 1) p ∈ s.inFlight
  likes : ∀ i p, .getLikes i p ∉ s.inFlight

/-- The likes of `ids` are asked for. -/
structure Asked (ids : List String) (s : Home) (o : List Effect) : Prop where
  likes : Covers ids s.likes .getLikes s.inFlight
  myLikes : Covers ids s.myLikes .getLikes s.inFlight
  last : (∃ p, .getLikes (ids.length - 1) p ∈ s.inFlight) ∨ .emit .getLikesSuccess ∈ o

/-- The lookup of the last index succeeded after those of `before` and asked for
the comments of the posts there at that moment, `ids`; the lookups of `later` have
added `rest`. -/
structure Counting (event : QuerySnapshot) (ids rest : List String) (before later : List Nat)
    (s : Home) (o : List Effect) : Prop where
  succeeded : succeeded o = before ++ (event.docs.length - 1) :: later
  postId : s.postId = ids ++ rest
  length : ids.length = before.length + 1
  emits : .emit .getPostsSuccess ∈ o
  ownComments : ∀ i p, .getComments i p ∈ s.inFlight → ids[i]? = some p
  ownLikes : ∀ i p, .getLikes i p ∈ s.inFlight → ids[i]? = some p
  comments : Covers ids s.comments .getComments s.inFlight
  liking : rest = [] → Waiting ids s ∨ Asked ids s o

/-- The account of a load while its answers arrive. -/
structure Loading (event : QuerySnapshot) (s : Home) (o : List Effect) : Prop where
  noLike : NoLike s
  authors : ∀ a ∈ s.authors, a.2.1 = event ∧ a.2.2.1 < event.docs.length
  once : ((s.authors.map fun a => a.2.2.1) ++ succeeded o).Nodup
  bound : ∀ i ∈ succeeded o, i < event.docs.length
  postId : s.postId.map some = (succeeded o).map fun i => (docAt event i).map QueryDoc.id
  posts : s.posts.length = s.postId.length
  stage : Looking event s o ∨
    ∃ ids rest before later, Counting event ids rest before later s o

/-- A step that keeps the rows leaves only the stage to be checked. -/
theorem Loading.of_keepsRows {event : QuerySnapshot} {s s' : Home} {o o' : List Effect}
    (hs : Loading event s o) (posts : s'.posts = s.posts) (postId : s'.postId = s.postId)
    (authors : s'.authors = s.authors) (silent : Silent o') (noLike : NoLike s')
    (stage : Looking event s' (o ++ o') ∨
      ∃ ids rest before later, Counting event ids rest before later s' (o ++ o')) :
    Loading event s' (o ++ o') := by
  have hsucc : succeeded (o ++ o') = succeeded o := by
    rw [succeeded_append, silent.succeeded, List.append_nil]
  exact { noLike
          authors := authors ▸ hs.authors
          once := by rw [authors, hsucc]; exact hs.once
          bound := hsucc ▸ hs.bound
          postId := by rw [postId, hsucc]; exact hs.postId
          posts := by rw [posts, postId]; exact hs.posts
          stage }

/-! ### A step beside the load -/

theorem Looking.beside {event : QuerySnapshot} {s s' : Home} {o o' : List Effect}
    (hs : Looking event s o) (hmaps : KeepsMaps s s') (hnone : Home.succeeded o' = [])
    (hemit : .emit .getPostsSuccess ∉ o') : Looking event s' (o ++ o') := by
  refine { last := ?_, emits := ?_, comments := ?_, likes := ?_ }
  · rw [succeeded_append, hnone, List.append_nil]
    exact hs.last
  · rw [List.mem_append]
    exact fun h => h.elim hs.emits hemit
  · intro i p
    rw [hmaps.requests _ rfl]
    exact hs.comments i p
  · intro i p
    rw [hmaps.requests _ rfl]
    exact hs.likes i p

/-- The posts that were asked for are still at their places. -/
theorem Counting.postId_at {event : QuerySnapshot} {ids rest : List String}
    {before later : List Nat} {s : Home} {o : List Effect}
    (hs : Counting event ids rest before later s o) {i : Nat} {post : String}
    (hat : ids[i]? = some post) : s.postId[i]? = some post := by
  have hlt := (List.getElem?_eq_some_iff.mp hat).1
  rw [hs.postId, List.getElem?_append_left hlt, hat]

theorem Counting.postId_length {event : QuerySnapshot} {ids rest : List String}
    {before later : List Nat} {s : Home} {o : List Effect}
    (hs : Counting event ids rest before later s o) :
    s.postId.length = ids.length + rest.length := by
  rw [hs.postId, List.length_append]

theorem Counting.beside {event : QuerySnapshot} {ids rest : List String}
    {before later : List Nat} {s s' : Home} {o o' : List Effect}
    (hs : Counting event ids rest before later s o) (hmaps : KeepsMaps s s')
    (hpostId : s'.postId = s.postId) (hnone : Home.succeeded o' = []) :
    Counting event ids rest before later s' (o ++ o') := by
  have hcomments : ∀ i p, .getComments i p ∈ s'.inFlight ↔ .getComments i p ∈ s.inFlight :=
    fun i p => hmaps.requests _ rfl
  have hlikes : ∀ i p, .getLikes i p ∈ s'.inFlight ↔ .getLikes i p ∈ s.inFlight :=
    fun i p => hmaps.requests _ rfl
  refine { succeeded := ?_, postId := hpostId.trans hs.postId, length := hs.length
           emits := List.mem_append_left _ hs.emits, ownComments := ?_, ownLikes := ?_
           comments := ?_, liking := ?_ }
  · rw [succeeded_append, hnone, List.append_nil]
    exact hs.succeeded
  · intro i p hp
    exact hs.ownComments i p ((hcomments i p).mp hp)
  · intro i p hp
    exact hs.ownLikes i p ((hlikes i p).mp hp)
  · rw [hmaps.comments]
    exact hs.comments.of_mem_iff hcomments
  · intro hrest
    rcases hs.liking hrest with hw | ha
    · obtain ⟨p, hp⟩ := hw.last
      refine Or.inl { last := ⟨p, (hcomments _ p).mpr hp⟩, likes := fun i q hq => ?_ }
      exact hw.likes i q ((hlikes i q).mp hq)
    · refine Or.inr { likes := hmaps.likes ▸ ha.likes.of_mem_iff hlikes
                      myLikes := hmaps.myLikes ▸ ha.myLikes.of_mem_iff hlikes
                      last := ?_ }
      rcases ha.last with ⟨p, hp⟩ | hemit
      · exact Or.inl ⟨p, (hlikes _ p).mpr hp⟩
      · exact Or.inr (List.mem_append_left _ hemit)

/-! ### A lookup ends -/

theorem Looking.addRow {event : QuerySnapshot} {s : Home} {o : List Effect} {doc : QueryDoc}
    {v : LoginModel} {n i : Nat} {x : PostModel × String} (hs : Looking event s o)
    (hi : i + 1 ≠ event.docs.length) (hlt : i < event.docs.length) :
    Looking event (s.addRow doc v) (o ++ [.lookedUp n i (some x)]) := by
  refine { last := ?_, emits := by simp [hs.emits], comments := hs.comments, likes := hs.likes }
  rw [succeeded_append, succeeded_some n i x (by simp [Silent]), List.mem_append,
    List.mem_singleton]
  intro h
  rcases h with h | h
  · exact hs.last h
  · omega

theorem Counting.addRow {event : QuerySnapshot} {ids rest : List String}
    {before later : List Nat} {s : Home} {o : List Effect} {doc : QueryDoc}
    {v : LoginModel} {n i : Nat} {x : PostModel × String}
    (hs : Counting event ids rest before later s o) :
    Counting event ids (rest ++ [doc.id]) before (later ++ [i]) (s.addRow doc v)
      (o ++ [.lookedUp n i (some x)]) := by
  refine { succeeded := ?_, postId := ?_, length := hs.length
           emits := List.mem_append_left _ hs.emits
           ownComments := hs.ownComments, ownLikes := hs.ownLikes
           comments := hs.comments, liking := fun h => absurd h (by simp) }
  · rw [succeeded_append, succeeded_some n i x (by simp [Silent]), hs.succeeded]
    simp
  · show s.postId ++ [doc.id] = _
    rw [hs.postId, List.append_assoc]

/-- The lookup of the last index asks for the comments of the posts there. -/
theorem Looking.ends {event : QuerySnapshot} {s : Home} {o : List Effect} {doc : QueryDoc}
    {v : LoginModel} {n i : Nat} {x : PostModel × String} (hs : Looking event s o)
    (hlast : i + 1 = event.docs.length) (hlen : s.postId.length = (Home.succeeded o).length) :
    Counting event (s.postId ++ [doc.id]) [] (Home.succeeded o) []
      (s.addRow doc v).getComments.1
      (o ++ [.lookedUp n i (some x), .emit .getPostsSuccess]) := by
  have hcomments : ∀ {i p}, .getComments i p ∈ s.inFlight ++
      (s.postId ++ [doc.id]).mapIdx Pending.getComments → (s.postId ++ [doc.id])[i]? = some p := by
    intro i p hp
    rcases List.mem_append.mp hp with hp | hp
    · exact absurd hp (hs.comments i p)
    · obtain ⟨j, hj, heq⟩ := List.mem_mapIdx.mp hp
      simp only [Pending.getComments.injEq] at heq
      rw [← heq.1, ← heq.2]
      exact List.getElem?_eq_getElem hj
  have hlikes : ∀ i p, .getLikes i p ∉ s.inFlight ++
      (s.postId ++ [doc.id]).mapIdx Pending.getComments := by
    intro i p hp
    rcases List.mem_append.mp hp with hp | hp
    · exact hs.likes i p hp
    · obtain ⟨j, hj, heq⟩ := List.mem_mapIdx.mp hp
      exact absurd heq (by simp)
  refine { succeeded := ?_, postId := (List.append_nil _).symm, length := ?_, emits := by simp
           ownComments := fun _ _ => hcomments
           ownLikes := fun i p hp => absurd hp (hlikes i p)
           comments := ?_, liking := fun _ => Or.inl ?_ }
  · have hi : i = event.docs.length - 1 := by omega
    rw [succeeded_append, succeeded_some n i x (by simp [Silent]), hi]
  · rw [List.length_append, hlen, List.length_singleton]
  · exact Covers.ask getComments_inj fun i p hp => absurd hp (hs.comments i p)
  · refine { last := ⟨doc.id, ?_⟩, likes := hlikes }
    refine List.mem_append_right _ (List.mem_mapIdx.mpr ⟨s.postId.length, ?_, ?_⟩)
    · simp [Home.addRow]
    · simp [Home.addRow]

/-- What the account says of a lookup in flight: it is of the snapshot, its index is
in range, and its index is neither that of another lookup nor among those that
succeeded. -/
structure Looked (event : QuerySnapshot) (i : Nat) (s : Home) (o : List Effect) : Prop where
  bound : i < event.docs.length
  authors : ∀ a ∈ s.authors, a.2.1 = event ∧ a.2.2.1 < event.docs.length
  once : (i :: ((s.authors.map fun a => a.2.2.1) ++ succeeded o)).Nodup

theorem Loading.looked {event ev : QuerySnapshot} {s : Home} {o : List Effect} {k n i : Nat}
    {uid : Option String} (hs : Loading event s o)
    (hk : s.inFlight[k]? = some (.author n ev i uid)) :
    ev = event ∧ Looked event i (s.landed k) o := by
  have hperm : ((n, ev, i, uid) :: (s.landed k).authors).Perm s.authors :=
    Reactive.filterMap_eraseIdx_some hk rfl
  obtain ⟨hev, hi⟩ := hs.authors _ (hperm.mem_iff.mp List.mem_cons_self)
  refine ⟨hev, { bound := hi, authors := fun a ha => ?_, once := ?_ }⟩
  · exact hs.authors a (hperm.mem_iff.mp (List.mem_cons_of_mem _ ha))
  · have hindices := (hperm.map fun a => a.2.2.1).append_right (succeeded o)
    exact hindices.nodup_iff.mpr hs.once

theorem Looked.notMem {event : QuerySnapshot} {i : Nat} {s : Home} {o : List Effect}
    (h : Looked event i s o) : i ∉ succeeded o :=
  fun hmem => (List.nodup_cons.mp h.once).1 (List.mem_append_right _ hmem)

/-- A lookup fails. -/
theorem Loading.failed {event : QuerySnapshot} {s : Home} {o : List Effect} {k n i : Nat}
    {uid : Option String} (hs : Loading event s o)
    (hk : s.inFlight[k]? = some (.author n event i uid)) :
    Loading event (s.landed k) (o ++ [.lookedUp n i none]) := by
  have hlook := (hs.looked hk).2
  have hmaps := landed_keepsMaps hs.noLike hk rfl
  have hnone : succeeded [.lookedUp n i none] = [] :=
    succeeded_none n i (o := []) (by simp [Silent])
  have hsucc : succeeded (o ++ [.lookedUp n i none]) = succeeded o := by
    rw [succeeded_append, hnone, List.append_nil]
  refine { noLike := hmaps.noLike, authors := hlook.authors
           once := hsucc ▸ (List.nodup_cons.mp hlook.once).2
           bound := hsucc ▸ hs.bound, postId := hsucc ▸ hs.postId, posts := hs.posts
           stage := ?_ }
  rcases hs.stage with hl | ⟨ids, rest, before, later, hc⟩
  · exact Or.inl (hl.beside hmaps hnone (by simp))
  · exact Or.inr ⟨ids, rest, before, later, hc.beside hmaps rfl hnone⟩

/-- A lookup that succeeds adds its row, whatever it starts. -/
theorem Loading.added {event : QuerySnapshot} {s s' : Home} {o o' : List Effect} {k n i : Nat}
    {uid : Option String} {doc : QueryDoc} {v : LoginModel} (hs : Loading event s o)
    (hk : s.inFlight[k]? = some (.author n event i uid)) (hdoc : docAt event i = some doc)
    (ho : succeeded o' = [i]) (posts : s'.posts = s.posts ++ [postOf doc v])
    (postId : s'.postId = s.postId ++ [doc.id]) (authors : s'.authors = (s.landed k).authors)
    (noLike : NoLike s')
    (stage : Looking event s' (o ++ o') ∨
      ∃ ids rest before later, Counting event ids rest before later s' (o ++ o')) :
    Loading event s' (o ++ o') := by
  have hlook := (hs.looked hk).2
  have hsucc : succeeded (o ++ o') = succeeded o ++ [i] := by rw [succeeded_append, ho]
  refine { noLike, authors := authors ▸ hlook.authors, once := ?_, bound := ?_, postId := ?_
           posts := ?_, stage }
  · rw [authors, hsucc, ← List.append_assoc]
    exact (List.perm_append_singleton i _).nodup_iff.mpr hlook.once
  · intro j hj
    rw [hsucc] at hj
    rcases List.mem_append.mp hj with hj | hj
    · exact hs.bound j hj
    · rw [List.mem_singleton.mp hj]
      exact hlook.bound
  · rw [postId, hsucc, List.map_append, List.map_append, hs.postId]
    simp [hdoc]
  · rw [posts, postId]
    simp [hs.posts]

/-- The stage of a load once a lookup has left the callbacks in flight. -/
theorem Loading.stage_landed {event : QuerySnapshot} {s : Home} {o : List Effect} {k n i : Nat}
    {uid : Option String} (hs : Loading event s o)
    (hk : s.inFlight[k]? = some (.author n event i uid)) :
    Looking event (s.landed k) o ∨
      ∃ ids rest before later, Counting event ids rest before later (s.landed k) o := by
  have hmaps := landed_keepsMaps hs.noLike hk rfl
  rcases hs.stage with hl | ⟨ids, rest, before, later, hc⟩
  · have hl' : Looking event (s.landed k) (o ++ []) := hl.beside hmaps rfl (by simp)
    rw [List.append_nil] at hl'
    exact Or.inl hl'
  · have hc' : Counting event ids rest before later (s.landed k) (o ++ []) :=
      hc.beside hmaps rfl rfl
    rw [List.append_nil] at hc'
    exact Or.inr ⟨ids, rest, before, later, hc'⟩

theorem step_loading_author {event : QuerySnapshot} {s s' : Home} {k : Nat}
    {data : Option Json} {o o' : List Effect} (hs : Loading event s o)
    (h : step s (.author k data) = some (s', o')) : Loading event s' (o ++ o') := by
  obtain ⟨n, ev, i, uid, hk, h⟩ := step_author h
  obtain ⟨rfl, hlook⟩ := hs.looked hk
  have hnoLike := hs.noLike.landed k
  rcases authorThen_cases (s.landed k) n ev i (getUidUserNameAndImage data) with
    ⟨_, hnone⟩ | ⟨doc, v, hdoc, _, ⟨hne, hsome⟩ | ⟨hlast, hsome⟩⟩
  · rw [hnone, Prod.mk.injEq] at h
    obtain ⟨rfl, rfl⟩ := h
    exact hs.failed hk
  · rw [hsome, Prod.mk.injEq] at h
    obtain ⟨rfl, rfl⟩ := h
    have hsucc := succeeded_some n i (postOf doc v, doc.id) (o := []) (by simp [Silent])
    refine hs.added hk hdoc hsucc rfl rfl rfl hnoLike ?_
    rcases hs.stage_landed hk with hl | ⟨ids, rest, before, later, hc⟩
    · exact Or.inl (hl.addRow hne hlook.bound)
    · exact Or.inr ⟨ids, rest ++ [doc.id], before, later ++ [i], hc.addRow⟩
  · rw [hsome, Prod.mk.injEq] at h
    obtain ⟨rfl, rfl⟩ := h
    have hsucc := succeeded_some n i (postOf doc v, doc.id)
      (o := [.emit .getPostsSuccess]) (by simp [Silent])
    have hrows := getComments_keepsRows ((s.landed k).addRow doc v)
    refine hs.added hk hdoc hsucc rfl rfl hrows.authors ?_ ?_
    · intro p hp
      rcases List.mem_append.mp hp with hp | hp
      · exact hnoLike p hp
      · obtain ⟨j, _, rfl⟩ := List.mem_mapIdx.mp hp
        rfl
    · rcases hs.stage_landed hk with hl | ⟨ids, rest, before, later, hc⟩
      · have hlen := congrArg List.length hs.postId
        rw [List.length_map, List.length_map] at hlen
        exact Or.inr ⟨_, _, _, _, hl.ends hlast hlen⟩
      · -- the lookup of the last index has succeeded before
        have hmem : ev.docs.length - 1 ∈ succeeded o := by
          rw [hc.succeeded]
          simp
        have hi : i = ev.docs.length - 1 := by omega
        rw [← hi] at hmem
        exact absurd hmem hlook.notMem

/-! ### An answer arrives -/

theorem Counting.comments_stored {event : QuerySnapshot} {ids rest : List String}
    {before later : List Nat} {s : Home} {o : List Effect} {k i : Nat} {post : String}
    (hs : Counting event ids rest before later s o)
    (hk : s.inFlight[k]? = some (.getComments i post)) (n : Nat)
    (hne : rest = [] → i + 1 ≠ ids.length) :
    Counting event ids rest before later ((s.landed k).storeComments post n)
      (o ++ [.stored .comments post post]) := by
  have hlikes : ∀ j p, .getLikes j p ∈ (s.landed k).inFlight ↔ .getLikes j p ∈ s.inFlight :=
    fun j p => landed_mem_iff hk (by simp)
  refine { succeeded := ?_, postId := hs.postId, length := hs.length
           emits := List.mem_append_left _ hs.emits
           ownComments := fun j p hp => hs.ownComments j p (List.mem_of_mem_eraseIdx hp)
           ownLikes := fun j p hp => hs.ownLikes j p ((hlikes j p).mp hp)
           comments := hs.comments.answer hk getComments_inj n, liking := fun hrest => ?_ }
  · rw [succeeded_append, succeeded_stored, List.append_nil, hs.succeeded]
  rcases hs.liking hrest with hw | ha
  · obtain ⟨p, hp⟩ := hw.last
    refine Or.inl { last := ⟨p, ?_⟩, likes := fun j q hq => hw.likes j q ((hlikes j q).mp hq) }
    -- the request answered is not the one waited for
    refine (landed_mem_iff hk ?_).mpr hp
    intro heq
    have := hne hrest
    have := hs.length
    simp only [Pending.getComments.injEq] at heq
    omega
  · refine Or.inr { likes := ha.likes.of_mem_iff hlikes
                    myLikes := ha.myLikes.of_mem_iff hlikes, last := ?_ }
    rcases ha.last with ⟨p, hp⟩ | hemit
    · exact Or.inl ⟨p, (hlikes _ p).mpr hp⟩
    · exact Or.inr (List.mem_append_left _ hemit)

/-- The answer with the last index asks for the likes. -/
theorem Counting.likes_asked {event : QuerySnapshot} {ids : List String}
    {before later : List Nat} {s : Home} {o : List Effect} {k i : Nat} {post : String}
    (hs : Counting event ids [] before later s o)
    (hk : s.inFlight[k]? = some (.getComments i post)) (n : Nat) :
    Counting event ids [] before later ((s.landed k).storeComments post n).getLikes.1
      (o ++ [.stored .comments post post]) := by
  have hids : s.postId = ids := by rw [hs.postId, List.append_nil]
  have hcomments : ∀ j p, .getComments j p ∈
      (s.landed k).inFlight ++ ids.mapIdx Pending.getLikes ↔
        .getComments j p ∈ (s.landed k).inFlight := by
    intro j p
    rw [List.mem_append]
    refine or_iff_left fun hp => ?_
    obtain ⟨l, hl, heq⟩ := List.mem_mapIdx.mp hp
    exact absurd heq (by simp)
  have hold : ∀ j p, .getLikes j p ∈ (s.landed k).inFlight → ids[j]? = some p :=
    fun j p hp => hs.ownLikes j p (List.mem_of_mem_eraseIdx hp)
  have hcovers : ∀ {α : Type}, Covers ids (fun _ => (none : Option α)) .getLikes
      ((s.landed k).inFlight ++ ids.mapIdx .getLikes) :=
    Covers.ask getLikes_inj fun j p hp => List.mem_of_getElem? (hold j p hp)
  have hinFlight : ((s.landed k).storeComments post n).getLikes.1.inFlight =
      (s.landed k).inFlight ++ ids.mapIdx .getLikes := by
    rw [← hids]
    rfl
  refine { succeeded := ?_, postId := hs.postId, length := hs.length
           emits := List.mem_append_left _ hs.emits
           ownComments := ?_, ownLikes := ?_, comments := ?_, liking := fun _ => Or.inr ?_ }
  · rw [succeeded_append, succeeded_stored, List.append_nil, hs.succeeded]
  · intro j p hp
    rw [hinFlight, hcomments] at hp
    exact hs.ownComments j p (List.mem_of_mem_eraseIdx hp)
  · intro j p hp
    rw [hinFlight] at hp
    rcases List.mem_append.mp hp with hp | hp
    · exact hold j p hp
    · obtain ⟨l, hl, heq⟩ := List.mem_mapIdx.mp hp
      simp only [Pending.getLikes.injEq] at heq
      rw [← heq.1, ← heq.2]
      exact List.getElem?_eq_getElem hl
  · rw [hinFlight]
    exact (hs.comments.answer hk getComments_inj n).of_mem_iff hcomments
  · refine { likes := ?_, myLikes := ?_, last := Or.inl ?_ }
    · rw [hinFlight]
      exact hcovers
    · rw [hinFlight]
      exact hcovers
    · have hpos : ids.length - 1 < ids.length := by
        have := hs.length
        omega
      refine ⟨ids[ids.length - 1], ?_⟩
      rw [hinFlight]
      exact List.mem_append_right _ (List.mem_mapIdx.mpr ⟨_, hpos, rfl⟩)

theorem step_loading_comments {event : QuerySnapshot} {s s' : Home} {k : Nat}
    {docs : List String} {o o' : List Effect} (hs : Loading event s o)
    (h : step s (.comments k docs) = some (s', o')) : Loading event s' (o ++ o') := by
  obtain ⟨i, post, hk, h⟩ := step_comments h
  have hmem := List.mem_of_getElem? hk
  rcases hs.stage with hl | ⟨ids, rest, before, later, hc⟩
  · exact absurd hmem (hl.comments i post)
  obtain ⟨hthen, silent⟩ := getCommentsThen_keepsRows (s.landed k) i post docs
  rw [h] at hthen silent
  obtain ⟨posts, postId, authors, -⟩ := (landed_keepsRows hk rfl).trans hthen
  have hat := hc.ownComments i post hmem
  have hlt := (List.getElem?_eq_some_iff.mp hat).1
  have hkey : (s.landed k).postId[i]? = some post := hc.postId_at hat
  have hlen : (s.landed k).postId.length = ids.length + rest.length := hc.postId_length
  have hnoLike := hs.noLike.landed k
  rcases getCommentsThen_cases (s.landed k) i post docs with
    ⟨hnone, _⟩ | ⟨key, hsome, hcases⟩
  · rw [hkey] at hnone
    exact absurd hnone (by simp)
  rw [hkey, Option.some.injEq] at hsome
  subst hsome
  rcases hcases with ⟨hne, heq⟩ | ⟨hlast, heq⟩
  · rw [heq, Prod.mk.injEq] at h
    obtain ⟨rfl, rfl⟩ := h
    have hwait : rest = [] → i + 1 ≠ ids.length := by
      intro hrest
      rw [hrest, List.length_nil] at hlen
      omega
    exact hs.of_keepsRows posts postId authors silent hnoLike
      (Or.inr ⟨ids, rest, before, later, hc.comments_stored hk _ hwait⟩)
  · rw [heq, Prod.mk.injEq] at h
    obtain ⟨rfl, rfl⟩ := h
    have hrest : rest = [] := List.eq_nil_of_length_eq_zero (by omega)
    subst hrest
    refine hs.of_keepsRows posts postId authors silent ?_
      (Or.inr ⟨ids, [], before, later, hc.likes_asked hk _⟩)
    intro p hp
    rcases List.mem_append.mp hp with hp | hp
    · exact hnoLike p hp
    · obtain ⟨j, hj, rfl⟩ := List.mem_mapIdx.mp hp
      rfl

theorem Counting.likes_stored {event : QuerySnapshot} {ids rest : List String}
    {before later : List Nat} {s : Home} {o o' : List Effect} {k i : Nat} {post : String}
    (hs : Counting event ids rest before later s o)
    (hk : s.inFlight[k]? = some (.getLikes i post)) (n : Int) (mine : Bool)
    (hsilent : Silent o')
    (hlast : rest = [] → i + 1 = ids.length → .emit .getLikesSuccess ∈ o') :
    Counting event ids rest before later ((s.landed k).storeLikes post n mine)
      (o ++ o') := by
  have hcomments : ∀ j p, .getComments j p ∈ (s.landed k).inFlight ↔
      .getComments j p ∈ s.inFlight := fun j p => landed_mem_iff hk (by simp)
  refine { succeeded := ?_, postId := hs.postId, length := hs.length
           emits := List.mem_append_left _ hs.emits
           ownComments := fun j p hp => hs.ownComments j p ((hcomments j p).mp hp)
           ownLikes := fun j p hp => hs.ownLikes j p (List.mem_of_mem_eraseIdx hp)
           comments := hs.comments.of_mem_iff hcomments, liking := fun hrest => ?_ }
  · rw [succeeded_append, hsilent.succeeded, List.append_nil, hs.succeeded]
  rcases hs.liking hrest with hw | ha
  · exact absurd (List.mem_of_getElem? hk) (hw.likes i post)
  · refine Or.inr { likes := ha.likes.answer hk getLikes_inj n
                    myLikes := ha.myLikes.answer hk getLikes_inj mine, last := ?_ }
    have hlen := hs.length
    by_cases hi : i + 1 = ids.length
    · exact Or.inr (List.mem_append_right _ (hlast hrest hi))
    · rcases ha.last with ⟨p, hp⟩ | hemit
      · refine Or.inl ⟨p, (landed_mem_iff hk ?_).mpr hp⟩
        intro heq
        simp only [Pending.getLikes.injEq] at heq
        omega
      · exact Or.inr (List.mem_append_left _ hemit)

theorem step_loading_likes {event : QuerySnapshot} {s s' : Home} {k : Nat}
    {docs : List String} {o o' : List Effect} (hs : Loading event s o)
    (h : step s (.likes k docs) = some (s', o')) : Loading event s' (o ++ o') := by
  obtain ⟨i, post, hk, h⟩ := step_likes h
  have hmem := List.mem_of_getElem? hk
  rcases hs.stage with hl | ⟨ids, rest, before, later, hc⟩
  · exact absurd hmem (hl.likes i post)
  obtain ⟨hthen, silent⟩ := getLikesThen_keepsRows (s.landed k) i post docs
  rw [h] at hthen silent
  obtain ⟨posts, postId, authors, -⟩ := (landed_keepsRows hk rfl).trans hthen
  have hat := hc.ownLikes i post hmem
  have hkey : (s.landed k).postId[i]? = some post := hc.postId_at hat
  have hlen : (s.landed k).postId.length = ids.length + rest.length := hc.postId_length
  rcases getLikesThen_cases (s.landed k) i post docs with
    ⟨hnone, _⟩ | ⟨key, effects, hsome, heq, _, _, hemit⟩
  · rw [hkey] at hnone
    exact absurd hnone (by simp)
  rw [hkey, Option.some.injEq] at hsome
  subst hsome
  rw [heq, Prod.mk.injEq] at h
  obtain ⟨rfl, rfl⟩ := h
  have hlast : rest = [] → i + 1 = ids.length → .emit .getLikesSuccess ∈ effects := by
    intro hrest hi
    rw [hrest, List.length_nil] at hlen
    exact hemit (by omega)
  exact hs.of_keepsRows posts postId authors silent (hs.noLike.landed k)
    (Or.inr ⟨ids, rest, before, later, hc.likes_stored hk _ _ silent hlast⟩)

/-! ### The whole load -/

theorem step_loading {event : QuerySnapshot} {s s' : Home} {e : Event} {o o' : List Effect}
    (hs : Loading event s o) (h : step s e = some (s', o')) (hmix : e.mixes = false) :
    Loading event s' (o ++ o') := by
  cases hload : e.loads with
  | false =>
    obtain ⟨posts, postId, authors, silent⟩ := step_sameRows h hmix hload
    have hmaps := step_keepsMaps hs.noLike h hmix hload
    apply hs.of_keepsRows posts postId authors silent hmaps.noLike
    rcases hs.stage with hl | ⟨ids, rest, before, later, hc⟩
    · have hemit : .emit .getPostsSuccess ∉ o' :=
        fun hmem => absurd (step_plain h hload _ hmem) (by simp [Effect.ofLoad])
      exact Or.inl (hl.beside hmaps silent.succeeded hemit)
    · exact Or.inr ⟨ids, rest, before, later, hc.beside hmaps postId silent.succeeded⟩
  | true =>
    cases e with
    | author k data => exact step_loading_author hs h
    | comments k docs => exact step_loading_comments hs h
    | likes k docs => exact step_loading_likes hs h
    | _ => exact absurd hload (by simp [Event.loads])

/-- A snapshot starts a load, when nothing of an older one is in flight. -/
theorem snapshot_loading {event : QuerySnapshot} {s s' : Home} {o : List Effect}
    (hidle : Idle s) (hlike : NoLike s) (h : step s (.snapshot event) = some (s', o)) :
    Loading event s' o := by
  obtain ⟨posts, postId, authors, -, rfl⟩ := snapshot_rows h
  have hnone : s.authors = [] := by
    refine List.filterMap_eq_nil_iff.mpr fun p hp => ?_
    have := hidle p hp
    cases p <;> simp_all [authorOf, Pending.loads]
  rw [hnone, List.nil_append] at authors
  have hinFlight : s'.inFlight = s.inFlight ++
      (List.range event.docs.length).map fun i =>
        .author (s.delivered + 1) event i (uidAt event i) := by
    have h := (step_snapshot h).2
    simp only [onPosts, Prod.mk.injEq] at h
    rw [← h.1]
    rfl
  have hasks : ∀ p, p.asks = true → p ∉ s'.inFlight := by
    intro p hp hmem
    rw [hinFlight] at hmem
    rcases List.mem_append.mp hmem with hmem | hmem
    · have := hidle p hmem
      cases p <;> simp_all [Pending.loads, Pending.asks]
    · obtain ⟨i, _, rfl⟩ := List.mem_map.mp hmem
      exact absurd hp (by simp [Pending.asks])
  refine { noLike := ?_, authors := ?_, once := ?_, bound := ?_, postId := ?_, posts := ?_
           stage := Or.inl { last := ?_, emits := by simp, comments := fun i p => hasks _ rfl
                             likes := fun i p => hasks _ rfl } }
  · intro p hp
    rw [hinFlight] at hp
    rcases List.mem_append.mp hp with hp | hp
    · exact hlike p hp
    · obtain ⟨i, _, rfl⟩ := List.mem_map.mp hp
      rfl
  · intro a ha
    rw [authors] at ha
    obtain ⟨i, hi, rfl⟩ := List.mem_map.mp ha
    exact ⟨rfl, List.mem_range.mp hi⟩
  · rw [authors, List.map_map]
    simpa [succeeded, lookups, Fill.successes, Function.comp_def] using List.nodup_range
  · intro i hi
    exact absurd hi (by simp [succeeded, lookups, Fill.successes])
  · rw [postId]
    rfl
  · rw [posts, postId]
    rfl
  · simp [succeeded, lookups, Fill.successes]

theorem run_loading {event : QuerySnapshot} {es : List Event} {s₀ s : Home}
    {o : List Effect} (hidle : Idle s₀) (hlike : NoLike s₀) (hes : ∀ e ∈ es, e.mixes = false)
    (hrun : machine.run s₀ (.snapshot event :: es) = some (s, o)) : Loading event s o := by
  obtain ⟨s₁, o₁, o₂, hstep, hrest, rfl⟩ := Reactive.Machine.run_cons.mp hrun
  refine Reactive.Machine.run_invariant (M := machine) (I := Loading event)
    (Q := fun _ e _ _ => e.mixes = false) ?_ (snapshot_loading hidle hlike hstep)
    (Reactive.Machine.every_of_forall (fun _ _ _ _ h => h) hes s₁) hrest
  intro s e s' o a hs hstep hmix
  exact step_loading hs hstep hmix

theorem Loading.postId_nodup {event : QuerySnapshot} {s : Home} {o : List Effect}
    (hs : Loading event s o) : s.postId.Nodup := by
  have hsucc : (succeeded o).Nodup := (List.nodup_append.mp hs.once).2.1
  have hmap : (s.postId.map some).Nodup := by
    rw [hs.postId]
    exact hsucc.map_on fun i hi j hj => docAt_id_inj (hs.bound i hi) (hs.bound j hj)
  exact hmap.of_map _

/-- A load that has counted for all its posts has been completed. -/
theorem Counting.done {event : QuerySnapshot} {ids : List String} {before later : List Nat}
    {s : Home} {o : List Effect} (hc : Counting event ids [] before later s o)
    (hs : Loading event s o) (hdone : Idle s) : LoadDone s o := by
  have hids : s.postId = ids := by rw [hc.postId, List.append_nil]
  have hcomments : ∀ i p, .getComments i p ∉ s.inFlight := fun i p => hdone.notMem rfl
  have hlikes : ∀ i p, .getLikes i p ∉ s.inFlight := fun i p => hdone.notMem rfl
  have hpos : 0 < ids.length := by
    have := hc.length
    omega
  rcases hc.liking rfl with hw | ha
  · obtain ⟨p, hp⟩ := hw.last
    exact absurd hp (hcomments _ p)
  · have hkeys := hc.comments.keys hcomments
    have hlikesKeys := ha.likes.keys hlikes
    have hhead : ids[0] ∈ ids := List.getElem_mem hpos
    refine { posts := hc.emits, likes := ?_, commentsKeys := hids ▸ hkeys
             likesKeys := hids ▸ hlikesKeys, myLikesKeys := hids ▸ ha.myLikes.keys hlikes
             shown := ⟨?_, ⟨ids[0], (hkeys _).mpr hhead⟩, ids[0], (hlikesKeys _).mpr hhead⟩ }
    · rcases ha.last with ⟨p, hp⟩ | hemit
      · exact absurd hp (hlikes _ p)
      · exact hemit
    · intro hnil
      have hlen := hs.posts
      rw [hnil, hids, List.length_nil] at hlen
      omega

/-- A lookup that succeeds after that of the last index adds a post for which
nothing is counted. -/
theorem Counting.not_done {event : QuerySnapshot} {ids rest : List String}
    {before later : List Nat} {s : Home} {o : List Effect}
    (hc : Counting event ids rest before later s o) (hs : Loading event s o)
    (hdone : Idle s) (hrest : rest ≠ []) : ¬ LoadDone s o := by
  intro h
  obtain ⟨p, hp⟩ := List.exists_mem_of_ne_nil rest hrest
  have hmem : p ∈ s.postId := by
    rw [hc.postId]
    exact List.mem_append_right _ hp
  have hids : p ∈ ids :=
    (hc.comments.keys (fun i q => hdone.notMem rfl) p).mp ((h.commentsKeys p).mpr hmem)
  have hnodup := hs.postId_nodup
  rw [hc.postId] at hnodup
  exact (List.disjoint_of_nodup_append hnodup) hids hp

/-- Once every answer has arrived the load is complete exactly when the lookup of
the last index is the last that succeeded. -/
theorem Loading.done_iff {event : QuerySnapshot} {s : Home} {o : List Effect}
    (hs : Loading event s o) (hdone : Idle s) :
    LoadDone s o ↔ (succeeded o).getLast? = some (event.docs.length - 1) := by
  rcases hs.stage with hl | ⟨ids, rest, before, later, hc⟩
  · constructor
    · intro h
      exact absurd h.posts hl.emits
    · intro h
      exact absurd (List.mem_of_getLast? h) hl.last
  have hlen : rest.length = later.length := by
    have h₁ := congrArg List.length hs.postId
    have h₂ := hc.length
    rw [List.length_map, List.length_map, hc.succeeded, hc.postId] at h₁
    simp only [List.length_append, List.length_cons] at h₁
    omega
  cases later with
  | nil =>
    have hrest : rest = [] := List.eq_nil_of_length_eq_zero hlen
    subst hrest
    constructor
    · intro _
      rw [hc.succeeded]
      simp
    · intro _
      exact hc.done hs hdone
  | cons j later =>
    have hrest : rest ≠ [] := by
      rintro rfl
      exact absurd hlen (by simp)
    constructor
    · intro h
      exact absurd h (hc.not_done hs hdone hrest)
    · intro h
      have hnodup : (succeeded o).Nodup := (List.nodup_append.mp hs.once).2.1
      have hlast : event.docs.length - 1 ∈ j :: later := by
        rw [hc.succeeded, List.getLast?_append_of_ne_nil _ (by simp),
          List.getLast?_cons_cons] at h
        exact List.mem_of_getLast? h
      rw [hc.succeeded] at hnodup
      exact absurd hlast (List.nodup_cons.mp (List.nodup_append.mp hnodup).2.1).1

/-! ### The last lookup -/

/-- The lookup of the last index of a snapshot, its oldest post, is in flight. -/
def LastInFlight (event : QuerySnapshot) (s : Home) : Prop :=
  ∃ n uid, .author n event (event.docs.length - 1) uid ∈ s.inFlight

/-- The lookup of the last index succeeds, and whenever a lookup succeeds that of
the last index is still in flight. -/
def InTime (s : Home) (e : Event) : Prop :=
  match e with
  | .author k data => ∀ n event i uid, s.inFlight[k]? = some (.author n event i uid) →
      (i + 1 = event.docs.length → getUidUserNameAndImage data ≠ none) ∧
        (getUidUserNameAndImage data ≠ none → LastInFlight event s)
  | _ => True

/-- The lookup of the last index is in flight or the last that succeeded. -/
def LastAhead (event : QuerySnapshot) (s : Home) (o : List Effect) : Prop :=
  LastInFlight event s ∨ (succeeded o).getLast? = some (event.docs.length - 1)

theorem lastInFlight_iff {event : QuerySnapshot} {s : Home} :
    LastInFlight event s ↔ ∃ n uid, (n, event, event.docs.length - 1, uid) ∈ s.authors :=
  exists_congr fun _ => exists_congr fun _ => mem_authors_iff.symm

/-- A step beside the lookups leaves the last one where it is. -/
theorem lastAhead_of_same {event : QuerySnapshot} {s s' : Home} {o o' : List Effect}
    (authors : s'.authors = s.authors) (silent : Silent o') :
    LastAhead event s' (o ++ o') ↔ LastAhead event s o := by
  unfold LastAhead
  rw [lastInFlight_iff, lastInFlight_iff, authors, succeeded_append, silent.succeeded,
    List.append_nil]

/-- When a lookup ends, the last one was in flight if it is this one or still is. -/
theorem Loading.lastInFlight_author {event : QuerySnapshot} {s s' : Home} {o : List Effect}
    {k n i : Nat} {uid : Option String}
    (hs : Loading event s o) (hk : s.inFlight[k]? = some (.author n event i uid))
    (authors : ((n, event, i, uid) :: s'.authors).Perm s.authors) :
    (LastInFlight event s ↔ i + 1 = event.docs.length ∨ LastInFlight event s') ∧
      (i + 1 = event.docs.length → ¬ LastAhead event s' o) := by
  have hlook := (hs.looked hk).2
  have hbound := hlook.bound
  have hindices := ((authors.map fun a => a.2.2.1).append_right (succeeded o)).nodup_iff.mpr hs.once
  constructor
  · rw [lastInFlight_iff, lastInFlight_iff]
    constructor
    · rintro ⟨m, uid', hm⟩
      rcases List.mem_cons.mp (authors.mem_iff.mpr hm) with heq | hm
      · simp only [Prod.mk.injEq] at heq
        omega
      · exact Or.inr ⟨m, uid', hm⟩
    · rintro (hi | ⟨m, uid', hm⟩)
      · have hlast : event.docs.length - 1 = i := by omega
        rw [hlast]
        exact ⟨n, uid, authors.mem_iff.mp List.mem_cons_self⟩
      · exact ⟨m, uid', authors.mem_iff.mp (List.mem_cons_of_mem _ hm)⟩
  · intro hi hahead
    have hlast : event.docs.length - 1 = i := by omega
    rw [LastAhead, lastInFlight_iff, hlast] at hahead
    apply (List.nodup_cons.mp hindices).1
    rcases hahead with ⟨m, uid', hm⟩ | hsucc
    · exact List.mem_append_left _ (List.mem_map.mpr ⟨_, hm, rfl⟩)
    · exact List.mem_append_right _ (List.mem_of_getLast? hsucc)

/-- What a step does to the last lookup: it is not regained, and it is kept by the
steps that are in time. -/
theorem step_lastAhead {event : QuerySnapshot} {s s' : Home} {e : Event} {o o' : List Effect}
    (hs : Loading event s o) (h : step s e = some (s', o')) (hmix : e.mixes = false) :
    (LastAhead event s' (o ++ o') → LastAhead event s o) ∧
      (LastAhead event s o → (LastAhead event s' (o ++ o') ↔ InTime s e)) := by
  cases step_rows h with
  | same other _ _ authors _ silent =>
    have hiff : LastAhead event s' (o ++ o') ↔ LastAhead event s o :=
      lastAhead_of_same authors silent
    refine ⟨hiff.mp, fun hahead => ?_⟩
    cases e with
    | author k data => exact absurd rfl (other k data)
    | _ => exact ⟨fun _ => trivial, fun _ => hiff.mpr hahead⟩
  | snapshot _ _ _ _ _ => exact absurd hmix (by simp [Event.mixes])
  | removed deletes _ _ _ _ _ => exact absurd (Event.mixes_of_deletes deletes) (by simp [hmix])
  | @author k data n ev i uid added rest hk _ _ authors _ effects silent hadded =>
    obtain ⟨rfl, hlook⟩ := hs.looked hk
    obtain ⟨hflight, hgone⟩ := hs.lastInFlight_author hk authors
    obtain ⟨doc, hdoc⟩ := docAt_of_lt hlook.bound
    have htime : InTime s (.author k data) ↔
        (i + 1 = ev.docs.length → getUidUserNameAndImage data ≠ none) ∧
          (getUidUserNameAndImage data ≠ none → LastInFlight ev s) := by
      constructor
      · intro hin
        exact hin n ev i uid hk
      · intro hin n' ev' i' uid' hk'
        rw [hk, Option.some.injEq, Pending.author.injEq] at hk'
        obtain ⟨rfl, rfl, rfl, -⟩ := hk'
        exact hin
    rw [htime]
    cases hdata : getUidUserNameAndImage data with
    | none =>
      have hnone : added = none := by rw [hadded, hdoc, hdata]; rfl
      have hahead : LastAhead ev s' (o ++ o') ↔ LastAhead ev s' o := by
        unfold LastAhead
        rw [effects, hnone, succeeded_append, succeeded_none n i silent, List.append_nil]
      rw [hahead]
      refine ⟨fun hlast => hlast.imp_left fun hin => hflight.mpr (Or.inr hin), fun hlast => ?_⟩
      constructor
      · intro hlast'
        exact ⟨fun hi => absurd hlast' (hgone hi), fun hne => absurd rfl hne⟩
      · intro hin
        refine hlast.imp_left fun hfl => (hflight.mp hfl).resolve_left fun hi => ?_
        exact hin.1 hi rfl
    | some v =>
      have hsome : added = some (postOf doc v, doc.id) := by rw [hadded, hdoc, hdata]; rfl
      have hahead : LastAhead ev s' (o ++ o') ↔ LastInFlight ev s := by
        have hlast : i = ev.docs.length - 1 ↔ i + 1 = ev.docs.length := by
          have := hlook.bound
          omega
        rw [LastAhead, effects, hsome, succeeded_append, succeeded_some n i _ silent,
          List.getLast?_append_of_ne_nil _ (by simp), List.getLast?_singleton,
          Option.some.injEq, hlast, hflight]
        exact or_comm
      rw [hahead]
      exact ⟨Or.inl, fun _ => ⟨fun hfl => ⟨by simp, fun _ => hfl⟩, fun hin => hin.2 (by simp)⟩⟩

/-- Once every answer has arrived the load is complete exactly when the lookup of
the last index, the oldest post, succeeded and no lookup succeeded after it. -/
theorem load_done_iff {event : QuerySnapshot} {es : List Event} {s₀ s : Home}
    {o : List Effect} (hpos : 0 < event.docs.length) (hidle : Idle s₀) (hlike : NoLike s₀)
    (hes : ∀ e ∈ es, e.mixes = false)
    (hrun : machine.run s₀ (.snapshot event :: es) = some (s, o)) (hdone : Idle s) :
    LoadDone s o ↔
      machine.Every (fun s e _ _ => InTime s e) s₀ (.snapshot event :: es) := by
  obtain ⟨s₁, o₁, o₂, hstep, hrest, rfl⟩ := Reactive.Machine.run_cons.mp hrun
  have hs₁ := snapshot_loading hidle hlike hstep
  have hahead₁ : LastAhead event s₁ o₁ := by
    obtain ⟨_, _, authors, _, _⟩ := snapshot_rows hstep
    refine Or.inl (lastInFlight_iff.mpr
      ⟨s₀.delivered + 1, uidAt event (event.docs.length - 1), ?_⟩)
    rw [authors]
    refine List.mem_append_right _ (List.mem_map.mpr ⟨_, List.mem_range.mpr ?_, rfl⟩)
    omega
  have hend : LastAhead event s (o₁ ++ o₂) ↔ machine.Every (fun s e _ _ => InTime s e) s₁ es :=
    Reactive.Machine.end_iff (M := machine) (J := Loading event) (I := LastAhead event)
      (H := fun _ e _ _ => e.mixes = false)
      (fun s e s' o a hs h hmix => step_loading hs h hmix)
      (fun s e s' o a hs h hmix => (step_lastAhead hs h hmix).1)
      (fun s e s' o a hs hin h hmix => (step_lastAhead hs h hmix).2 hin) hs₁ hahead₁
      (Reactive.Machine.every_of_forall (fun _ _ _ _ h => h) hes s₁) hrest
  have hnone : ¬ LastInFlight event s := by
    rintro ⟨n, uid, hn⟩
    exact absurd (hdone _ hn) (by simp [Pending.loads])
  have hlast : LastAhead event s (o₁ ++ o₂) ↔
      (succeeded (o₁ ++ o₂)).getLast? = some (event.docs.length - 1) := or_iff_right hnone
  rw [(run_loading hidle hlike hes hrun).done_iff hdone, ← hlast, hend]
  constructor
  · intro h
    exact Reactive.Machine.every_cons hstep trivial h
  · intro h
    exact (h s₁ o₁ hstep).2

/-- The lookup of the older post is answered first: the likes are never asked for,
and the newer post has no number of comments. -/
theorem load_not_done :
    ∃ s₀ o₀ s o, machine.run (init none) [.login "ann"] = some (s₀, o₀) ∧
      Idle s₀ ∧ NoLike s₀ ∧
      machine.run s₀ [.snapshot twoPosts, .author 2 (some (userOf "ann").toMap),
        .author 1 (some (userOf "bob").toMap), .comments 1 []] = some (s, o) ∧
      Idle s ∧ ¬ LoadDone s o := by
  refine ⟨_, _, _, _, rfl, by decide, by decide, rfl, by decide, fun h => ?_⟩
  have hlikes := h.likes
  revert hlikes
  decide

/-- The answers of a load of the two posts, each in the order of its index. -/
def answersOfTwoPosts : List Event :=
  [.author 1 (some (userOf "bob").toMap), .author 1 (some (userOf "ann").toMap),
    .comments 1 ["c"], .comments 1 [], .likes 1 ["ann"], .likes 1 []]

theorem load_done_iff_twoPosts :
    ∃ s₀ o₀ s o, machine.run (init none) [.login "ann"] = some (s₀, o₀) ∧
      machine.run s₀ (.snapshot twoPosts :: answersOfTwoPosts) = some (s, o) ∧
      LoadDone s o := by
  refine ⟨((init none).login "ann").1, _, _, _, rfl, rfl,
    (@load_done_iff twoPosts answersOfTwoPosts ((init none).login "ann").1 _ _
      (by decide) ?_ ?_ ?_ rfl ?_).mpr ?_⟩
  · decide
  · decide
  · simp [answersOfTwoPosts, Event.mixes]
  · decide
  · refine Reactive.Machine.every_cons rfl trivial
      (Reactive.Machine.every_cons rfl ?_ (Reactive.Machine.every_cons rfl ?_
        (Reactive.Machine.every_cons rfl trivial (Reactive.Machine.every_cons rfl trivial
          (Reactive.Machine.every_cons rfl trivial
            (Reactive.Machine.every_cons rfl trivial trivial))))))
    · intro n event i uid hk
      obtain ⟨rfl, rfl, -⟩ := Pending.author.inj (Option.some.inj hk)
      exact ⟨fun _ => by decide, fun _ => ⟨1, _, @List.mem_of_getElem? _ _ 2 _ rfl⟩⟩
    · intro n event i uid hk
      obtain ⟨rfl, rfl, -⟩ := Pending.author.inj (Option.some.inj hk)
      exact ⟨fun _ => by decide, fun _ => ⟨1, _, @List.mem_of_getElem? _ _ 1 _ rfl⟩⟩

end Home
end SocialApp
