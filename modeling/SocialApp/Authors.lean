import SocialApp.Home.Rows
import SocialApp.Comments.Shown

/-! # The authors of posts and comments

Each row is built when the lookup of its author answers, from the document of its post or
comment and from the answer.  Lookups of several rows and of several snapshots are on
their way at once, and posts are deleted in between.  A row shows its own author. -/

namespace SocialApp

/-- A name and an image that the user `uid` has had; `held` says which documents a user
has had. -/
def ByAuthor (held : String → Json → Prop) (uid name image : Option String) : Prop :=
  ∃ u json, uid = some u ∧ held u json ∧ name = json.string "name" ∧ image = json.string "image"

/-- What the service may answer to a read of `users/uid`: nothing, or a document that the
user has had. -/
def AuthorAnswer (held : String → Json → Prop) (uid : Option String) (data : Option Json) : Prop :=
  ∀ json, data = some json → ∃ u, uid = some u ∧ held u json

variable {held : String → Json → Prop}

theorem AuthorAnswer.byAuthor {uid : Option String} {data : Option Json} {v : LoginModel}
    (h : AuthorAnswer held uid data) (hv : LoginModel.fromJson data = some v) :
    ByAuthor held uid v.name v.image := by
  obtain ⟨json, hdata, rfl⟩ := Option.map_eq_some_iff.mp hv
  obtain ⟨u, huid, hheld⟩ := h json hdata
  exact ⟨u, json, huid, hheld, rfl, rfl⟩

namespace Home

/-- Each lookup in flight has asked for the author of its post. -/
def AsksAuthors (s : Home) : Prop := ∀ a ∈ s.authors, a.2.2.2 = uidAt a.2.1 a.2.2.1

theorem step_asksAuthors {s s' : Home} {e : Event} {o : List Effect} (hs : AsksAuthors s)
    (h : step s e = some (s', o)) : AsksAuthors s' := by
  intro a ha
  cases step_rows h with
  | same _ _ _ authors _ _ => exact hs a (authors ▸ ha)
  | snapshot _ _ authors _ _ =>
    rw [authors] at ha
    rcases List.mem_append.mp ha with ha | ha
    · exact hs a ha
    · obtain ⟨i, -, rfl⟩ := List.mem_map.mp ha
      rfl
  | author _ _ _ authors _ _ _ _ => exact hs a (authors.mem_iff.mp (List.mem_cons_of_mem _ ha))
  | removed _ _ _ authors _ _ => exact hs a (authors ▸ ha)

/-- The answer of the service to a lookup, by the `uid` that it was asked for. -/
def AuthorsAnswer (held : String → Json → Prop) (s : Home) : Event → Prop
  | .author k data => ∀ n event i uid, s.inFlight[k]? = some (.author n event i uid) →
      AuthorAnswer held uid data
  | _ => True

/-- Every row of the feed shows its author. -/
def ShowsAuthors (held : String → Json → Prop) (s : Home) : Prop :=
  ∀ post ∈ s.posts, ByAuthor held post.uid post.postUserName post.postUserImage

theorem step_showsAuthors {s s' : Home} {e : Event} {o : List Effect} (hask : AsksAuthors s)
    (hs : ShowsAuthors held s) (he : AuthorsAnswer held s e) (h : step s e = some (s', o)) :
    ShowsAuthors held s' := by
  intro post hpost
  cases step_rows h with
  | same _ posts _ _ _ _ =>
    rw [posts] at hpost
    exact hs post hpost
  | snapshot posts _ _ _ _ =>
    rw [posts] at hpost
    exact absurd hpost List.not_mem_nil
  | @author k data n event i uid added rest request posts _ _ _ _ _ added_eq =>
    rw [posts] at hpost
    rcases List.mem_append.mp hpost with hpost | hpost
    · exact hs post hpost
    · obtain ⟨p, hp, rfl⟩ := Option.map_eq_some_iff.mp (Option.mem_toList.mp hpost)
      rw [added_eq] at hp
      obtain ⟨doc, hdoc, hp⟩ := Option.bind_eq_some_iff.mp hp
      obtain ⟨v, hv, rfl⟩ := Option.map_eq_some_iff.mp hp
      -- the user asked for is the one that the post names
      have huid : uid = (postOf doc v).uid := by
        have hasked : uid = uidAt event i :=
          hask _ (mem_authors_iff.mpr (List.mem_of_getElem? request))
        rw [hasked, uidAt, hdoc]
        rfl
      have hauthor := (he n event i uid request).byAuthor hv
      rwa [huid] at hauthor
  | removed _ posts _ _ _ _ => exact hs post (mem_of_mem_removeAt posts hpost)

/-- In every run, with snapshots, deletes and late lookups in any order, each post of the
feed is shown under a name and an image that its own author has had. -/
theorem posts_show_authors {u : Option String} {es : List Event} {s : Home} {o : List Effect}
    (hanswers : machine.Every (fun s e _ _ => AuthorsAnswer held s e) (init u) es)
    (hrun : machine.run (init u) es = some (s, o)) :
    ∀ post ∈ s.posts, ByAuthor held post.uid post.postUserName post.postUserImage := by
  have hinit : AsksAuthors (init u) ∧ ShowsAuthors held (init u) :=
    ⟨fun _ ha => absurd ha List.not_mem_nil, fun _ hpost => absurd hpost List.not_mem_nil⟩
  exact (Reactive.Machine.run_state_invariant
    (I := fun s => AsksAuthors s ∧ ShowsAuthors held s)
    (fun _ _ _ _ hs h he => ⟨step_asksAuthors hs.1 h, step_showsAuthors hs.1 hs.2 he h⟩)
    hinit hanswers hrun).2

theorem posts_show_authors_twoPosts :
    ∃ s o, machine.run (init none) loadTwoPosts = some (s, o) ∧
      ∀ post ∈ s.posts, ByAuthor (fun u json => json = (userOf u).toMap) post.uid
        post.postUserName post.postUserImage := by
  refine ⟨_, _, rfl, @posts_show_authors _ none loadTwoPosts _ _ ?_ rfl⟩
  refine Reactive.Machine.every_cons rfl trivial (Reactive.Machine.every_cons rfl trivial
    (Reactive.Machine.every_cons rfl trivial (Reactive.Machine.every_cons rfl ?_
      (Reactive.Machine.every_cons rfl ?_ trivial))))
  · intro n event i uid hk json hjson
    obtain ⟨-, -, -, rfl⟩ := Pending.author.inj (Option.some.inj hk)
    exact ⟨"bob", rfl, (Option.some.inj hjson).symm⟩
  · intro n event i uid hk json hjson
    obtain ⟨-, -, -, rfl⟩ := Pending.author.inj (Option.some.inj hk)
    exact ⟨"ann", rfl, (Option.some.inj hjson).symm⟩

end Home

namespace Comments

/-- Each lookup in flight has asked for the author of its comment. -/
def AsksAuthors (s : Comments) : Prop :=
  ∀ event i uid, .author event i uid ∈ s.inFlight → uid = uidAt event i

theorem mem_of_mem_leave {α : Type} {e : Event} {xs : List α} {x : α} (h : x ∈ e.leave xs) :
    x ∈ xs := by
  cases e with
  | author k data => exact List.mem_of_mem_eraseIdx h
  | settled k => exact List.mem_of_mem_eraseIdx h
  | _ => exact h

theorem step_asksAuthors {s s' : Comments} {e : Event} {o : List Effect} (hs : AsksAuthors s)
    (h : step s e = some (s', o)) : AsksAuthors s' := by
  intro event i uid hmem
  by_cases hbeside : e.beside
  · obtain ⟨ws, hin⟩ := (step_beside hbeside h).inFlight
    rw [hin] at hmem
    rcases List.mem_append.mp hmem with hmem | hmem
    · exact hs event i uid (mem_of_mem_leave hmem)
    · obtain ⟨w, -, hw⟩ := List.mem_map.mp hmem
      exact absurd hw (by simp)
  · cases e with
    | snapshot ev =>
      simp only [step, Option.ite_none_right_eq_some, Option.some.injEq] at h
      obtain ⟨-, h⟩ := h
      obtain ⟨rfl, -⟩ := Prod.mk.inj h
      rcases List.mem_append.mp hmem with hmem | hmem
      · exact hs event i uid hmem
      · obtain ⟨j, -, heq⟩ := List.mem_map.mp hmem
        obtain ⟨rfl, rfl, rfl⟩ := Pending.author.inj heq
        rfl
    | author k data =>
      obtain ⟨ev, j, _, -, h⟩ := step_author h
      rw [authorThen_eq] at h
      cases hadded : added ev j (getUidUserNameAndImage data) with
      | none =>
        rw [hadded] at h
        obtain ⟨rfl, -⟩ := Prod.mk.inj h
        exact hs event i uid (List.mem_of_mem_eraseIdx hmem)
      | some x =>
        rw [hadded] at h
        obtain ⟨rfl, -⟩ := Prod.mk.inj h
        exact hs event i uid (List.mem_of_mem_eraseIdx hmem)
    | _ => exact absurd ⟨fun _ => by simp, fun _ _ => by simp⟩ hbeside

/-- The answer of the service to a lookup, by the `uid` that it was asked for. -/
def AuthorsAnswer (held : String → Json → Prop) (s : Comments) : Event → Prop
  | .author k data => ∀ event i uid, s.inFlight[k]? = some (.author event i uid) →
      AuthorAnswer held uid data
  | _ => True

/-- Every comment of the sheet shows its author. -/
def ShowsAuthors (held : String → Json → Prop) (s : Comments) : Prop :=
  ∀ comment ∈ s.comments, ByAuthor held comment.uid comment.name comment.image

theorem step_showsAuthors {s s' : Comments} {e : Event} {o : List Effect} (hask : AsksAuthors s)
    (hs : ShowsAuthors held s) (he : AuthorsAnswer held s e) (h : step s e = some (s', o)) :
    ShowsAuthors held s' := by
  intro comment hcomment
  cases step_rows h with
  | same comments _ _ _ =>
    rw [comments] at hcomment
    exact hs comment hcomment
  | firstBuild comments _ _ =>
    rw [comments] at hcomment
    exact hs comment hcomment
  | snapshot comments _ =>
    rw [comments] at hcomment
    exact absurd hcomment List.not_mem_nil
  | @author k data event i doc uid v request place value comments _ _ =>
    rw [comments] at hcomment
    rcases List.mem_append.mp hcomment with hcomment | hcomment
    · exact hs comment hcomment
    · rw [List.mem_singleton.mp hcomment]
      -- the user asked for is the one that the comment names
      have huid : uid = (commentOf doc v).uid := by
        rw [hask event i uid (List.mem_of_getElem? request), uidAt, place]
        rfl
      have hauthor := (he event i uid request).byAuthor value
      rwa [huid] at hauthor

/-- In every run, with snapshots, comments and late lookups in any order, each comment is
shown under a name and an image that its own author has had. -/
theorem comments_show_authors {u : Option String} {es : List Event} {s : Comments}
    {o : List Effect} (hanswers : machine.Every (fun s e _ _ => AuthorsAnswer held s e) (init u) es)
    (hrun : machine.run (init u) es = some (s, o)) :
    ∀ comment ∈ s.comments, ByAuthor held comment.uid comment.name comment.image := by
  have hinit : AsksAuthors (init u) ∧ ShowsAuthors held (init u) :=
    ⟨fun _ _ _ hmem => absurd hmem List.not_mem_nil,
      fun _ hcomment => absurd hcomment List.not_mem_nil⟩
  exact (Reactive.Machine.run_state_invariant
    (I := fun s => AsksAuthors s ∧ ShowsAuthors held s)
    (fun _ _ _ _ hs h he => ⟨step_asksAuthors hs.1 h, step_showsAuthors hs.1 hs.2 he h⟩)
    hinit hanswers hrun).2

theorem comments_show_authors_oneComment :
    ∃ s o, machine.run (init none)
        [.firstBuild "p" (some 0), .snapshot oneComment, .author 0 (some (author "bob"))] =
          some (s, o) ∧
      ∀ comment ∈ s.comments, ByAuthor (fun u json => json = author u) comment.uid comment.name
        comment.image := by
  refine ⟨_, _, rfl, @comments_show_authors _ none [.firstBuild "p" (some 0),
    .snapshot oneComment, .author 0 (some (author "bob"))] _ _ ?_ rfl⟩
  refine Reactive.Machine.every_cons rfl trivial (Reactive.Machine.every_cons rfl trivial
    (Reactive.Machine.every_cons rfl ?_ trivial))
  intro event i uid hk json hjson
  obtain ⟨-, -, rfl⟩ := Pending.author.inj (Option.some.inj hk)
  exact ⟨"bob", rfl, (Option.some.inj hjson).symm⟩

end Comments
end SocialApp
