import SocialApp.NewPost.Posts
import SocialApp.Home.Feed
import SocialApp.Profile.Screen
import SocialApp.Reactive.Query
import SocialApp.Utf8

/-! # The two views of the collection of posts

The home screen lists the whole collection, by the ids of the documents and from the last
one on.  The profile asks for the posts of the user, by `dateTime` and descending.  The
two fields have one text in every document, so the profile is the part of the feed that
is the user's. -/

namespace SocialApp
namespace NewPost

/-- The `dateTime` of the post is the id of its document. -/
def Write.Dated (w : Write) : Prop := w.post.dateTime = some w.id

theorem createPost_dated (captured : Captured) (now : Time.DateTime) (uId : Option String)
    (s : NewPost) {w : Write} (h : .issue w ∈ (createPost captured now uId s).2) : w.Dated := by
  rcases List.mem_cons.mp h with h | h
  · exact absurd h (by simp)
  · obtain rfl := Effect.issue.inj (List.mem_singleton.mp h)
    rfl

theorem post_dated {model : Option LoginModel} {uId : Option String} {now : Time.DateTime}
    {s : NewPost} {w : Write} (h : .issue w ∈ (s.post model uId now).2) : w.Dated := by
  cases model with
  | none => exact absurd h List.not_mem_nil
  | some m =>
    simp only [post] at h
    split at h
    · exact absurd h List.not_mem_nil
    · unfold checkPost at h
      rcases List.mem_cons.mp h with h | h
      · exact absurd h (by simp)
      · cases hfile : s.filePostImage with
        | none =>
          rw [hfile] at h
          exact createPost_dated _ now uId _ h
        | some file =>
          rw [hfile] at h
          exact absurd (List.mem_singleton.mp h) (by simp)

theorem urlThen_dated {file url : String} {captured : Captured} {now : Time.DateTime}
    {uId : Option String} {s : NewPost} {w : Write}
    (h : .issue w ∈ (s.urlThen file captured url now uId).2) : w.Dated := by
  rcases List.mem_cons.mp h with h | h
  · exact absurd h (by simp)
  · rcases List.mem_append.mp h with h | h
    · exact createPost_dated captured now uId _ h
    · exact absurd (List.mem_singleton.mp h) (by simp)

theorem step_issued_dated {s s' : NewPost} {e : Event} {o : List Effect} {w : Write}
    (h : s.step e = some (s', o)) (hw : .issue w ∈ o) : w.Dated := by
  cases e with
  | post model uId now =>
    rw [← (Prod.mk.inj (Option.some.inj h)).2] at hw
    exact post_dated hw
  | url k url uId now =>
    simp only [step] at h
    split at h
    · rw [← (Prod.mk.inj (Option.some.inj h)).2] at hw
      exact urlThen_dated hw
    · exact absurd h (by simp)
  | pickPostImage path =>
    rw [← (Prod.mk.inj (Option.some.inj h)).2] at hw
    cases path with
    | none => exact absurd hw List.not_mem_nil
    | some path => exact absurd (List.mem_singleton.mp hw) (by simp)
  | cancelPickPostImage =>
    rw [← (Prod.mk.inj (Option.some.inj h)).2] at hw
    exact absurd (List.mem_singleton.mp hw) (by simp)
  | edit text =>
    rw [← (Prod.mk.inj (Option.some.inj h)).2] at hw
    exact absurd hw List.not_mem_nil
  | uploaded k =>
    simp only [step] at h
    split at h
    · rw [← (Prod.mk.inj (Option.some.inj h)).2] at hw
      exact absurd hw List.not_mem_nil
    · exact absurd h (by simp)
  | failed k =>
    simp only [step] at h
    split at h
    · rw [← (Prod.mk.inj (Option.some.inj h)).2] at hw
      simp [NewPost.failed] at hw
    · rw [← (Prod.mk.inj (Option.some.inj h)).2] at hw
      simp [NewPost.failed] at hw
    · exact absurd h (by simp)
  | applied k =>
    simp only [step] at h
    split at h
    · rw [← (Prod.mk.inj (Option.some.inj h)).2] at hw
      exact absurd (List.mem_singleton.mp hw) (by simp)
    · exact absurd h (by simp)
  | settled k ok mounted =>
    simp only [step] at h
    split at h
    · split at h
      · rw [← (Prod.mk.inj (Option.some.inj h)).2] at hw
        rcases List.mem_cons.mp hw with hw | hw
        · exact absurd hw (by simp)
        · exact absurd ((writeThen_did ok mounted (s.landed k)).2.2.1 _ hw)
            (by simp [Effect.quiet])
      · exact absurd h (by simp)
    · exact absurd h (by simp)

/-- Every write on its way is dated. -/
def WritesDated (s : NewPost) : Prop := ∀ w applied, .write w applied ∈ s.inFlight → w.Dated

theorem step_writesDated {s s' : NewPost} {e : Event} {o : List Effect} (hs : s.WritesDated)
    (h : s.step e = some (s', o)) :
    s'.WritesDated ∧ ∀ w, Effect.applied w ∈ o → w.Dated := by
  have hissued : ∀ w, Effect.issue w ∈ o → w.Dated := fun w hw => step_issued_dated h hw
  have herase : ∀ {k p}, p ∈ s.inFlight.eraseIdx k → p ∈ s.inFlight :=
    fun hp => List.mem_of_mem_eraseIdx hp
  cases step_did h with
  | other inFlight _ effects _ =>
    refine ⟨fun w applied hw => hs w applied (inFlight _ hw), fun w hw => ?_⟩
    exact absurd (effects _ hw) (by simp [Effect.quiet])
  | @text w _ _ inFlight _ effects =>
    subst effects
    refine ⟨fun w' applied hw' => ?_, fun w' hw' => absurd hw' (by simp)⟩
    rw [inFlight] at hw'
    rcases List.mem_append.mp hw' with hw' | hw'
    · exact hs w' applied hw'
    · rw [(Pending.write.inj (List.mem_singleton.mp hw')).1]
      exact hissued w (by simp)
  | upload _ inFlight _ effects =>
    subst effects
    refine ⟨fun w' applied hw' => ?_, fun w' hw' => absurd hw' (by simp)⟩
    rw [inFlight] at hw'
    rcases List.mem_append.mp hw' with hw' | hw'
    · exact hs w' applied hw'
    · exact absurd (List.mem_singleton.mp hw') (by simp)
  | uploaded _ inFlight _ effects =>
    subst effects
    refine ⟨fun w' applied hw' => ?_, fun w' hw' => absurd hw' List.not_mem_nil⟩
    rw [inFlight] at hw'
    rcases List.mem_append.mp hw' with hw' | hw'
    · exact hs w' applied (herase hw')
    · exact absurd (List.mem_singleton.mp hw') (by simp)
  | @url _ _ _ _ w _ _ _ inFlight _ effects =>
    subst effects
    refine ⟨fun w' applied hw' => ?_, fun w' hw' => absurd hw' (by simp)⟩
    rw [inFlight] at hw'
    rcases List.mem_append.mp hw' with hw' | hw'
    · exact hs w' applied (herase hw')
    · rw [(Pending.write.inj (List.mem_singleton.mp hw')).1]
      exact hissued w (by simp)
  | @applied k w request inFlight _ effects =>
    subst effects
    have hw := hs w false (List.mem_of_getElem? request)
    refine ⟨fun w' applied hw' => ?_, fun w' hw' => ?_⟩
    · rw [inFlight] at hw'
      rcases List.mem_or_eq_of_mem_set hw' with hw' | hw'
      · exact hs w' applied hw'
      · rw [(Pending.write.inj hw').1]
        exact hw
    · rw [Effect.applied.inj (List.mem_singleton.mp hw')]
      exact hw

end NewPost

namespace Posts

/-- Every document is that of a dated post, under its id. -/
structure Stamped (s : Posts) : Prop where
  writes : ∀ i, (s.cubit i).WritesDated
  docs : ∀ id data, s.posts id = some data →
    ∃ w : NewPost.Write, w.Dated ∧ id = w.id ∧ data = w.post.toMap

theorem serve_cubit (i : Nat) (s : Posts) (x : NewPost.Effect) : (serve i s x).cubit = s.cubit := by
  cases x <;> rfl

theorem Stamped.serve {i : Nat} {s : Posts} (hs : s.Stamped) {x : NewPost.Effect}
    (hx : ∀ w, x = .applied w → w.Dated) : (serve i s x).Stamped := by
  refine { writes := fun j => ?_, docs := fun id data h => ?_ }
  · rw [serve_cubit]
    exact hs.writes j
  · cases x with
    | applied w =>
      have h : Function.update s.posts w.id (some w.post.toMap) id = some data := h
      by_cases heq : id = w.id
      · rw [heq, Function.update_self] at h
        exact ⟨w, hx w rfl, heq, (Option.some.inj h).symm⟩
      · rw [Function.update_of_ne heq] at h
        exact hs.docs id data h
    | _ => exact hs.docs id data h

theorem Stamped.serve_all {i : Nat} {o : List NewPost.Effect} :
    ∀ {s : Posts}, s.Stamped → (∀ w, NewPost.Effect.applied w ∈ o → w.Dated) →
      (o.foldl (Posts.serve i) s).Stamped := by
  induction o with
  | nil => exact fun hs _ => hs
  | cons x o ih =>
    intro s hs hdated
    refine ih (hs.serve fun w hw => ?_) fun w hw => hdated w (List.mem_cons_of_mem x hw)
    exact hdated w (hw ▸ List.mem_cons_self)

theorem step_stamped {s s' : Posts} {e : Event} {o : List (Nat × NewPost.Effect)}
    (hs : s.Stamped) (h : s.step e = some (s', o)) : s'.Stamped := by
  cases e with
  | cubit i e =>
    obtain ⟨⟨c, o₁⟩, hstep, heq⟩ := Option.map_eq_some_iff.mp h
    obtain ⟨rfl, rfl⟩ := Prod.mk.inj heq
    obtain ⟨hwrites, happlied⟩ := NewPost.step_writesDated (hs.writes i) hstep
    refine Stamped.serve_all { writes := fun j => ?_, docs := hs.docs } happlied
    show (Function.update s.cubit i c j).WritesDated
    by_cases hj : j = i
    · rw [hj, Function.update_self]
      exact hwrites
    · rw [Function.update_of_ne hj]
      exact hs.writes j
  | delete id =>
    obtain ⟨rfl, rfl⟩ := Prod.mk.inj (Option.some.inj h)
    refine { writes := hs.writes, docs := fun id' data hdata => ?_ }
    have hdata : Function.update s.posts id none id' = some data := hdata
    by_cases heq : id' = id
    · rw [heq, Function.update_self] at hdata
      exact absurd hdata (by simp)
    · rw [Function.update_of_ne heq] at hdata
      exact hs.docs id' data hdata

theorem run_stamped {es : List Event} {s : Posts} {o : List (Nat × NewPost.Effect)}
    (hrun : machine.run init es = some (s, o)) : s.Stamped := by
  refine Reactive.Machine.run_state_preserves (I := Stamped)
    (fun s e s' o hs h => step_stamped hs h) ?_ hrun
  exact { writes := fun i w applied hw => absurd hw List.not_mem_nil
          docs := fun id data h => absurd h (by simp [init]) }

/-! ## Queries -/

/-- The server has the document. -/
def Holds (s : Posts) (doc : QueryDoc) : Prop := s.posts doc.id = some doc.data

/-- Ids and texts are ordered by their bytes. -/
def textLt (a b : String) : Prop := Utf8.bytes a < Utf8.bytes b

theorem textLt_iff {a b : String} : textLt a b ↔ a < b := Utf8.bytes_lt_iff

/-- `event` answers `collection('posts')`, which is ordered by id. -/
def AllPosts (s : Posts) (event : QuerySnapshot) : Prop :=
  Reactive.Lists (fun a b => textLt a.id b.id) s.Holds event.docs

/-- `where("uid", isEqualTo: uId)`, where null is no condition. -/
def whereUid (uId : Option String) (doc : QueryDoc) : Bool :=
  uId = none ∨ doc.data.string "uid" = uId

/-- `orderBy('dateTime', descending: true)`.  Documents with one value are ordered by id,
and in the same direction. -/
def byDateTime (a b : QueryDoc) : Prop :=
  ∃ t t', a.data.string "dateTime" = some t ∧ b.data.string "dateTime" = some t' ∧
    (textLt t' t ∨ t' = t ∧ textLt b.id a.id)

/-- `event` answers the query of `getUserPosts`, which leaves documents without a
`dateTime` out. -/
def UserPosts (uId : Option String) (s : Posts) (event : QuerySnapshot) : Prop :=
  Reactive.Lists byDateTime
    (fun doc => (s.Holds doc ∧ whereUid uId doc = true) ∧ doc.data.string "dateTime" ≠ none)
    event.docs

instance : Std.Asymm fun a b : QueryDoc => textLt b.id a.id :=
  ⟨fun _ _ h h' => lt_asymm (textLt_iff.mp h) (textLt_iff.mp h')⟩

theorem Stamped.dateTime {s : Posts} (hs : s.Stamped) {doc : QueryDoc} (h : s.Holds doc) :
    doc.data.string "dateTime" = some doc.id := by
  obtain ⟨w, hdated, hid, hdata⟩ := hs.docs doc.id doc.data h
  rw [hdata, hid, ← hdated]
  exact Json.string_map (by simp [PostModel.toMap])

theorem Stamped.time {s : Posts} (hs : s.Stamped) {doc : QueryDoc} (h : s.Holds doc) :
    ∃ t : Time.DateTime, doc.id = t.toString := by
  obtain ⟨w, -, hid, -⟩ := hs.docs doc.id doc.data h
  exact ⟨w.now, hid⟩

/-- The query of the profile answers with the documents of the user, in the order of the
feed. -/
theorem Stamped.userPosts {s : Posts} (hs : s.Stamped) {uId : Option String}
    {event own : QuerySnapshot} (hevent : s.AllPosts event) (hown : s.UserPosts uId own) :
    own.docs = event.docs.reverse.filter (whereUid uId) := by
  have hall := Reactive.Lists.reverse hevent
  refine Reactive.Lists.unique (hown.congr (fun doc => ?_) fun a b ha hb hab => ?_)
    (hall.filter (whereUid uId))
  · refine and_iff_left_of_imp fun hdoc => ?_
    rw [hs.dateTime hdoc.1]
    simp
  · obtain ⟨t, t', ht, ht', horder⟩ := hab
    rw [hs.dateTime ha.1] at ht
    rw [hs.dateTime hb.1] at ht'
    obtain rfl := Option.some.inj ht
    obtain rfl := Option.some.inj ht'
    rcases horder with hlt | ⟨-, hlt⟩
    · exact hlt
    · exact hlt

/-! ## Screens -/

/-- Later local times come first. -/
def NewestFirst (ids : List String) : Prop :=
  ids.Pairwise fun a b =>
    ∃ t t' : Time.DateTime, a = t.toString ∧ b = t'.toString ∧ t'.micros < t.micros

theorem Stamped.newestFirst {s : Posts} (hs : s.Stamped) {event : QuerySnapshot}
    (hevent : s.AllPosts event) : NewestFirst (event.docs.reverse.map QueryDoc.id) := by
  have hall := Reactive.Lists.reverse hevent
  refine List.pairwise_map.mpr (hall.sorted.imp_of_mem fun {a b} ha hb hlt => ?_)
  obtain ⟨t, ht⟩ := hs.time ((hall.mem_iff a).mp ha)
  obtain ⟨t', ht'⟩ := hs.time ((hall.mem_iff b).mp hb)
  refine ⟨t, t', ht, ht', ?_⟩
  rw [← Time.DateTime.toString_lt_iff, ← ht, ← ht']
  exact textLt_iff.mp hlt

/-- What a row shows of the document of its post. -/
def ofDocument (post : PostModel) : PostModel :=
  { post with postUserImage := none, postUserName := none }

theorem docAt_reverse (event : QuerySnapshot) {i : Nat} (h : i < event.docs.length) :
    Home.docAt event i = event.docs.reverse[i]? := by
  rw [List.getElem?_reverse h]
  rfl

theorem range_docAt (event : QuerySnapshot) :
    (List.range event.docs.length).map (Home.docAt event) = event.docs.reverse.map some := by
  refine List.ext_getElem (by simp) fun i h _ => ?_
  have hi : i < event.docs.length := by simpa using h
  rw [List.getElem_map, List.getElem_range, docAt_reverse event hi, List.getElem_map]
  exact List.getElem?_eq_getElem (by simpa using hi)

theorem posts_ofDocument {docs : List QueryDoc} {posts : List PostModel}
    (h : List.Forall₂ (fun doc post => ∃ v, post = Home.postOf doc v) docs posts) :
    posts.map ofDocument = docs.map fun doc => ofDocument (PostModel.fromJson doc.data) := by
  induction h with
  | nil => rfl
  | cons hrow _ ih =>
    obtain ⟨v, rfl⟩ := hrow
    rw [List.map_cons, List.map_cons, ih]
    rfl

/-- The rows of the feed that shows a whole snapshot. -/
theorem feed_rows {event : QuerySnapshot} {home : Home}
    (h : Home.FeedIs event (List.range event.docs.length) home) :
    home.postId = event.docs.reverse.map QueryDoc.id ∧
      home.posts.map ofDocument =
        event.docs.reverse.map fun doc => ofDocument (PostModel.fromJson doc.data) := by
  constructor
  · have hids := h.postId
    have hmap : (List.range event.docs.length).map
        (fun i => (Home.docAt event i).map QueryDoc.id) =
        (event.docs.reverse.map QueryDoc.id).map some := by
      have hcongr := congrArg (List.map (Option.map QueryDoc.id)) (range_docAt event)
      rw [List.map_map, List.map_map] at hcongr
      rw [List.map_map]
      exact hcongr
    rw [hmap] at hids
    exact List.map_injective_iff.mpr (Option.some_injective _) hids
  · have hposts : List.Forall₂ (fun o post => ∃ doc v, o = some doc ∧ post = Home.postOf doc v)
        ((List.range event.docs.length).map (Home.docAt event)) home.posts :=
      List.forall₂_map_left_iff.mpr h.posts
    rw [range_docAt, List.forall₂_map_left_iff] at hposts
    refine posts_ofDocument (hposts.imp fun doc post hrow => ?_)
    obtain ⟨doc', v, hdoc, hpost⟩ := hrow
    rw [Option.some.inj hdoc]
    exact ⟨v, hpost⟩

/-- Two queries of one state of the server, in every run of posts and deletes: when the
feed shows a whole snapshot, the profile shows those of its rows that are the user's, in
the same order and with the same documents, and both are listed from the latest local
time on. -/
theorem profile_is_own_feed {es : List Event} {s : Posts} {o : List (Nat × NewPost.Effect)}
    {event own : QuerySnapshot} {uId : Option String} {home : Home} (p : Profile)
    (hrun : machine.run init es = some (s, o)) (hevent : s.AllPosts event)
    (hown : s.UserPosts uId own)
    (hhome : Home.FeedIs event (List.range event.docs.length) home) :
    ((p.onUserPosts own).1.posts.map ofDocument).zip (p.onUserPosts own).1.postId =
        ((home.posts.map ofDocument).zip home.postId).filter
          (fun row => uId = none ∨ row.1.uid = uId) ∧
      NewestFirst home.postId ∧ NewestFirst (p.onUserPosts own).1.postId := by
  have hs := run_stamped hrun
  have hdocs := hs.userPosts hevent hown
  obtain ⟨hids, hposts⟩ := feed_rows hhome
  have hnewest := hs.newestFirst hevent
  refine ⟨?_, hids ▸ hnewest, ?_⟩
  · show ((own.docs.map fun doc => PostModel.fromJson doc.data).map ofDocument).zip
      (own.docs.map QueryDoc.id) = _
    rw [hids, hposts, hdocs, List.map_map, List.zip_map', List.zip_map', List.filter_map]
    rfl
  · show NewestFirst (own.docs.map QueryDoc.id)
    rw [hdocs]
    exact hnewest.sublist (List.filter_sublist.map QueryDoc.id)

/-- One second later. -/
def later : Time.DateTime := ⟨1000000, by decide⟩

/-- Ann posts, and then Bob does. -/
def annAndBob : List Event :=
  [.cubit 0 (.edit "hello"), .cubit 0 (.post (some (user "ann")) (some "ann") .zero),
    .cubit 0 (.applied 0), .cubit 1 (.edit "hi"),
    .cubit 1 (.post (some (user "bob")) (some "bob") later), .cubit 1 (.applied 0)]

def posted (now : Time.DateTime) (uid text : String) : QueryDoc :=
  { id := now.toString
    data := PostModel.toMap
      { postImage := some "", postUserImage := none, postUserName := none
        dateTime := some now.toString, text := some text, uid := some uid } }

theorem annAndBob_holds {s : Posts} {o : List (Nat × NewPost.Effect)}
    (hrun : machine.run init annAndBob = some (s, o)) (doc : QueryDoc) :
    doc ∈ [posted .zero "ann" "hello", posted later "bob" "hi"] ↔ s.Holds doc := by
  obtain ⟨rfl, rfl⟩ := Prod.mk.inj (Option.some.inj hrun)
  have hne : Time.DateTime.zero.toString ≠ later.toString := by decide
  constructor
  · intro h
    rcases List.mem_cons.mp h with rfl | h
    · rfl
    · rw [List.mem_singleton.mp h]
      rfl
  · intro h
    obtain ⟨id, data⟩ := doc
    by_cases hlater : id = later.toString
    · subst hlater
      obtain rfl := Option.some.inj h
      exact List.mem_cons_of_mem _ (List.mem_singleton.mpr rfl)
    · by_cases hzero : id = Time.DateTime.zero.toString
      · subst hzero
        obtain rfl := Option.some.inj h
        exact List.mem_cons_self
      · have h : Function.update (Function.update (fun _ => none) Time.DateTime.zero.toString _)
            later.toString _ id = some data := h
        rw [Function.update_of_ne hlater, Function.update_of_ne hzero] at h
        exact absurd h (by simp)

theorem profile_is_own_feed_annAndBob :
    ∃ s o, machine.run init annAndBob = some (s, o) ∧
      NewestFirst [later.toString, Time.DateTime.zero.toString] := by
  refine ⟨_, _, rfl, ?_⟩
  have hlt : textLt Time.DateTime.zero.toString later.toString :=
    textLt_iff.mpr (Time.DateTime.toString_lt (by decide))
  have hnodup : ([posted .zero "ann" "hello", posted later "bob" "hi"].map QueryDoc.id).Nodup :=
    List.nodup_cons.mpr ⟨fun h => absurd (List.mem_singleton.mp h) (by decide), by simp⟩
  exact (@profile_is_own_feed annAndBob _ _
    { docs := [posted .zero "ann" "hello", posted later "bob" "hi"], nodup := hnodup }
    { docs := [posted .zero "ann" "hello"], nodup := by simp } (some "ann")
    { Home.init none with
      posts := [Home.postOf (posted later "bob" "hi") (user "bob"),
        Home.postOf (posted .zero "ann" "hello") (user "ann")]
      postId := [later.toString, Time.DateTime.zero.toString] }
    (Profile.init none) rfl
    { mem_iff := annAndBob_holds rfl
      sorted := List.pairwise_pair.mpr hlt }
    { mem_iff := fun doc => by
        rw [← annAndBob_holds rfl]
        constructor
        · intro h
          rw [List.mem_singleton.mp h]
          exact ⟨⟨List.mem_cons_self, by decide⟩, by decide⟩
        · rintro ⟨⟨h, huid⟩, -⟩
          rcases List.mem_cons.mp h with rfl | h
          · exact List.mem_cons_self
          · rw [List.mem_singleton.mp h] at huid
            exact absurd huid (by decide)
      sorted := List.pairwise_singleton _ _ }
    { postId := rfl
      nodup := List.nodup_cons.mpr ⟨fun h => absurd (List.mem_singleton.mp h) (by decide), by simp⟩
      posts := .cons ⟨_, user "bob", rfl, rfl⟩ (.cons ⟨_, user "ann", rfl, rfl⟩ .nil) }).2.1

end Posts
end SocialApp
