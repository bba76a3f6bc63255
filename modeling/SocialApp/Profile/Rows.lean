import SocialApp.Profile.Screen

/-! # Which post a tap on the profile is for

A row shows one post, and a tap on it takes the id of the post from the list of
the feed.  It is for the post of the row exactly when the two lists have the same
id there. -/

namespace SocialApp
namespace Profile

open Home (removeAt removeAt_map removeAt_of_lt mem_of_mem_removeAt textPost loadTwoPosts)

/-- The post that a write or the comments screen is for. -/
def Effect.target : Effect → Option String
  | .home (.issue w) => some w.post
  | .commentsScreen postId _ => some postId
  | _ => none

/-- The row has no id in the list of the feed. -/
def Effect.misses : Effect → Bool
  | .home (.throws .postIdRange) => true
  | .throws .postIdRange => true
  | _ => false

/-- What a tap does, it does to the post `p`. -/
def Targets (o : List Effect) (p : String) : Prop :=
  ∀ x ∈ o, x.misses = false ∧ ∀ q, x.target = some q → q = p

/-- A tap on a row is for the post that the row displays. -/
def OnRow (s : Profile) (e : Event) (_ : Profile) (o : List Effect) : Prop :=
  ∀ i p, e.row = some i → s.postId[i]? = some p → Targets o p

/-- The feed has the id of the row at the index of the row, unless the tap is
refused: a delete of another user's post, a like before the likes are loaded, an
empty comment. -/
def Aligned (s : Profile) (e : Event) : Prop :=
  match e with
  | .delete i => ∀ m post, s.home.model = some m → s.posts[i]? = some post →
      m.uid = post.uid → s.home.postId[i]? = s.postId[i]?
  | .like i => (∀ id, s.home.postId[i]? = some id → s.home.myLikes id ≠ none) →
      s.home.postId[i]? = s.postId[i]?
  | .comments i => s.home.postId[i]? = s.postId[i]?
  | .comment i text _ => text ≠ "" → s.home.postId[i]? = s.postId[i]?
  | _ => True

theorem targets_nil (p : String) : Targets [] p := fun _ hx => absurd hx (by simp)

theorem targets_cons {x : Effect} {o : List Effect} {p : String} :
    Targets (x :: o) p ↔
      (x.misses = false ∧ ∀ q, x.target = some q → q = p) ∧ Targets o p := by
  rw [Targets, List.forall_mem_cons]
  exact Iff.rfl

theorem not_targets_of_misses {x : Effect} {o : List Effect} {p : String}
    (h : x.misses = true) : ¬ Targets (x :: o) p := by
  intro ht
  have hx := (targets_cons.mp ht).1.1
  rw [h] at hx
  exact absurd hx (by simp)

/-- An effect that is for no post and misses none changes nothing. -/
theorem targets_cons_none {x : Effect} {o : List Effect} {p : String}
    (hm : x.misses = false) (ht : x.target = none) : Targets (x :: o) p ↔ Targets o p := by
  rw [targets_cons]
  refine and_iff_right ⟨hm, fun q hq => ?_⟩
  rw [ht] at hq
  exact absurd hq (by simp)

theorem targets_cons_some {x : Effect} {o : List Effect} {p q : String}
    (hm : x.misses = false) (ht : x.target = some q) :
    Targets (x :: o) p ↔ q = p ∧ Targets o p := by
  rw [targets_cons]
  refine and_congr_left fun _ => ⟨fun h => h.2 q ht, fun h => ⟨hm, fun r hr => ?_⟩⟩
  rw [ht, Option.some.injEq] at hr
  rw [← hr, h]

/-! ## The delete button -/

theorem deletePost_cases (s : Profile) (index : Int) :
    removeAt s.posts index = none ∧ s.deletePost index = (s, [.throws .indexRange]) ∨
      ∃ posts, removeAt s.posts index = some posts ∧
        (removeAt s.postId index = none ∧
            s.deletePost index = ({ s with posts }, [.throws .indexRange]) ∨
          ∃ postId, removeAt s.postId index = some postId ∧
            s.deletePost index = ({ s with posts, postId }, [.emit .deleteUserPost])) := by
  unfold deletePost
  cases hposts : removeAt s.posts index with
  | none => exact Or.inl ⟨rfl, rfl⟩
  | some posts =>
    refine Or.inr ⟨posts, rfl, ?_⟩
    dsimp only
    cases hpostId : removeAt s.postId index with
    | none => exact Or.inl ⟨rfl, rfl⟩
    | some postId => exact Or.inr ⟨postId, rfl, rfl⟩

/-- The button refuses, or the row is of the user of `model` and the feed has no id
at its index, or has one and deletes it. -/
theorem rowDelete_cases (s : Profile) (index : Nat) :
    (∀ m post, s.home.model = some m → s.posts[index]? = some post → m.uid ≠ post.uid) ∧
        (∃ x : Effect, x.misses = false ∧ x.target = none ∧ s.rowDelete index = (s, [x])) ∨
      ∃ m post, s.home.model = some m ∧ s.posts[index]? = some post ∧ m.uid = post.uid ∧
        (s.home.postId[index]? = none ∧ s.rowDelete index = (s, [.throws .postIdRange]) ∨
          ∃ id, s.home.postId[index]? = some id ∧ s.rowDelete index =
            if threw (s.home.deletePost index id).2 then s.call (Home.deletePost index id)
            else (((s.call (Home.deletePost index id)).1.deletePost index).1,
              (s.call (Home.deletePost index id)).2 ++
                ((s.call (Home.deletePost index id)).1.deletePost index).2)) := by
  unfold rowDelete
  cases hm : s.home.model with
  | none => exact Or.inl ⟨fun m post h => absurd h (by simp), _, rfl, rfl, rfl⟩
  | some m =>
    cases hpost : s.posts[index]? with
    | none => exact Or.inl ⟨fun m post _ h => absurd h (by simp), _, rfl, rfl, rfl⟩
    | some post =>
      dsimp only
      by_cases huid : m.uid = post.uid
      · rw [if_pos huid]
        refine Or.inr ⟨m, post, rfl, rfl, huid, ?_⟩
        cases hid : s.home.postId[index]? with
        | none => exact Or.inl ⟨rfl, rfl⟩
        | some id => exact Or.inr ⟨id, rfl, rfl⟩
      · rw [if_neg huid]
        refine Or.inl ⟨fun m' post' hm' hpost' => ?_, _, rfl, rfl, rfl⟩
        rw [← Option.some.inj hm', ← Option.some.inj hpost']
        exact huid

/-! ## Taps -/

/-- A write alone is for the post that it is of. -/
theorem targets_issue {w : Home.Write} {p : String} :
    Targets [.home (.issue w)] p ↔ w.post = p :=
  (targets_cons_some rfl rfl).trans (and_iff_left (targets_nil p))

theorem rowLike_targets {s : Profile} {i : Nat} {p : String} :
    Targets (s.rowLike i).2 p ↔
      ((∀ id, s.home.postId[i]? = some id → s.home.myLikes id ≠ none) →
        s.home.postId[i]? = some p) := by
  show Targets ((s.home.rowLike i).2.map .home) p ↔ _
  rcases s.home.rowLike_cases i with ⟨hid, h⟩ | ⟨id, hid, ⟨hlike, h⟩ | ⟨b, hlike, h⟩⟩
  · rw [h, hid]
    constructor
    · intro ht
      exact absurd ht (not_targets_of_misses rfl)
    · intro ht
      exact absurd (ht fun id hid' => absurd hid' (by simp)) (by simp)
  · rw [h]
    constructor
    · intro _ hloaded
      exact absurd hlike (hloaded id hid)
    · intro _
      exact (targets_cons_none rfl rfl).mpr (targets_nil p)
  · have hloaded : ∀ id', s.home.postId[i]? = some id' → s.home.myLikes id' ≠ none := by
      intro id' hid'
      rw [hid, Option.some.injEq] at hid'
      rw [← hid', hlike]
      simp
    have hpost : (Home.likeWrite (!b) id s.home.uId).post = id := by
      cases b <;> rfl
    have hiff : Targets [.home (.issue (Home.likeWrite (!b) id s.home.uId))] p ↔ id = p := by
      rw [targets_issue, hpost]
    rw [h, hid, Option.some.injEq]
    rw [hid] at hloaded
    exact hiff.trans ⟨fun heq _ => heq, fun heq => heq hloaded⟩

theorem rowComment_targets {s : Profile} {i : Nat} {text now p : String} :
    Targets (s.rowComment i text now).2 p ↔ (text ≠ "" → s.home.postId[i]? = some p) := by
  show Targets ((s.home.rowComment i text now).2.map .home) p ↔ _
  rcases s.home.rowComment_cases i text now with
    ⟨htext, h⟩ | ⟨htext, ⟨hid, h⟩ | ⟨id, hid, h⟩⟩
  · rw [h]
    exact ⟨fun _ hne => absurd htext hne, fun _ => targets_nil p⟩
  · rw [h, hid]
    constructor
    · intro ht
      exact absurd ht (not_targets_of_misses rfl)
    · intro ht
      exact absurd (ht htext) (by simp)
  · have hiff := @targets_issue (.addComment id (.ofText s.home.uId (some text) (some now))) p
    rw [h, hid, Option.some.injEq]
    exact hiff.trans ⟨fun heq _ => heq, fun heq => heq htext⟩

theorem rowComments_targets {s : Profile} {i : Nat} {p : String} :
    Targets (s.rowComments i).2 p ↔ s.home.postId[i]? = some p := by
  unfold rowComments
  cases hid : s.home.postId[i]? with
  | none =>
    constructor
    · intro h
      exact absurd h (not_targets_of_misses rfl)
    · intro h
      exact absurd h (by simp)
  | some id =>
    rw [Option.some.injEq]
    exact (targets_cons_some rfl rfl).trans (and_iff_left (targets_nil p))

/-- An index of `postId` is one of `posts`, so the feed removes the row and sends
the delete. -/
theorem deletePost_of_paired {s : Home} {index : Nat} {id : String}
    (hpair : s.posts.length = s.postId.length) (hid : s.postId[index]? = some id) :
    (s.deletePost index id).2 = [.issue (.deletePost id)] := by
  have hlt := (List.getElem?_eq_some_iff.mp hid).1
  have hposts := @removeAt_of_lt _ s.posts index (by omega)
  have hpostId := removeAt_of_lt hlt
  unfold Home.deletePost
  rw [hposts]
  dsimp only
  rw [hpostId]
  rfl

theorem deletePost_targets (s : Profile) (index : Int) (p : String) :
    Targets (s.deletePost index).2 p := by
  rcases s.deletePost_cases index with ⟨_, h⟩ | ⟨posts, _, ⟨_, h⟩ | ⟨postId, _, h⟩⟩
  all_goals
    rw [h]
    exact (targets_cons_none rfl rfl).mpr (targets_nil p)

theorem rowDelete_targets {s : Profile} {i : Nat} {p : String}
    (hpair : s.home.posts.length = s.home.postId.length) :
    Targets (s.rowDelete i).2 p ↔
      ∀ m post, s.home.model = some m → s.posts[i]? = some post → m.uid = post.uid →
        s.home.postId[i]? = some p := by
  rcases s.rowDelete_cases i with
    ⟨hrefused, x, hmiss, htarget, h⟩ | ⟨m, post, hm, hpost, huid, ⟨hid, h⟩ | ⟨id, hid, h⟩⟩
  · rw [h]
    constructor
    · intro _ m post hm hpost huid
      exact absurd huid (hrefused m post hm hpost)
    · intro _
      exact (targets_cons_none hmiss htarget).mpr (targets_nil p)
  · rw [h, hid]
    constructor
    · intro ht
      exact absurd ht (not_targets_of_misses rfl)
    · intro hall
      exact absurd (hall m post hm hpost huid) (by simp)
  · have heffects := deletePost_of_paired hpair hid
    have hthrew : threw (s.home.deletePost i id).2 = false := by
      rw [heffects]
      rfl
    have hcall : (s.call (Home.deletePost i id)).2 = [.home (.issue (.deletePost id))] := by
      show (s.home.deletePost i id).2.map Effect.home = _
      rw [heffects]
      rfl
    rw [h, hthrew, if_neg (by simp), hcall, List.singleton_append, targets_cons_some rfl rfl,
      and_iff_left (deletePost_targets _ _ p), hid, Option.some.injEq]
    exact ⟨fun heq m' post' _ _ _ => heq, fun hall => hall m post hm hpost huid⟩

/-! ## Runs -/

/-- `doc` is in a result of the query for the user's posts. -/
def Delivered (es : List Event) (doc : QueryDoc) : Prop :=
  ∃ event, .userPosts event ∈ es ∧ doc ∈ event.docs

/-- The feed has an id for each post, and the rows of the profile are documents
that its query delivered. -/
structure Loaded (es : List Event) (s : Profile) : Prop where
  paired : s.home.posts.length = s.home.postId.length
  rows : ∃ docs : List QueryDoc, (∀ doc ∈ docs, Delivered es doc) ∧
    s.posts = docs.map (fun doc => PostModel.fromJson doc.data) ∧
    s.postId = docs.map QueryDoc.id

theorem init_loaded (es : List Event) (u : Option String) : Loaded es (init u) :=
  { paired := rfl, rows := ⟨[], by simp, rfl, rfl⟩ }

theorem deletePost_home (s : Profile) (index : Int) :
    (s.deletePost index).1.home = s.home := by
  rcases s.deletePost_cases index with ⟨_, h⟩ | ⟨posts, _, ⟨_, h⟩ | ⟨postId, _, h⟩⟩
  all_goals rw [h]

/-- The two lists of the profile lose the same row, or none. -/
theorem deletePost_rows {es : List Event} {s : Profile} (index : Int) {docs : List QueryDoc}
    (hdel : ∀ doc ∈ docs, Delivered es doc)
    (hposts : s.posts = docs.map fun doc => PostModel.fromJson doc.data)
    (hpostId : s.postId = docs.map QueryDoc.id) :
    ∃ docs' : List QueryDoc, (∀ doc ∈ docs', Delivered es doc) ∧
      (s.deletePost index).1.posts = docs'.map (fun doc => PostModel.fromJson doc.data) ∧
      (s.deletePost index).1.postId = docs'.map QueryDoc.id := by
  rcases s.deletePost_cases index with ⟨_, h⟩ | ⟨posts, hp, ⟨hi, h⟩ | ⟨postId, hi, h⟩⟩
  · rw [h]
    exact ⟨docs, hdel, hposts, hpostId⟩
  · -- both lists are images of `docs`, so the index is in range for both or none
    rw [hposts, removeAt_map] at hp
    obtain ⟨docs', hdocs', _⟩ := Option.map_eq_some_iff.mp hp
    rw [hpostId, removeAt_map, hdocs'] at hi
    exact absurd hi (by simp)
  · rw [hposts, removeAt_map] at hp
    obtain ⟨docs', hdocs', hposts'⟩ := Option.map_eq_some_iff.mp hp
    rw [hpostId, removeAt_map, hdocs', Option.map_some, Option.some.injEq] at hi
    rw [h]
    exact ⟨docs', fun doc hdoc => hdel doc (mem_of_mem_removeAt hdocs' hdoc),
      hposts'.symm, hi.symm⟩

theorem call_loaded {es : List Event} {s : Profile} {e : Home.Event}
    {f : Home → Home × List Home.Effect} (hs : Loaded es s)
    (hf : s.home.step e = some (f s.home)) : Loaded es (s.call f).1 :=
  { paired := Home.step_paired hs.paired hf, rows := hs.rows }

theorem rowDelete_loaded {es : List Event} {s : Profile} (index : Nat) (hs : Loaded es s) :
    Loaded es (s.rowDelete index).1 := by
  rcases s.rowDelete_cases index with
    ⟨_, x, _, _, h⟩ | ⟨m, post, _, _, _, ⟨_, h⟩ | ⟨id, _, h⟩⟩
  · rw [h]
    exact hs
  · rw [h]
    exact hs
  · have hcall : Loaded es (s.call (Home.deletePost index id)).1 :=
      call_loaded (e := .deletePost index id) hs rfl
    rw [h]
    split
    · exact hcall
    · obtain ⟨docs, hdel, hposts, hpostId⟩ := hcall.rows
      refine { paired := ?_, rows := deletePost_rows index hdel hposts hpostId }
      rw [deletePost_home]
      exact hcall.paired

theorem step_loaded {es : List Event} {s s' : Profile} {e : Event} {o : List Effect}
    (hs : Loaded es s) (he : e ∈ es) (h : s.handle e = some (s', o)) : Loaded es s' := by
  have hret : ∀ {r : Profile × List Effect}, some r = some (s', o) → Loaded es r.1 →
      Loaded es s' := by
    intro r hr hl
    rwa [Option.some.inj hr] at hl
  cases e with
  | home e =>
    obtain ⟨r, hr, heq⟩ := Option.map_eq_some_iff.mp h
    refine hret (congrArg some heq) { paired := Home.step_paired hs.paired hr, rows := hs.rows }
  | opened => exact hret h { paired := hs.paired, rows := ⟨[], by simp, rfl, rfl⟩ }
  | userPosts event =>
    refine hret h { paired := hs.paired, rows := ⟨event.docs, fun doc hdoc => ?_, rfl, rfl⟩ }
    exact ⟨event, he, hdoc⟩
  | logout => exact hret h (call_loaded (e := .logout) hs rfl)
  | delete index => exact hret h (rowDelete_loaded index hs)
  | like index => exact hret h (call_loaded (e := .rowLike index) hs rfl)
  | comments index =>
    apply hret h
    unfold rowComments
    split <;> exact hs
  | comment index text now => exact hret h (call_loaded (e := .rowComment index text now) hs rfl)

theorem step_handle {s s' : Profile} {e : Event} {o : List Effect}
    (h : s.step e = some (s', o)) :
    (∀ i, e.row = some i → i < s.posts.length) ∧ s.handle e = some (s', o) := by
  unfold step at h
  split at h
  · rename_i hrow
    exact ⟨hrow, h⟩
  · exact absurd h (by simp)

/-- A tap is for the post that its row displays exactly when the feed has the id
of this post at the same index. -/
theorem onRow_iff {es : List Event} {s s' : Profile} {e : Event} {o : List Effect}
    (hs : Loaded es s) (h : s.step e = some (s', o)) : OnRow s e s' o ↔ Aligned s e := by
  obtain ⟨hrow, hhandle⟩ := step_handle h
  obtain ⟨docs, _, hposts, hpostId⟩ := hs.rows
  have hid : ∀ i, e.row = some i → ∃ p, s.postId[i]? = some p := by
    intro i hi
    have hlt := hrow i hi
    rw [hposts, List.length_map] at hlt
    exact ⟨_, List.getElem?_eq_getElem (by rw [hpostId, List.length_map]; exact hlt)⟩
  -- the tap of row `i` which shows `p`, with what its handler does
  have hiff : ∀ {i p} {r : Profile × List Effect}, e.row = some i → s.postId[i]? = some p →
      some r = some (s', o) → (OnRow s e s' o ↔ Targets r.2 p) := by
    intro i p r hi hp hr
    rw [Option.some.inj hr]
    refine ⟨fun hon => hon i p hi hp, fun ht j q hj hq => ?_⟩
    rw [hi, Option.some.injEq] at hj
    rw [← hj, hp, Option.some.injEq] at hq
    rw [← hq]
    exact ht
  have htrue : e.row = none → OnRow s e s' o := by
    intro hnone i p hi
    rw [hnone] at hi
    exact absurd hi (by simp)
  cases e with
  | home e => exact ⟨fun _ => trivial, fun _ => htrue rfl⟩
  | opened => exact ⟨fun _ => trivial, fun _ => htrue rfl⟩
  | userPosts event => exact ⟨fun _ => trivial, fun _ => htrue rfl⟩
  | logout => exact ⟨fun _ => trivial, fun _ => htrue rfl⟩
  | delete i =>
    obtain ⟨p, hp⟩ := hid i rfl
    rw [hiff rfl hp hhandle, rowDelete_targets hs.paired, Aligned, hp]
  | like i =>
    obtain ⟨p, hp⟩ := hid i rfl
    rw [hiff rfl hp hhandle, rowLike_targets, Aligned, hp]
  | comments i =>
    obtain ⟨p, hp⟩ := hid i rfl
    rw [hiff rfl hp hhandle, rowComments_targets, Aligned, hp]
  | comment i text now =>
    obtain ⟨p, hp⟩ := hid i rfl
    rw [hiff rfl hp hhandle, rowComment_targets, Aligned, hp]

/-- A delete from the profile is of a document that its query delivered, and whose
author is the user of `model`. -/
def OwnDelete (es : List Event) (s : Profile) (e : Event) (_ : Profile) (o : List Effect) :
    Prop :=
  ∀ i id, e = .delete i → .home (.issue (.deletePost id)) ∈ o →
    ∃ m doc, s.home.model = some m ∧ Delivered es doc ∧ doc.id = id ∧
      doc.data.string "uid" = m.uid

/-- The delete button acts only on a row of the user of `model`. -/
theorem rowDelete_issues {s : Profile} {i : Nat} {w : Home.Write}
    (h : .home (.issue w) ∈ (s.rowDelete i).2) :
    ∃ m post, s.home.model = some m ∧ s.posts[i]? = some post ∧ m.uid = post.uid := by
  rcases s.rowDelete_cases i with ⟨_, x, _, htarget, hr⟩ | ⟨m, post, hm, hpost, huid, _⟩
  · rw [hr, List.mem_singleton] at h
    rw [← h] at htarget
    exact absurd htarget (by simp [Effect.target])
  · exact ⟨m, post, hm, hpost, huid⟩

theorem OnRow.ownDelete {es : List Event} {s s' : Profile} {e : Event} {o : List Effect}
    (hs : Loaded es s) (h : s.handle e = some (s', o)) (hon : OnRow s e s' o) :
    OwnDelete es s e s' o := by
  rintro i id rfl hissue
  obtain ⟨docs, hdel, hposts, hpostId⟩ := hs.rows
  have hissue' : .home (.issue (.deletePost id)) ∈ (s.rowDelete i).2 := by
    rw [Option.some.inj h]
    exact hissue
  obtain ⟨m, post, hm, hpost, huid⟩ := rowDelete_issues hissue'
  rw [hposts, List.getElem?_map, Option.map_eq_some_iff] at hpost
  obtain ⟨doc, hdoc, rfl⟩ := hpost
  have hrow : s.postId[i]? = some doc.id := by
    rw [hpostId, List.getElem?_map, hdoc]
    rfl
  have hid : id = doc.id := (hon i doc.id rfl hrow _ hissue).2 id rfl
  exact ⟨m, doc, hm, hdel doc (List.mem_of_getElem? hdoc), hid.symm, huid.symm⟩

/-- Along a run every tap on a row of the profile is for the post that the row
displays, and every delete of a post of the user, exactly when at each tap that is
not refused the feed has the id of the row at the index of the row. -/
theorem taps_are_of_their_row_iff (u : Option String) (es : List Event) :
    machine.Every (fun s e s' o => OnRow s e s' o ∧ OwnDelete es s e s' o) (init u) es ↔
      machine.Every (fun s e _ _ => Aligned s e) (init u) es := by
  refine Reactive.Machine.every_iff_of (H := fun _ e _ _ => e ∈ es) ?_ (init_loaded es u)
    (Reactive.Machine.every_of_forall (fun _ _ _ _ h => h) (fun e he => he) (init u))
  intro s e s' o hs hstep he
  have hhandle := (step_handle hstep).2
  refine ⟨⟨fun h => (onRow_iff hs hstep).mp h.1, fun h => ?_⟩,
    fun _ => step_loaded hs he hhandle⟩
  have hon := (onRow_iff hs hstep).mpr h
  exact ⟨hon, hon.ownDelete hs hhandle⟩

/-- ann's only post, as the query for her posts delivers it. -/
def postsOfAnn : QuerySnapshot :=
  { docs := [textPost "2022-01-01" "ann" "hello"], nodup := by decide }

/-- The feed shows a newer post of bob before the post of ann, and ann's delete of
the first row of her profile deletes bob's post. -/
theorem delete_of_other_post :
    ¬ machine.Every (fun s e s' o => OnRow s e s' o ∧
        OwnDelete (loadTwoPosts.map .home ++ [.opened, .userPosts postsOfAnn, .delete 0]) s e s' o)
      (init none)
      (loadTwoPosts.map .home ++ [.opened, .userPosts postsOfAnn, .delete 0]) := by
  intro h
  have hlast := Reactive.Machine.every_append (M := machine)
    (a := loadTwoPosts.map .home ++ [.opened, .userPosts postsOfAnn]) rfl h
  have hon := (hlast _ _ rfl).1.1
  have htargets := hon 0 "2022-01-01" rfl rfl
  have hid := (htargets (.home (.issue (.deletePost "2022-01-02"))) (by decide)).2 _ rfl
  exact absurd hid (by decide)

end Profile
end SocialApp
