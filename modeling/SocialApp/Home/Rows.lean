import SocialApp.Home.Step

/-! # Posts and their ids stay paired

`posts` and `postId` are two lists, reset and filled and shortened by different
callbacks.  At every moment of every run they are the two halves of one list of
loaded documents, which is what the delete button of a row relies on. -/

namespace SocialApp
namespace Home

/-- `doc` is in a snapshot that one of the events delivers. -/
def Delivered (es : List Event) (doc : QueryDoc) : Prop :=
  ∃ event, .snapshot event ∈ es ∧ doc ∈ event.docs

/-- The rows are delivered documents, each with the author its lookup found. -/
structure Loaded (es : List Event) (s : Home) : Prop where
  rows : ∃ rows : List (QueryDoc × LoginModel), (∀ r ∈ rows, Delivered es r.1) ∧
    s.posts = rows.map (fun r => postOf r.1 r.2) ∧ s.postId = rows.map (fun r => r.1.id)
  authors : ∀ a ∈ s.authors, .snapshot a.2.1 ∈ es

theorem removeAt_map {α β : Type} (f : α → β) (xs : List α) (index : Int) :
    removeAt (xs.map f) index = (removeAt xs index).map (List.map f) := by
  unfold removeAt
  rw [List.length_map]
  by_cases h : 0 ≤ index ∧ index < xs.length
  · rw [if_pos h, if_pos h, Option.map_some]
    simp only [List.eraseIdx_eq_take_drop_succ, List.map_append, List.map_take, List.map_drop]
  · rw [if_neg h, if_neg h, Option.map_none]

theorem removeAt_of_lt {α : Type} {xs : List α} {index : Nat} (h : index < xs.length) :
    removeAt xs (index : Int) = some (xs.eraseIdx index) := by
  unfold removeAt
  rw [if_pos (by omega)]
  rfl

theorem mem_of_mem_removeAt {α : Type} {xs ys : List α} {index : Int} {x : α}
    (h : removeAt xs index = some ys) (hx : x ∈ ys) : x ∈ xs := by
  unfold removeAt at h
  by_cases hr : 0 ≤ index ∧ index < xs.length
  · rw [if_pos hr] at h
    rw [← Option.some.inj h] at hx
    exact List.mem_of_mem_eraseIdx hx
  · rw [if_neg hr] at h
    exact absurd h (by simp)

theorem docAt_mem {event : QuerySnapshot} {i : Nat} {doc : QueryDoc}
    (h : docAt event i = some doc) : doc ∈ event.docs := List.mem_of_getElem? h

theorem init_loaded (es : List Event) (u : Option String) : Loaded es (init u) :=
  { rows := ⟨[], by simp, rfl, rfl⟩
    authors := by simp [authors, init] }

theorem step_loaded {es : List Event} {s s' : Home} {e : Event} {o : List Effect}
    (hs : Loaded es s) (he : e ∈ es) (h : step s e = some (s', o)) : Loaded es s' := by
  obtain ⟨rows, hdel, hposts, hpostId⟩ := hs.rows
  cases step_rows h with
  | same _ posts postId authors _ _ =>
    exact { rows := ⟨rows, hdel, posts.trans hposts, postId.trans hpostId⟩
            authors := authors ▸ hs.authors }
  | snapshot posts postId authors _ _ =>
    refine { rows := ⟨[], by simp, posts, postId⟩, authors := ?_ }
    intro a ha
    rw [authors] at ha
    rcases List.mem_append.mp ha with ha | ha
    · exact hs.authors a ha
    · obtain ⟨i, _, rfl⟩ := List.mem_map.mp ha
      exact he
  | @author k data n event i uid added rest _ posts postId authors _ _ _ hadded =>
    have hmem : (n, event, i, uid) ∈ s.authors := authors.mem_iff.mp List.mem_cons_self
    refine { rows := ?_, authors := fun a ha => ?_ }
    · cases added with
      | none =>
        refine ⟨rows, hdel, ?_, ?_⟩
        · rw [posts, hposts]; simp
        · rw [postId, hpostId]; simp
      | some p =>
        obtain ⟨doc, hdoc, hp⟩ := Option.bind_eq_some_iff.mp hadded.symm
        obtain ⟨v, _, rfl⟩ := Option.map_eq_some_iff.mp hp
        refine ⟨rows ++ [(doc, v)], ?_, ?_, ?_⟩
        · intro r hr
          rcases List.mem_append.mp hr with hr | hr
          · exact hdel r hr
          · rw [List.mem_singleton.mp hr]
            exact ⟨event, hs.authors _ hmem, docAt_mem hdoc⟩
        · rw [posts, hposts]; simp
        · rw [postId, hpostId]; simp
    · exact hs.authors a (authors.mem_iff.mp (List.mem_cons_of_mem _ ha))
  | removed _ posts postId authors _ _ =>
    -- both lists are images of `rows`, so the index is in range for both or none
    rw [hposts, removeAt_map] at posts
    obtain ⟨rows', hrows', hposts'⟩ := Option.map_eq_some_iff.mp posts
    rw [hpostId, removeAt_map, hrows'] at postId
    rcases postId with hpostId' | ⟨hnone, _⟩
    · refine { rows := ⟨rows', fun r hr => hdel r (mem_of_mem_removeAt hrows' hr),
                hposts'.symm, (Option.some.inj hpostId').symm⟩
               authors := authors ▸ hs.authors }
    · exact absurd hnone (by simp)

theorem run_loaded {es : List Event} {u : Option String} {s : Home} {o : List Effect}
    (hrun : machine.run (init u) es = some (s, o)) : Loaded es s := by
  refine Reactive.Machine.run_state_invariant (M := machine) (I := Loaded es)
    (Q := fun _ e _ _ => e ∈ es) ?_ (init_loaded es u) ?_ hrun
  · intro s e s' o hs hstep he
    exact step_loaded hs he hstep
  · exact Reactive.Machine.every_of_forall (fun _ _ _ _ h => h) (fun e he => he) _

/-- From any state with as many ids as posts, a step leads to one. -/
theorem step_paired {s s' : Home} {e : Event} {o : List Effect}
    (hs : s.posts.length = s.postId.length) (h : step s e = some (s', o)) :
    s'.posts.length = s'.postId.length := by
  cases step_rows h with
  | same _ posts postId _ _ _ => rw [posts, postId, hs]
  | snapshot posts postId _ _ _ => rw [posts, postId]; rfl
  | @author k data n event i uid added rest _ posts postId _ _ _ _ _ =>
    rw [posts, postId, List.length_append, List.length_append, hs]
    cases added <;> rfl
  | @removed _ index _ posts postId _ _ _ =>
    unfold removeAt at posts postId
    by_cases hr : 0 ≤ index ∧ index < s.posts.length
    · rw [if_pos hr] at posts
      rw [if_pos (by omega), Option.some.injEq] at postId
      have hlen := List.length_eraseIdx_of_lt (l := s.posts) (i := index.toNat) (by omega)
      have hlen' := List.length_eraseIdx_of_lt (l := s.postId) (i := index.toNat) (by omega)
      rcases postId with hpostId | ⟨hnone, _⟩
      · rw [← Option.some.inj posts, ← hpostId]
        omega
      · exact absurd hnone (by simp)
    · rw [if_neg hr] at posts
      exact absurd posts (by simp)

theorem deletePost_issues {s : Home} {index : Int} {postid : String} {w : Write}
    (h : .issue w ∈ (s.deletePost index postid).2) : w = .deletePost postid := by
  rcases deletePost_cases s index postid with ⟨_, hr⟩ | ⟨posts, _, ⟨_, hr⟩ | ⟨postId, _, hr⟩⟩
  · rw [hr] at h
    simp at h
  · rw [hr] at h
    simp at h
  · rw [hr] at h
    simpa [issue] using h

/-- A delete that a row issues is of the id and the post at its own index. -/
theorem rowDelete_issues {s : Home} {index : Nat} {id : String}
    (h : .issue (.deletePost id) ∈ (s.rowDelete index).2) :
    ∃ m post, s.model = some m ∧ s.posts[index]? = some post ∧
      s.postId[index]? = some id ∧ post.uid = m.uid := by
  rcases rowDelete_cases s index with ⟨x, hx, hr⟩ | ⟨m, post, id', hm, hpost, huid, hid, hr⟩
  · rw [hr] at h
    rcases hx with ⟨e, rfl⟩ | ⟨msg, n, rfl⟩
    · simp at h
    · simp at h
  · rw [hr] at h
    have hw := Write.deletePost.inj (deletePost_issues h)
    exact ⟨m, post, hm, hpost, hw ▸ hid, huid.symm⟩

/-- At every moment of every run a post and the id at its index are of one
delivered document, so a delete from a row of the home screen is of a document
whose loaded author is the user of `model`. -/
theorem rows_are_of_one_document {u : Option String} {es : List Event} {s : Home}
    {o : List Effect} (hrun : machine.run (init u) es = some (s, o)) :
    s.posts.length = s.postId.length ∧
    (∀ (i : Nat) (post : PostModel) (id : String), s.posts[i]? = some post →
      s.postId[i]? = some id → ∃ doc, Delivered es doc ∧ doc.id = id ∧
        post.uid = doc.data.string "uid" ∧ post.text = doc.data.string "text" ∧
        post.dateTime = doc.data.string "dateTime" ∧
        post.postImage = doc.data.string "postImage") ∧
    ∀ index s' o' id, machine.step s (.rowDelete index) = some (s', o') →
      .issue (.deletePost id) ∈ o' →
      ∃ m doc, s.model = some m ∧ Delivered es doc ∧ doc.id = id ∧
        doc.data.string "uid" = m.uid := by
  obtain ⟨rows, hdel, hposts, hpostId⟩ := (run_loaded hrun).rows
  have hpair : ∀ (i : Nat) (post : PostModel) (id : String), s.posts[i]? = some post →
      s.postId[i]? = some id → ∃ doc v, Delivered es doc ∧ doc.id = id ∧ post = postOf doc v := by
    intro i post id hpost hid
    rw [hposts, List.getElem?_map, Option.map_eq_some_iff] at hpost
    obtain ⟨r, hr, rfl⟩ := hpost
    rw [hpostId, List.getElem?_map, hr] at hid
    exact ⟨r.1, r.2, hdel r (List.mem_of_getElem? hr), Option.some.inj hid, rfl⟩
  refine ⟨?_, ?_, ?_⟩
  · rw [hposts, hpostId, List.length_map, List.length_map]
  · intro i post id hpost hid
    obtain ⟨doc, v, hdoc, hdocid, rfl⟩ := hpair i post id hpost hid
    exact ⟨doc, hdoc, hdocid, rfl, rfl, rfl, rfl⟩
  · intro index s' o' id hstep hmem
    simp only [machine, step, Option.some.injEq] at hstep
    have ho : o' = (s.rowDelete index).2 := (congrArg Prod.snd hstep).symm
    rw [ho] at hmem
    obtain ⟨m, post, hm, hpost, hid, huid⟩ := rowDelete_issues hmem
    obtain ⟨doc, v, hdoc, hdocid, rfl⟩ := hpair index post id hpost hid
    exact ⟨m, doc, hm, hdoc, hdocid, huid⟩

/-! ## A feed of two posts -/

/-- The profile with which `createUserRegister` starts an account. -/
def userOf (uid : String) : LoginModel :=
  { name := some uid, phone := some "0100", email := some uid, uid := some uid,
    image := some "user.jpg", cover := some "cover.jpg", bio := some "write some bio......",
    isEmailVarified := some false }

def textPost (id uid text : String) : QueryDoc :=
  { id, data := PostModel.toMap
      { postImage := some "", postUserImage := some "user.jpg", postUserName := some uid,
        dateTime := some id, text := some text, uid := some uid } }

/-- A post of ann, and a newer one of bob. -/
def twoPosts : QuerySnapshot :=
  { docs := [textPost "2022-01-01" "ann" "hello", textPost "2022-01-02" "bob" "hi"],
    nodup := by decide }

/-- ann logs in and both author lookups succeed, the newer post's first. -/
def loadTwoPosts : List Event :=
  [.login "ann", .snapshot twoPosts, .userData 0 (some (userOf "ann").toMap),
    .author 0 (some (userOf "bob").toMap), .author 0 (some (userOf "ann").toMap)]

theorem rows_are_of_one_document_twoPosts :
    ∃ s o, machine.run (init none) loadTwoPosts = some (s, o) ∧
      s.postId = ["2022-01-02", "2022-01-01"] ∧ s.posts.length = s.postId.length :=
  ⟨_, _, rfl, rfl, (@rows_are_of_one_document none loadTwoPosts _ _ rfl).1⟩

end Home
end SocialApp
