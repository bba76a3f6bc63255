import SocialApp.Home.Rows

/-! # Which post a response is stored under

`getComments` and `getLikes` ask for the posts of `postId` by index, and their
handlers look the index up again when the answer arrives.  The answer goes to the
post it was asked for as long as the index still names that post. -/

namespace SocialApp
namespace Home

/-- The answers of `getComments` and `getLikes`. -/
def Event.answers : Event → Bool
  | .comments _ _ => true
  | .likes _ _ => true
  | _ => false

/-- `docs` arrive from the comments collection of `post`. -/
def ReadComments (s : Home) (e : Event) (post : String) (docs : List String) : Prop :=
  ∃ k i, e = .comments k docs ∧ s.inFlight[k]? = some (.getComments i post)

/-- `docs` arrive from the likes collection of `post`. -/
def ReadLikes (s : Home) (e : Event) (post : String) (docs : List String) : Prop :=
  ∃ k i, e = .likes k docs ∧ s.inFlight[k]? = some (.getLikes i post)

/-- What arrives is from the collection of `post` that a map is about. -/
def Read (s : Home) (e : Event) (field : Field) (post : String) : Prop :=
  match field with
  | .comments => ∃ docs, ReadComments s e post docs
  | .likes => ∃ docs, ReadLikes s e post docs
  | .myLikes => ∃ docs, ReadLikes s e post docs

/-- An answer changes an entry of `comments`, `likes` or `myLikes` only to what was read
from the collection of that post, assigns no entry of another post, and finds its index
in range. -/
structure StoresOwn (s : Home) (e : Event) (s' : Home) (o : List Effect) : Prop where
  comments : ∀ post n, s'.comments post = some n → s.comments post = some n ∨
    ∃ docs, ReadComments s e post docs ∧ n = docs.length
  likes : ∀ post n, s'.likes post = some n → s.likes post = some n ∨
    ∃ docs, ReadLikes s e post docs ∧ n = docs.length
  myLikes : ∀ post b, s'.myLikes post = some b → s.myLikes post = some b ∨
    ∃ docs, ReadLikes s e post docs ∧ (b = true ↔ ∃ u, s.uId = some u ∧ u ∈ docs)
  assigned : ∀ field key source, .stored field key source ∈ o → Read s e field key
  inRange : .throws .postIdRange ∉ o

/-- The index of the request that is answered still names the post of the
request. -/
def StillAt (s : Home) (e : Event) : Prop :=
  match e with
  | .comments k _ => ∀ i post, s.inFlight[k]? = some (.getComments i post) →
      s.postId[i]? = some post
  | .likes k _ => ∀ i post, s.inFlight[k]? = some (.getLikes i post) →
      s.postId[i]? = some post
  | _ => True

/-- An entry of a map with one more key is an old one or the new one. -/
theorem eq_or_of_update {α : Type} {m : String → Option α} {key post : String} {x y : α}
    (h : Function.update m key (some x) post = some y) :
    m post = some y ∨ post = key ∧ y = x := by
  by_cases hpost : post = key
  · rw [hpost, Function.update_self, Option.some.injEq] at h
    exact .inr ⟨hpost, h.symm⟩
  · rw [Function.update_of_ne hpost] at h
    exact .inl h

theorem mine_iff {s : Home} {docs : List String} :
    s.mine docs = true ↔ ∃ u, s.uId = some u ∧ u ∈ docs := by
  unfold mine
  rw [Bool.not_eq_true', List.isEmpty_eq_false_iff_exists_mem]
  constructor
  · rintro ⟨u, hu⟩
    obtain ⟨hmem, huid⟩ := List.mem_filter.mp hu
    exact ⟨u, of_decide_eq_true huid, hmem⟩
  · rintro ⟨u, huid, hmem⟩
    exact ⟨u, List.mem_filter.mpr ⟨hmem, decide_eq_true huid⟩⟩

theorem readComments_iff {s : Home} {k i : Nat} {post key : String} {docs docs' : List String}
    (hk : s.inFlight[k]? = some (.getComments i post)) :
    ReadComments s (.comments k docs) key docs' ↔ key = post ∧ docs' = docs := by
  constructor
  · rintro ⟨k', i', he, hk'⟩
    obtain ⟨rfl, rfl⟩ := Event.comments.inj he
    obtain ⟨-, rfl⟩ := Pending.getComments.inj (Option.some.inj (hk.symm.trans hk'))
    exact ⟨rfl, rfl⟩
  · rintro ⟨rfl, rfl⟩
    exact ⟨k, i, rfl, hk⟩

theorem readLikes_iff {s : Home} {k i : Nat} {post key : String} {docs docs' : List String}
    (hk : s.inFlight[k]? = some (.getLikes i post)) :
    ReadLikes s (.likes k docs) key docs' ↔ key = post ∧ docs' = docs := by
  constructor
  · rintro ⟨k', i', he, hk'⟩
    obtain ⟨rfl, rfl⟩ := Event.likes.inj he
    obtain ⟨-, rfl⟩ := Pending.getLikes.inj (Option.some.inj (hk.symm.trans hk'))
    exact ⟨rfl, rfl⟩
  · rintro ⟨rfl, rfl⟩
    exact ⟨k, i, rfl, hk⟩

/-- An answer that leaves the list. -/
theorem not_storesOwn_of_range {s s' : Home} {e : Event} :
    ¬ StoresOwn s e s' [.throws .postIdRange] :=
  fun h => h.inRange List.mem_cons_self

theorem comments_storesOwn_iff {s s' : Home} {k i : Nat} {post : String} {docs : List String}
    {o : List Effect} (hk : s.inFlight[k]? = some (.getComments i post))
    (h : (s.landed k).getCommentsThen i post docs = (s', o)) :
    StoresOwn s (.comments k docs) s' o ↔ s.postId[i]? = some post := by
  have hread : ∀ {key}, Read s (.comments k docs) .comments key ↔ key = post := by
    intro key
    constructor
    · rintro ⟨docs', hread⟩
      exact ((readComments_iff hk).mp hread).1
    · rintro rfl
      exact ⟨docs, (readComments_iff hk).mpr ⟨rfl, rfl⟩⟩
  have hassigned : ∀ {key}, (∀ field key' source, Effect.stored field key' source ∈
      [Effect.stored .comments key post] → Read s (.comments k docs) field key') ↔ key = post := by
    intro key
    constructor
    · intro hall
      exact hread.mp (hall .comments key post List.mem_cons_self)
    · rintro rfl field key' source hmem
      obtain ⟨rfl, rfl, -⟩ := Effect.stored.inj (List.mem_singleton.mp hmem)
      exact hread.mpr rfl
  rcases getCommentsThen_cases (s.landed k) i post docs with
    ⟨hkey, hr⟩ | ⟨key, hkey, ⟨_, hr⟩ | ⟨_, hr⟩⟩
  · obtain ⟨rfl, rfl⟩ := Prod.mk.inj (hr.symm.trans h)
    refine ⟨fun hs => absurd hs not_storesOwn_of_range, fun hat => ?_⟩
    exact absurd (hkey.symm.trans hat) (by simp)
  · obtain ⟨rfl, rfl⟩ := Prod.mk.inj (hr.symm.trans h)
    have hkey : s.postId[i]? = some key := hkey
    rw [hkey, Option.some.injEq]
    refine ⟨fun hs => hassigned.mp hs.assigned, fun heq => ?_⟩
    refine { comments := fun p n hn => ?_, likes := fun _ _ => .inl, myLikes := fun _ _ => .inl
             assigned := hassigned.mpr heq, inRange := by simp }
    exact (eq_or_of_update hn).imp_right fun ⟨hp, hn⟩ =>
      ⟨docs, (readComments_iff hk).mpr ⟨hp.trans heq, rfl⟩, hn⟩
  · obtain ⟨rfl, rfl⟩ := Prod.mk.inj (hr.symm.trans h)
    have hkey : s.postId[i]? = some key := hkey
    rw [hkey, Option.some.injEq]
    refine ⟨fun hs => hassigned.mp hs.assigned, fun heq => ?_⟩
    -- the last answer starts `getLikes`, which clears the two other maps
    refine { comments := fun p n hn => ?_
             likes := fun _ _ hn => absurd hn (by simp [getLikes, await])
             myLikes := fun _ _ hb => absurd hb (by simp [getLikes, await])
             assigned := hassigned.mpr heq, inRange := by simp }
    exact (eq_or_of_update hn).imp_right fun ⟨hp, hn⟩ =>
      ⟨docs, (readComments_iff hk).mpr ⟨hp.trans heq, rfl⟩, hn⟩

theorem likes_storesOwn_iff {s s' : Home} {k i : Nat} {post : String} {docs : List String}
    {o : List Effect} (hk : s.inFlight[k]? = some (.getLikes i post))
    (h : (s.landed k).getLikesThen i post docs = (s', o)) :
    StoresOwn s (.likes k docs) s' o ↔ s.postId[i]? = some post := by
  have hread : ∀ {key}, (∃ docs', ReadLikes s (.likes k docs) key docs') ↔ key = post := by
    intro key
    constructor
    · rintro ⟨docs', hread⟩
      exact ((readLikes_iff hk).mp hread).1
    · rintro rfl
      exact ⟨docs, (readLikes_iff hk).mpr ⟨rfl, rfl⟩⟩
  rcases getLikesThen_cases (s.landed k) i post docs with
    ⟨hkey, hr⟩ | ⟨key, o', hkey, hr, hstored, ho, _⟩
  · obtain ⟨rfl, rfl⟩ := Prod.mk.inj (hr.symm.trans h)
    refine ⟨fun hs => absurd hs not_storesOwn_of_range, fun hat => ?_⟩
    exact absurd (hkey.symm.trans hat) (by simp)
  · obtain ⟨rfl, rfl⟩ := Prod.mk.inj (hr.symm.trans h)
    have hkey : s.postId[i]? = some key := hkey
    rw [hkey, Option.some.injEq]
    refine ⟨fun hs => hread.mp (hs.assigned .likes key post hstored), ?_⟩
    rintro rfl
    have hself : ReadLikes s (.likes k docs) key docs := (readLikes_iff hk).mpr ⟨rfl, rfl⟩
    refine { comments := fun _ _ => .inl, likes := fun p n hn => ?_, myLikes := fun p b hb => ?_
             assigned := fun field key' source hmem => ?_, inRange := fun hmem => ?_ }
    · refine (eq_or_of_update hn).imp_right ?_
      rintro ⟨rfl, rfl⟩
      exact ⟨docs, hself, rfl⟩
    · refine (eq_or_of_update hb).imp_right ?_
      rintro ⟨rfl, rfl⟩
      exact ⟨docs, hself, mine_iff (s := s.landed k)⟩
    · rcases ho _ hmem with ⟨field', hfield, heq⟩ | heq
      · obtain ⟨rfl, rfl, -⟩ := Effect.stored.inj heq
        cases field with
        | comments => exact absurd rfl hfield
        | likes => exact ⟨docs, hself⟩
        | myLikes => exact ⟨docs, hself⟩
      · exact absurd heq (by simp)
    · rcases ho _ hmem with ⟨field', -, heq⟩ | heq
      · exact absurd heq (by simp)
      · exact absurd heq (by simp)

theorem step_storesOwn_iff {s s' : Home} {e : Event} {o : List Effect}
    (h : step s e = some (s', o)) :
    (e.answers = true → StoresOwn s e s' o) ↔ StillAt s e := by
  cases e with
  | comments k docs =>
    obtain ⟨i, post, hk, h⟩ := step_comments h
    have hiff := comments_storesOwn_iff hk h
    constructor
    · intro hs i' post' hk'
      obtain ⟨rfl, rfl⟩ := Pending.getComments.inj (Option.some.inj (hk.symm.trans hk'))
      exact hiff.mp (hs rfl)
    · exact fun hat _ => hiff.mpr (hat i post hk)
  | likes k docs =>
    obtain ⟨i, post, hk, h⟩ := step_likes h
    have hiff := likes_storesOwn_iff hk h
    constructor
    · intro hs i' post' hk'
      obtain ⟨rfl, rfl⟩ := Pending.getLikes.inj (Option.some.inj (hk.symm.trans hk'))
      exact hiff.mp (hs rfl)
    · exact fun hat _ => hiff.mpr (hat i post hk)
  | _ => exact ⟨fun _ => trivial, fun _ he => absurd he (by simp [Event.answers])⟩

/-- Along a run every answer is stored under the post it was read for, and no
handler leaves the list, exactly when each answer arrives while its index still
names that post. -/
theorem answers_stored_under_own_post_iff (u : Option String) (es : List Event) :
    machine.Every (fun s e s' o => e.answers = true → StoresOwn s e s' o) (init u) es ↔
      machine.Every (fun s e _ _ => StillAt s e) (init u) es :=
  Reactive.Machine.every_iff (I := fun _ => True)
    (fun _ _ _ _ _ h => ⟨step_storesOwn_iff h, fun _ => trivial⟩) trivial

/-- The newer post is deleted while the answers for the two posts are on their
way, and the number of its comments is stored under the older post. -/
theorem answer_stored_under_other_post :
    ¬ machine.Every (fun s e s' o => e.answers = true → StoresOwn s e s' o) (init none)
      (loadTwoPosts ++ [.deletePost 0 "2022-01-02", .comments 0 ["c"]]) := by
  intro h
  have hrest := Reactive.Machine.every_append (a := loadTwoPosts ++ [.deletePost 0 "2022-01-02"])
    (b := [.comments 0 ["c"]]) rfl h
  obtain ⟨hlast, -⟩ := hrest _ _ rfl
  rcases (hlast rfl).comments "2022-01-01" 1 (by decide) with hold | ⟨docs, ⟨k, i, he, hk⟩, -⟩
  · exact absurd hold (by decide)
  · obtain ⟨rfl, -⟩ := Event.comments.inj he
    obtain ⟨-, hpost⟩ := Pending.getComments.inj (Option.some.inj hk)
    exact absurd hpost (by decide)

end Home
end SocialApp
