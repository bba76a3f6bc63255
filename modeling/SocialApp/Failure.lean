import SocialApp.Home.Rows
import SocialApp.Comments.Rows
import SocialApp.Reactive.Beside

/-! # Writes that fail

Each operation of the two cubits reports success in a `whenComplete`, which runs on a
failure too, or has changed the lists before the write and never puts them back. -/

namespace SocialApp
namespace Home

/-- The operations of SocialHomeCubit that write. -/
inductive Op
  | like
  | unLike
  | deletePost (index : Int) (postid : String)
  | sendComment (text now : String)

def Op.call (s : Home) : Op → Home × List Effect
  | .like => s.like
  | .unLike => s.unLike
  | .deletePost index postid => s.deletePost index postid
  | .sendComment text now => s.sendComment text now

/-- A green toast, or a state for the success of a write. -/
def Effect.success : Effect → Bool
  | .toast _ state => state = 0
  | .emit .sendCommentSuccess => true
  | .emit .likeSuccess => true
  | .emit .unLikeSuccess => true
  | _ => false

/-- A snapshot arrives, or a row of one, when its author lookup succeeds. -/
def Event.arrives : Event → Bool
  | .snapshot _ => true
  | .author _ data => data.isSome
  | _ => false

/-! ## Deletes -/

theorem removeAt_length {α : Type} {xs ys : List α} {index : Int}
    (h : removeAt xs index = some ys) : ys.length < xs.length := by
  unfold removeAt at h
  by_cases hr : 0 ≤ index ∧ index < xs.length
  · rw [if_pos hr] at h
    rw [← Option.some.inj h, List.length_eraseIdx]
    have hlt : index.toNat < xs.length := by omega
    rw [if_pos hlt]
    omega
  · rw [if_neg hr] at h
    exact absurd h (by simp)

/-- While nothing arrives no post is added. -/
theorem step_posts_le {s s' : Home} {e : Event} {o : List Effect} (he : e.arrives = false)
    (h : s.step e = some (s', o)) : s'.posts.length ≤ s.posts.length := by
  cases step_rows h with
  | same _ posts _ _ _ _ => exact Nat.le_of_eq (congrArg List.length posts)
  | snapshot _ _ _ _ _ => exact absurd he (by simp [Event.arrives])
  | @author k data n event i uid added rest _ posts _ _ _ _ _ hadded =>
    have hnone : data = none := by simpa [Event.arrives] using he
    have hvalue : getUidUserNameAndImage data = none := by
      rw [hnone]
      rfl
    have hadd : added = none := by rw [hadded, hvalue]; cases docAt event i <;> rfl
    rw [posts, hadd]
    simp
  | removed _ posts _ _ _ _ => exact Nat.le_of_lt (removeAt_length posts)

theorem run_posts_le {s s' : Home} {es : List Event} {o : List Effect}
    (hes : ∀ e ∈ es, e.arrives = false) (hrun : machine.run s es = some (s', o)) :
    s'.posts.length ≤ s.posts.length :=
  Reactive.Machine.run_state_invariant (M := machine)
    (I := fun t => t.posts.length ≤ s.posts.length) (Q := fun _ e _ _ => e.arrives = false)
    (fun _ _ _ _ ht hstep he => Nat.le_trans (step_posts_le he hstep) ht) (Nat.le_refl _)
    (Reactive.Machine.every_of_forall (fun _ _ _ _ h => h) hes s) hrun

/-- A delete that sends its write has taken the post out of the list. -/
theorem deletePost_removes {s : Home} {index : Int} {postid : String} {w : Write}
    (h : .issue w ∈ (s.deletePost index postid).2) :
    w = .deletePost postid ∧
      (s.deletePost index postid).1.posts.length < s.posts.length := by
  rcases deletePost_cases s index postid with
    ⟨_, heq⟩ | ⟨posts, hposts, ⟨_, heq⟩ | ⟨postId, _, heq⟩⟩
  · rw [heq] at h
    exact absurd h (by simp)
  · rw [heq] at h
    exact absurd h (by simp)
  · rw [heq] at h ⊢
    have hw : Effect.issue w = .issue (.deletePost postid) := List.mem_singleton.mp h
    exact ⟨Effect.issue.inj hw, removeAt_length hposts⟩

/-! ## The other operations -/

/-- The handlers other than that of a delete report success on a failure too. -/
theorem writeThen_success {s : Home} {w : Write} {ok : Bool} (hw : ∀ post, w ≠ .deletePost post) :
    ∃ x ∈ (s.writeThen w ok).2, x.success = true := by
  cases w with
  | addComment post comment => exact ⟨.toast "Done" 0, List.mem_cons_self, rfl⟩
  | deletePost post => exact absurd rfl (hw post)
  | setLike post uid =>
    refine ⟨.toast "Liked" 0, ?_, rfl⟩
    show Effect.toast "Liked" 0 ∈ s.likeThen.2
    unfold likeThen
    split
    · exact List.mem_cons_self
    · exact List.mem_cons_self
  | deleteLike post uid =>
    refine ⟨.toast "Unliked" 0, ?_, rfl⟩
    show Effect.toast "Unliked" 0 ∈ s.unLikeThen.2
    unfold unLikeThen
    dsimp only
    split
    · exact List.mem_cons_self
    · exact List.mem_cons_self

/-- The write of an operation other than a delete is not one of a post. -/
theorem Op.call_issues {op : Op} {s : Home} {w : Write} (h : .issue w ∈ (op.call s).2) :
    (∃ index postid, op = .deletePost index postid) ∨ ∀ post, w ≠ .deletePost post := by
  cases op with
  | deletePost index postid => exact Or.inl ⟨index, postid, rfl⟩
  | like =>
    have hw := Effect.issue.inj (List.mem_singleton.mp h)
    exact Or.inr fun post heq => absurd (hw.symm.trans heq) (by simp)
  | unLike =>
    have hw := Effect.issue.inj (List.mem_singleton.mp h)
    exact Or.inr fun post heq => absurd (hw.symm.trans heq) (by simp)
  | sendComment text now =>
    have hw := Effect.issue.inj (List.mem_singleton.mp h)
    exact Or.inr fun post heq => absurd (hw.symm.trans heq) (by simp)

/-- The write of an operation waits at the end. -/
theorem Op.call_waits {op : Op} {s : Home} {w : Write} (h : .issue w ∈ (op.call s).2) :
    (op.call s).1.inFlight = s.inFlight ++ [.write w false] := by
  cases op with
  | like => rw [Effect.issue.inj (List.mem_singleton.mp h)]; rfl
  | unLike => rw [Effect.issue.inj (List.mem_singleton.mp h)]; rfl
  | sendComment text now => rw [Effect.issue.inj (List.mem_singleton.mp h)]; rfl
  | deletePost index postid =>
    simp only [Op.call] at h ⊢
    rcases deletePost_cases s index postid with ⟨_, heq⟩ | ⟨posts, _, ⟨_, heq⟩ | ⟨postId, _, heq⟩⟩
    · rw [heq] at h
      exact absurd h (by simp)
    · rw [heq] at h
      exact absurd h (by simp)
    · rw [heq] at h ⊢
      rw [Effect.issue.inj (List.mem_singleton.mp h)]
      rfl

end Home

namespace Comments

/-- The delete button sends nothing, or the delete of the comment at the row's index. -/
theorem deleteComment_cases (s : Comments) (index : Nat) :
    (∃ x, s.deleteComment index = (s, [x]) ∧ ∀ w, x ≠ .issue w) ∨
      ∃ id, s.deleteComment index = s.issue (.deleteComment s.selectedPostId id) := by
  unfold deleteComment
  cases s.comments[index]? with
  | none => exact .inl ⟨_, rfl, by simp⟩
  | some comment =>
    dsimp only
    by_cases huid : comment.uid = s.uId
    · rw [if_pos huid]
      cases s.commentsId[index]? with
      | none => exact .inl ⟨_, rfl, by simp⟩
      | some id => exact .inr ⟨id, rfl⟩
    · rw [if_neg huid]
      exact .inl ⟨_, rfl, by simp⟩

/-- The operations of CommentsCubit that write. -/
inductive Op
  | sendComment (text now : String)
  | deleteComment (index : Nat)

def Op.call (s : Comments) : Op → Comments × List Effect
  | .sendComment text now => s.sendComment text now
  | .deleteComment index => s.deleteComment index

def Effect.success : Effect → Bool
  | .toast _ state => state = 0
  | .emit .sendCommentSuccess => true
  | .emit .deleteCommentSuccess => true
  | _ => false

/-- The write of an operation waits at the end. -/
theorem Op.call_waits {op : Op} {s : Comments} {w : Write} (h : .issue w ∈ (op.call s).2) :
    (op.call s).1.inFlight = s.inFlight ++ [.write w] := by
  cases op with
  | sendComment text now => rw [Effect.issue.inj (List.mem_singleton.mp h)]; rfl
  | deleteComment index =>
    simp only [Op.call] at h ⊢
    rcases deleteComment_cases s index with ⟨x, heq, hx⟩ | ⟨id, heq⟩
    · rw [heq] at h
      exact absurd (List.mem_singleton.mp h).symm (hx w)
    · rw [heq] at h ⊢
      rw [Effect.issue.inj (List.mem_singleton.mp h)]
      rfl

theorem writeThen_success {s : Comments} {w : Write} :
    ∃ x ∈ (s.writeThen w).2, x.success = true := by
  cases w with
  | addComment post comment => exact ⟨.toast "Done" 0, List.mem_cons_self, rfl⟩
  | deleteComment post id => exact ⟨.toast "Deleted" 0, List.mem_cons_self, rfl⟩

end Comments

/-! ## Both cubits -/

/-- The home cubit, with a sheet of comments over it. -/
def cubits : Reactive.Machine (Home × Comments) (Home.Event ⊕ Comments.Event)
    (Home.Effect ⊕ Comments.Effect) :=
  Home.machine.beside Comments.machine

/-- The operation, called in `p`, sends a write. -/
inductive Sends (p : Home × Comments) : Home.Op ⊕ Comments.Op → Prop
  | home {op : Home.Op} {w : Home.Write} (sent : .issue w ∈ (op.call p.1).2) : Sends p (.inl op)
  | comments {op : Comments.Op} {w : Comments.Write} (sent : .issue w ∈ (op.call p.2).2) :
      Sends p (.inr op)

/-- An operation, called in `p`, sends a write; after `es` it settles with a failure,
which leaves `p'` with the effects `o`.  The write of a sheet settles in the same way on
a success. -/
inductive Fails (p : Home × Comments) (es : List (Home.Event ⊕ Comments.Event))
    (p' : Home × Comments) (o : List (Home.Effect ⊕ Comments.Effect)) :
    Home.Op ⊕ Comments.Op → Prop
  | home {op : Home.Op} {w : Home.Write} {p₂ : Home × Comments}
      {o₂ : List (Home.Effect ⊕ Comments.Effect)} {k : Nat}
      (sent : .issue w ∈ (op.call p.1).2)
      (run : cubits.run ((op.call p.1).1, p.2) es = some (p₂, o₂))
      (waits : p₂.1.inFlight[k]? = some (.write w false))
      (settles : cubits.step p₂ (.inl (.settled k false)) = some (p', o)) :
      Fails p es p' o (.inl op)
  | comments {op : Comments.Op} {w : Comments.Write} {p₂ : Home × Comments}
      {o₂ : List (Home.Effect ⊕ Comments.Effect)} {k : Nat}
      (sent : .issue w ∈ (op.call p.2).2)
      (run : cubits.run (p.1, (op.call p.2).1) es = some (p₂, o₂))
      (waits : p₂.2.inFlight[k]? = some (.write w))
      (settles : cubits.step p₂ (.inr (.settled k)) = some (p', o)) : Fails p es p' o (.inr op)

/-- No snapshot is among the events. -/
def NoSnapshot (es : List (Home.Event ⊕ Comments.Event)) : Prop :=
  ∀ event, .inl (.snapshot event) ∉ es ∧ .inr (.snapshot event) ∉ es

/-- The lists and maps are those of `p`, and no success was reported. -/
structure Undone (p p' : Home × Comments) (o : List (Home.Effect ⊕ Comments.Effect)) :
    Prop where
  likes : p'.1.likes = p.1.likes
  myLikes : p'.1.myLikes = p.1.myLikes
  posts : p'.1.posts = p.1.posts
  postId : p'.1.postId = p.1.postId
  silent : ∀ x ∈ o, x.elim Home.Effect.success Comments.Effect.success = false

/-- A write may fail before anything else happens. -/
theorem Sends.fails {p : Home × Comments} {op : Home.Op ⊕ Comments.Op} (h : Sends p op) :
    ∃ p' o, Fails p [] p' o op := by
  cases h with
  | @home op w sent =>
    have hk : (op.call p.1).1.inFlight[p.1.inFlight.length]? = some (.write w false) := by
      rw [Home.Op.call_waits sent]
      exact List.getElem?_concat_length
    have hstep : Home.step (op.call p.1).1 (.settled p.1.inFlight.length false) =
        some (((op.call p.1).1.landed p.1.inFlight.length).writeThen w false) := by
      simp [Home.step, hk]
    exact ⟨(_, p.2), _, .home sent rfl hk (Reactive.Machine.step_beside_inl.mpr
      ⟨_, hstep, rfl, rfl⟩)⟩
  | @comments op w sent =>
    have hk : (op.call p.2).1.inFlight[p.2.inFlight.length]? = some (.write w) := by
      rw [Comments.Op.call_waits sent]
      exact List.getElem?_concat_length
    have hstep : Comments.step (op.call p.2).1 (.settled p.2.inFlight.length) =
        some (((op.call p.2).1.landed p.2.inFlight.length).writeThen w) := by
      simp [Comments.step, hk]
    exact ⟨(p.1, _), _, .comments sent rfl hk (Reactive.Machine.step_beside_inr.mpr
      ⟨_, hstep, rfl, rfl⟩)⟩

/-- A failed write is undone only if it is the delete of a post, and a row of an earlier
snapshot, or another snapshot, has arrived meanwhile. -/
theorem Fails.arrives_of_undone {op : Home.Op ⊕ Comments.Op} {p p' : Home × Comments}
    {es : List (Home.Event ⊕ Comments.Event)} {o : List (Home.Effect ⊕ Comments.Effect)}
    (h : Fails p es p' o op) (hundone : Undone p p' o) :
    (∃ index postid, op = .inl (.deletePost index postid)) ∧
      ∃ e : Home.Event, .inl e ∈ es ∧ e.arrives = true := by
  cases h with
  | @home op w p₂ o₂ k sent run waits settles =>
    obtain ⟨a, hstep, -, rfl⟩ := Reactive.Machine.step_beside_inl.mp settles
    obtain ⟨w', hk, hthen⟩ := Home.step_settled hstep
    rw [waits, Option.some.injEq, Home.Pending.write.injEq] at hk
    obtain ⟨rfl, -⟩ := hk
    rcases Home.Op.call_issues sent with ⟨index, postid, rfl⟩ | hother
    · -- the post has left the list, which does not grow unless something arrives
      refine ⟨⟨index, postid, rfl⟩, ?_⟩
      obtain ⟨rfl, hless⟩ := Home.deletePost_removes sent
      obtain ⟨_, hrun⟩ := Reactive.Machine.run_beside_left run
      by_contra hnone
      have hle := Home.run_posts_le (fun e he => ?_) hrun
      · have hposts : p'.1.posts = p₂.1.posts := (congrArg (·.1.posts) hthen).symm
        rw [← hposts, hundone.posts] at hle
        exact absurd hless (Nat.not_lt.mpr hle)
      · obtain ⟨x, hx, hleft⟩ := List.mem_filterMap.mp he
        rw [Sum.getLeft?_eq_some_iff] at hleft
        exact Bool.eq_false_iff.mpr fun harrives => hnone ⟨e, hleft ▸ hx, harrives⟩
    · obtain ⟨x, hx, hsuccess⟩ :
          ∃ x ∈ ((p₂.1.landed k).writeThen w false).2, x.success = true :=
        Home.writeThen_success hother
      rw [hthen] at hx
      have hsilent := hundone.silent _ (List.mem_map_of_mem hx)
      exact absurd (hsuccess.symm.trans hsilent) (by simp)
  | @comments op w p₂ o₂ k sent run waits settles =>
    obtain ⟨b, hstep, -, rfl⟩ := Reactive.Machine.step_beside_inr.mp settles
    obtain ⟨w', _, hthen⟩ := Comments.step_settled hstep
    obtain ⟨x, hx, hsuccess⟩ : ∃ x ∈ ((p₂.2.landed k).writeThen w').2, x.success = true :=
      Comments.writeThen_success
    rw [hthen] at hx
    have hsilent := hundone.silent _ (List.mem_map_of_mem hx)
    exact absurd (hsuccess.symm.trans hsilent) (by simp)

/-- No operation of the two cubits is undone whenever its write fails.  The runs in which
it happens to be are deletes of a post, after which the list grows by other rows. -/
theorem failed_write_not_undone {op : Home.Op ⊕ Comments.Op} {p : Home × Comments}
    (h : Sends p op) :
    ¬ (∀ es p' o, NoSnapshot es → Fails p es p' o op → Undone p p' o) ∧
      ∀ es p' o, Fails p es p' o op → Undone p p' o →
        (∃ index postid, op = .inl (.deletePost index postid)) ∧
          ∃ e : Home.Event, .inl e ∈ es ∧ e.arrives = true := by
  refine ⟨fun hall => ?_, fun es p' o => Fails.arrives_of_undone⟩
  obtain ⟨p', o, hfails⟩ := h.fails
  have hundone := hall [] p' o (fun _ => ⟨List.not_mem_nil, List.not_mem_nil⟩) hfails
  obtain ⟨-, e, he, -⟩ := hfails.arrives_of_undone hundone
  exact absurd he List.not_mem_nil

/-- ann has liked bob's post. -/
def likedPost : List Home.Event :=
  Home.loadTwoPosts ++ [.comments 0 [], .comments 0 [], .likes 0 [], .likes 0 [],
    .rowLike 0, .applied 0, .settled 0 true]

/-- She takes her like back, and the write fails. -/
theorem failed_unLike_unlikes :
    ∃ s o₁ p' o, Home.machine.run (Home.init none) likedPost = some (s, o₁) ∧
      s.selectedPostId = "2022-01-02" ∧ s.likes "2022-01-02" = some 1 ∧
      s.myLikes "2022-01-02" = some true ∧
      Fails (s, Comments.init (some "ann")) [] p' o (.inl .unLike) ∧
      p'.1.likes "2022-01-02" = some 0 ∧ p'.1.myLikes "2022-01-02" = some false ∧
      o = [.inl (.toast "Unliked" 0), .inl (.emit .unLikeSuccess)] ∧
      ¬ Undone (s, Comments.init (some "ann")) p' o := by
  refine ⟨_, _, _, _, rfl, rfl, rfl, rfl, .home (k := 0) List.mem_cons_self rfl rfl rfl, rfl,
    rfl, rfl, fun h => ?_⟩
  exact absurd (h.silent (.inl (.toast "Unliked" 0)) List.mem_cons_self) (by decide)

/-- A comment on bob's post fails. -/
theorem failed_write_not_undone_comment :
    ∃ p : Home × Comments, p.2.selectedPostId = "2022-01-02" ∧
      ¬ (∀ es p' o, NoSnapshot es → Fails p es p' o (.inr (.sendComment "hi" "1")) →
        Undone p p' o) := by
  refine ⟨(Home.init none, ((Comments.init (some "ann")).firstBuild "2022-01-02" (some 0)).1),
    rfl, ?_⟩
  exact (failed_write_not_undone (.comments List.mem_cons_self)).1

end SocialApp
