import SocialApp.Comments.Rows
import SocialApp.Reactive.History

/-! # The post that a sheet writes to

Every write is under `selectedPostId`, which the first build of the sheet sets and
the end of each `sendComment` empties, while the sheet may stay open. -/

namespace SocialApp
namespace Comments

/-- The id of the post that a write is under. -/
def Write.post : Write → String
  | .addComment post _ => post
  | .deleteComment post _ => post

/-- The event sends a write: the text submitted is not empty, or the row deleted has
an id and is of a comment by the user. -/
def Writes (s : Comments) : Event → Prop
  | .submit text _ => text ≠ ""
  | .deleteComment index =>
    (∃ comment, s.comments[index]? = some comment ∧ comment.uid = s.uId) ∧
      index < s.commentsId.length
  | _ => False

/-- Whether a comment that was sent has settled since the sheet was built. -/
def settledSince (before : Bool) (s : Comments) (e : Event) (_ : Comments)
    (_ : List Effect) : Bool :=
  match e with
  | .firstBuild _ _ => false
  | .settled k =>
    match s.inFlight[k]? with
    | some (.write (.addComment _ _)) => true
    | _ => before
  | _ => before

def sheet : Reactive.Machine (Comments × Bool) Event Effect :=
  machine.withHistory settledSince

/-- The writes of a step are all under `P`. -/
def UnderPost (P : String) (o : List Effect) : Prop :=
  ∀ w, .issue w ∈ o → w.post = P

/-- The sheet is not built for another post. -/
def Opened (P : String) (e : Event) : Prop :=
  ∀ post likes, e = .firstBuild post likes → post = P

/-! ## One step -/

theorem submit_issues_iff {s : Comments} {text now : String} {w : Write} :
    .issue w ∈ (s.submit text now).2 ↔
      text ≠ "" ∧ w = .addComment s.selectedPostId (.ofText s.uId (some text) (some now)) := by
  unfold submit
  by_cases htext : text = ""
  · rw [if_pos htext]
    exact ⟨fun h => absurd h List.not_mem_nil, fun h => absurd htext h.1⟩
  · rw [if_neg htext]
    show .issue w ∈ [Effect.issue _] ↔ _
    rw [List.mem_singleton, Effect.issue.injEq]
    exact ⟨fun h => ⟨htext, h⟩, And.right⟩

theorem deleteComment_issues_iff {s : Comments} {index : Nat} {w : Write} :
    .issue w ∈ (s.deleteComment index).2 ↔
      (∃ comment, s.comments[index]? = some comment ∧ comment.uid = s.uId) ∧
        ∃ id, s.commentsId[index]? = some id ∧ w = .deleteComment s.selectedPostId id := by
  unfold deleteComment
  cases hc : s.comments[index]? with
  | none => simp
  | some comment =>
    by_cases huid : comment.uid = s.uId
    · cases hid : s.commentsId[index]? <;> simp [huid, issue]
    · simp [huid]

/-- The writes that a step sends are under `selectedPostId`, and there are some
exactly when `Writes` says so. -/
theorem step_issues {s s' : Comments} {e : Event} {o : List Effect}
    (h : s.step e = some (s', o)) :
    (∀ w, .issue w ∈ o → w.post = s.selectedPostId) ∧ ((∃ w, .issue w ∈ o) ↔ Writes s e) := by
  have hnone : (∀ w, .issue w ∉ o) → ¬ Writes s e →
      (∀ w, .issue w ∈ o → w.post = s.selectedPostId) ∧ ((∃ w, .issue w ∈ o) ↔ Writes s e) :=
    fun hw hs => ⟨fun w hmem => absurd hmem (hw w),
      fun ⟨w, hmem⟩ => absurd hmem (hw w), fun h => absurd h hs⟩
  cases e with
  | firstBuild postId likes =>
    obtain ⟨-, rfl⟩ := Prod.mk.inj (Option.some.inj h)
    exact hnone (by simp [setSelectedPostId, getComments, setLikes]) id
  | submit text now =>
    have ho : (s.submit text now).2 = o := congrArg Prod.snd (Option.some.inj h)
    simp only [← ho, submit_issues_iff]
    exact ⟨fun w hw => congrArg Write.post hw.2,
      fun ⟨w, hw⟩ => hw.1, fun htext => ⟨_, htext, rfl⟩⟩
  | deleteComment index =>
    have ho : (s.deleteComment index).2 = o := congrArg Prod.snd (Option.some.inj h)
    simp only [← ho, deleteComment_issues_iff]
    refine ⟨fun w ⟨_, id, _, hw⟩ => congrArg Write.post hw,
      fun ⟨w, hown, id, hid, _⟩ => ?_, fun hw => ?_⟩
    · exact ⟨hown, (List.getElem?_eq_some_iff.mp hid).1⟩
    · exact ⟨_, hw.1, _, List.getElem?_eq_getElem hw.2, rfl⟩
  | user uId =>
    obtain ⟨-, rfl⟩ := Prod.mk.inj (Option.some.inj h)
    exact hnone (fun w => List.not_mem_nil) id
  | snapshot event =>
    simp only [step] at h
    split at h
    · obtain ⟨-, rfl⟩ := Prod.mk.inj (Option.some.inj h)
      exact hnone (fun w => List.not_mem_nil) id
    · exact absurd h (by simp)
  | author k data =>
    obtain ⟨event, i, uid, _, hthen⟩ := step_author h
    unfold authorThen at hthen
    refine hnone (fun w => ?_) id
    split at hthen
    · obtain ⟨-, rfl⟩ := Prod.mk.inj hthen
      split <;> simp
    · obtain ⟨-, rfl⟩ := Prod.mk.inj hthen
      exact List.not_mem_nil
  | settled k =>
    obtain ⟨w, _, hthen⟩ := step_settled h
    refine hnone (fun v => ?_) id
    cases w with
    | addComment post comment =>
      obtain ⟨-, rfl⟩ := Prod.mk.inj hthen
      simp
    | deleteComment post id =>
      obtain ⟨-, rfl⟩ := Prod.mk.inj hthen
      simp

theorem underPost_iff {s s' : Comments} {e : Event} {o : List Effect} {P : String}
    (h : s.step e = some (s', o)) : UnderPost P o ↔ (Writes s e → s.selectedPostId = P) := by
  obtain ⟨hpost, hiff⟩ := step_issues h
  constructor
  · intro hP hw
    obtain ⟨w, hmem⟩ := hiff.mpr hw
    exact (hpost w hmem).symm.trans (hP w hmem)
  · intro hP w hmem
    exact (hpost w hmem).trans (hP (hiff.mp ⟨w, hmem⟩))

/-- `selectedPostId` is the post of the sheet until a comment has settled, and empty
from then on. -/
def Selected (P : String) (p : Comments × Bool) : Prop :=
  p.1.selectedPostId = if p.2 then "" else P

theorem Selected.eq_iff {P : String} {p : Comments × Bool} (hp : Selected P p) :
    p.1.selectedPostId = P ↔ P = "" ∨ p.2 = false := by
  rw [hp]
  cases p.2 with
  | false => exact ⟨fun _ => Or.inr rfl, fun _ => rfl⟩
  | true =>
    exact ⟨fun h => Or.inl h.symm, fun h => h.elim Eq.symm (fun hf => absurd hf (by simp))⟩

theorem step_selected {P : String} {p p' : Comments × Bool} {e : Event} {o : List Effect}
    (hp : Selected P p) (h : sheet.step p e = some (p', o)) (he : Opened P e) :
    Selected P p' := by
  obtain ⟨hstep, hnote⟩ := Reactive.Machine.step_withHistory.mp h
  have hsame : p'.2 = p.2 → p'.1.selectedPostId = p.1.selectedPostId → Selected P p' := by
    intro h₂ h₁
    unfold Selected
    rw [h₁, h₂]
    exact hp
  cases e with
  | firstBuild postId likes =>
    unfold Selected
    rw [hnote, ← congrArg Prod.fst (Option.some.inj hstep)]
    exact he postId likes rfl
  | submit text now =>
    refine hsame hnote ?_
    rw [← congrArg Prod.fst (Option.some.inj hstep)]
    unfold submit
    split <;> rfl
  | deleteComment index =>
    refine hsame hnote ?_
    rw [← congrArg Prod.fst (Option.some.inj hstep)]
    unfold deleteComment
    repeat' split
    all_goals rfl
  | user uId => exact hsame hnote (congrArg (·.1.selectedPostId) (Option.some.inj hstep)).symm
  | snapshot event =>
    refine hsame hnote ?_
    simp only [machine, step] at hstep
    split at hstep
    · exact (congrArg (·.1.selectedPostId) (Option.some.inj hstep)).symm
    · exact absurd hstep (by simp)
  | author k data =>
    refine hsame hnote ?_
    obtain ⟨event, i, uid, _, hthen⟩ := step_author hstep
    rw [← congrArg Prod.fst hthen]
    unfold authorThen
    split <;> rfl
  | settled k =>
    obtain ⟨w, hk, hthen⟩ := step_settled hstep
    cases w with
    | addComment post comment =>
      unfold Selected
      rw [hnote, settledSince, hk, ← congrArg Prod.fst hthen]
      rfl
    | deleteComment post id =>
      refine hsame ?_ (congrArg (·.1.selectedPostId) hthen).symm
      rw [hnote, settledSince, hk]

/-! ## Runs of a sheet -/

/-- After the first build of the sheet for `P` every write is under `P` exactly when
none is sent once a comment has settled. -/
theorem writes_under_post_iff {s : Comments} {P : String} {likes : Option Int}
    {es : List Event} (hes : ∀ e ∈ es, Opened P e) :
    machine.Every (fun _ _ _ o => UnderPost P o) s (.firstBuild P likes :: es) ↔
      sheet.Every (fun p e _ _ => Writes p.1 e → P = "" ∨ p.2 = false) (s, false)
        (.firstBuild P likes :: es) := by
  have hsheet : sheet.Every (fun _ _ _ o => UnderPost P o) (s, false)
      (.firstBuild P likes :: es) ↔
        machine.Every (fun _ _ _ o => UnderPost P o) s (.firstBuild P likes :: es) :=
    Reactive.Machine.every_withHistory_iff (M := machine) _ _ (Q := fun _ _ _ o => UnderPost P o)
  have hfirst : ∀ {p o}, sheet.step (s, false) (.firstBuild P likes) = some (p, o) →
      Selected P p ∧ UnderPost P o := by
    intro p o hstep
    obtain ⟨hstep, hnote⟩ := Reactive.Machine.step_withHistory.mp hstep
    have hbuild : s.step (.firstBuild P likes) = some (p.1, o) := hstep
    refine ⟨?_, (underPost_iff hbuild).mpr False.elim⟩
    unfold Selected
    rw [hnote, ← congrArg Prod.fst (Option.some.inj hstep)]
    rfl
  have hrest : ∀ {p}, Selected P p → (sheet.Every (fun _ _ _ o => UnderPost P o) p es ↔
      sheet.Every (fun p e _ _ => Writes p.1 e → P = "" ∨ p.2 = false) p es) := by
    intro p hp
    refine Reactive.Machine.every_iff_of (H := fun _ e _ _ => Opened P e) ?_ hp
      (Reactive.Machine.every_of_forall (fun _ _ _ _ h => h) hes p)
    intro p e p' o hp hstep he
    rw [underPost_iff (Reactive.Machine.step_withHistory.mp hstep).1, hp.eq_iff]
    exact ⟨Iff.rfl, fun _ => step_selected hp hstep he⟩
  rw [← hsheet]
  constructor
  · intro h p o hstep
    exact ⟨False.elim, (hrest (hfirst hstep).1).mp (h p o hstep).2⟩
  · intro h p o hstep
    exact ⟨(hfirst hstep).2, (hrest (hfirst hstep).1).mpr (h p o hstep).2⟩

/-- Of two comments sent from one sheet, the second goes to no post when the first
has settled before it. -/
theorem comment_under_no_post :
    ¬ machine.Every (fun _ _ _ o => UnderPost "post" o) (init (some "ann"))
      ([.firstBuild "post" (some 0), .submit "hi" "1", .settled 0] ++ [.submit "again" "2"]) := by
  intro h
  have hlast := Reactive.Machine.every_append (M := machine) rfl h
  have hpost := (hlast _ _ rfl).1 _ List.mem_cons_self
  exact absurd hpost (by decide)

theorem writes_under_post_overlapping :
    machine.Every (fun _ _ _ o => UnderPost "post" o) (init (some "ann"))
      [.firstBuild "post" (some 0), .submit "hi" "1", .submit "again" "2", .settled 0] := by
  refine (@writes_under_post_iff (init (some "ann")) "post" (some 0)
    [.submit "hi" "1", .submit "again" "2", .settled 0] (by simp [Opened])).mpr ?_
  refine Reactive.Machine.every_cons rfl False.elim (Reactive.Machine.every_cons rfl ?_
    (Reactive.Machine.every_cons rfl ?_ (Reactive.Machine.every_cons rfl False.elim trivial)))
  · exact fun _ => Or.inr rfl
  · exact fun _ => Or.inr rfl

end Comments
end SocialApp
