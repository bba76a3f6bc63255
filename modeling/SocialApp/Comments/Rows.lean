import SocialApp.Comments.Cubit
import Mathlib.Data.List.Forall2

/-! # Comments and their ids

`comments` starts anew with each snapshot, and `commentsId` with each call of
`getComments`.  A row has its own id as long as nothing of an earlier snapshot is
left in front of it. -/

namespace SocialApp
namespace Comments

/-- `comments` is built from the documents of `built`. -/
def Built (s : Comments) : Prop :=
  List.Forall₂ (fun comment doc => ∃ v, comment = commentOf doc v) s.comments s.built

/-- Each comment has an id, which is that of the document it was built from. -/
def RowsShown (s : Comments) : Prop :=
  ∀ (i : Nat) comment, s.comments[i]? = some comment →
    ∃ doc v, s.built[i]? = some doc ∧ comment = commentOf doc v ∧
      s.commentsId[i]? = some doc.id

/-- A delete is of the comment that its row shows, and `uId` is its author. -/
def DeletesShown (s : Comments) (e : Event) (_ : Comments) (o : List Effect) : Prop :=
  ∀ (index : Nat) post id, e = .deleteComment index → .issue (.deleteComment post id) ∈ o →
    ∃ doc, s.built[index]? = some doc ∧ doc.id = id ∧ doc.data.string "uid" = s.uId

/-- What keeps the lists together.  The sheet is built for the first time on a
cubit that shows no comment, and a lookup that succeeds finds no more ids than
comments, or finds the id of its own comment at the next place. -/
def InStep (s : Comments) (e : Event) : Prop :=
  match e with
  | .firstBuild _ _ => s.comments = []
  | .author k data => ∀ event i uid doc, s.inFlight[k]? = some (.author event i uid) →
      event.docs[i]? = some doc → (getUidUserNameAndImage data).isSome →
      s.commentsId.length ≤ s.comments.length ∨ s.commentsId[s.comments.length]? = some doc.id
  | _ => True

/-! ## Two lists filled together -/

/-- The ids of `built`, place by place, are those of `ids`. -/
def Paired (built : List QueryDoc) (ids : List String) : Prop :=
  ∀ (i : Nat) doc, built[i]? = some doc → ids[i]? = some doc.id

theorem paired_nil (ids : List String) : Paired [] ids := by
  intro i doc h
  exact absurd h (by simp)

theorem paired_nil_ids_iff {built : List QueryDoc} : Paired built [] ↔ built = [] := by
  constructor
  · intro h
    cases built with
    | nil => rfl
    | cons doc rest => exact absurd (h 0 doc rfl) (by simp)
  · intro h
    rw [h]
    exact paired_nil []

theorem Paired.length_le {built : List QueryDoc} {ids : List String} (h : Paired built ids) :
    built.length ≤ ids.length := by
  by_contra hlt
  have hi : ids.length < built.length := by omega
  have hid := h ids.length _ (List.getElem?_eq_getElem hi)
  rw [List.getElem?_eq_none (Nat.le_refl _)] at hid
  exact absurd hid (by simp)

/-- A document and its id, appended to both lists, stay paired when the list of
ids is no longer than the other, or when it has this id at the next place. -/
theorem paired_append_iff {built : List QueryDoc} {ids : List String} {doc : QueryDoc}
    (h : Paired built ids) :
    Paired (built ++ [doc]) (ids ++ [doc.id]) ↔
      ids.length ≤ built.length ∨ ids[built.length]? = some doc.id := by
  have hle := h.length_le
  constructor
  · intro hnew
    have hid := hnew built.length doc List.getElem?_concat_length
    by_cases hlt : built.length < ids.length
    · rw [List.getElem?_append_left hlt] at hid
      exact Or.inr hid
    · exact Or.inl (by omega)
  · intro hcond i d hd
    by_cases hi : i < built.length
    · rw [List.getElem?_append_left hi] at hd
      rw [List.getElem?_append_left (by omega)]
      exact h i d hd
    · have hlast : i = built.length := by
        have := (List.getElem?_eq_some_iff.mp hd).1
        rw [List.length_append, List.length_singleton] at this
        omega
      subst hlast
      rw [List.getElem?_concat_length, Option.some.injEq] at hd
      subst hd
      rcases hcond with hlen | hid
      · have heq : built.length = ids.length := by omega
        rw [heq]
        exact List.getElem?_concat_length
      · rw [List.getElem?_append_left (List.getElem?_eq_some_iff.mp hid).1]
        exact hid

theorem Built.length_eq {s : Comments} (hs : Built s) : s.comments.length = s.built.length :=
  List.Forall₂.length_eq hs

/-- The comment of a row and the document it was built from. -/
theorem Built.at {s : Comments} (hs : Built s) {i : Nat} {comment : CommentModel}
    (hc : s.comments[i]? = some comment) :
    ∃ doc v, s.built[i]? = some doc ∧ comment = commentOf doc v := by
  obtain ⟨hi, rfl⟩ := List.getElem?_eq_some_iff.mp hc
  have hj : i < s.built.length := hs.length_eq ▸ hi
  obtain ⟨v, hv⟩ := List.Forall₂.get hs hi hj
  exact ⟨s.built[i], v, List.getElem?_eq_getElem hj, hv⟩

theorem Built.rowsShown_iff {s : Comments} (hs : Built s) :
    RowsShown s ↔ Paired s.built s.commentsId := by
  constructor
  · intro h i doc hdoc
    have hi : i < s.comments.length := by
      rw [hs.length_eq]
      exact (List.getElem?_eq_some_iff.mp hdoc).1
    obtain ⟨doc', v, hdoc', _, hid⟩ := h i _ (List.getElem?_eq_getElem hi)
    rw [hdoc, Option.some.injEq] at hdoc'
    rw [hid, hdoc']
  · intro h i comment hc
    obtain ⟨doc, v, hdoc, hv⟩ := hs.at hc
    exact ⟨doc, v, hdoc, hv, h i doc hdoc⟩

/-! ## Steps -/

/-- What a step can do to the lists. -/
inductive RowsStep (s s' : Comments) : Event → Prop
  | same {e : Event} (comments : s'.comments = s.comments) (built : s'.built = s.built)
      (commentsId : s'.commentsId = s.commentsId)
      (cond : InStep s e) : RowsStep s s' e
  | firstBuild {postId : String} {likes : Option Int} (comments : s'.comments = s.comments)
      (built : s'.built = s.built) (commentsId : s'.commentsId = []) :
      RowsStep s s' (.firstBuild postId likes)
  | snapshot {event : QuerySnapshot} (comments : s'.comments = []) (built : s'.built = []) :
      RowsStep s s' (.snapshot event)
  | author {k : Nat} {data : Option Json} {event : QuerySnapshot} {i : Nat} {doc : QueryDoc}
      {uid : Option String} {v : LoginModel}
      (request : s.inFlight[k]? = some (.author event i uid))
      (place : event.docs[i]? = some doc) (value : getUidUserNameAndImage data = some v)
      (comments : s'.comments = s.comments ++ [commentOf doc v])
      (built : s'.built = s.built ++ [doc])
      (commentsId : s'.commentsId = s.commentsId ++ [doc.id]) : RowsStep s s' (.author k data)

theorem step_author {s s' : Comments} {k : Nat} {data : Option Json} {o : List Effect}
    (h : s.step (.author k data) = some (s', o)) :
    ∃ event i uid, s.inFlight[k]? = some (.author event i uid) ∧
      (s.landed k).authorThen event i (getUidUserNameAndImage data) = (s', o) := by
  simp only [step] at h
  split at h
  · rename_i event i uid hk
    exact ⟨event, i, uid, hk, Option.some.inj h⟩
  · exact absurd h (by simp)

theorem step_settled {s s' : Comments} {k : Nat} {o : List Effect}
    (h : s.step (.settled k) = some (s', o)) :
    ∃ w, s.inFlight[k]? = some (.write w) ∧ (s.landed k).writeThen w = (s', o) := by
  simp only [step] at h
  split at h
  · rename_i w hk
    exact ⟨w, hk, Option.some.inj h⟩
  · exact absurd h (by simp)

theorem author_rows {s s' : Comments} {k : Nat} {data : Option Json} {o : List Effect}
    (h : s.step (.author k data) = some (s', o)) : RowsStep s s' (.author k data) := by
  obtain ⟨event, i, uid, hk, hthen⟩ := step_author h
  have hrequest : ∀ {ev j u}, s.inFlight[k]? = some (.author ev j u) → event = ev ∧ i = j := by
    intro ev j u hk'
    rw [hk, Option.some.injEq, Pending.author.injEq] at hk'
    exact ⟨hk'.1, hk'.2.1⟩
  unfold authorThen at hthen
  cases hdoc : event.docs[i]? with
  | none =>
    rw [hdoc] at hthen
    obtain ⟨rfl, -⟩ := Prod.mk.inj hthen
    refine .same rfl rfl rfl fun ev j u doc hk' hdoc' => ?_
    rw [← (hrequest hk').1, ← (hrequest hk').2, hdoc] at hdoc'
    exact absurd hdoc' (by simp)
  | some doc =>
    cases hv : getUidUserNameAndImage data with
    | none =>
      rw [hdoc, hv] at hthen
      obtain ⟨rfl, -⟩ := Prod.mk.inj hthen
      refine .same rfl rfl rfl fun ev j u doc' _ _ hsome => ?_
      rw [hv] at hsome
      exact absurd hsome (by simp)
    | some v =>
      rw [hdoc, hv] at hthen
      obtain ⟨rfl, -⟩ := Prod.mk.inj hthen
      exact .author hk hdoc hv rfl rfl rfl

theorem step_rows {s s' : Comments} {e : Event} {o : List Effect}
    (h : s.step e = some (s', o)) : RowsStep s s' e := by
  have hret : ∀ {r : Comments × List Effect}, some r = some (s', o) → RowsStep s r.1 e →
      RowsStep s s' e := by
    intro r hr hs
    rwa [Option.some.inj hr] at hs
  cases e with
  | firstBuild postId likes => exact hret h (.firstBuild rfl rfl rfl)
  | submit text now =>
    apply hret h
    unfold submit
    by_cases htext : text = ""
    · rw [if_pos htext]
      exact .same rfl rfl rfl trivial
    · rw [if_neg htext]
      exact .same rfl rfl rfl trivial
  | deleteComment index =>
    apply hret h
    unfold deleteComment
    split
    · exact .same rfl rfl rfl trivial
    · split
      · split
        · exact .same rfl rfl rfl trivial
        · exact .same rfl rfl rfl trivial
      · exact .same rfl rfl rfl trivial
  | user uId => exact hret h (.same rfl rfl rfl trivial)
  | snapshot event =>
    simp only [step] at h
    split at h
    · exact hret h (.snapshot rfl rfl)
    · exact absurd h (by simp)
  | author k data => exact author_rows h
  | settled k =>
    obtain ⟨w, _, hthen⟩ := step_settled h
    cases w with
    | addComment post comment => exact hret (congrArg some hthen) (.same rfl rfl rfl trivial)
    | deleteComment post id => exact hret (congrArg some hthen) (.same rfl rfl rfl trivial)

theorem step_built {s s' : Comments} {e : Event} {o : List Effect} (hs : Built s)
    (h : s.step e = some (s', o)) : Built s' := by
  unfold Built
  cases step_rows h with
  | same comments built _ _ =>
    rw [comments, built]
    exact hs
  | firstBuild comments built _ =>
    rw [comments, built]
    exact hs
  | snapshot comments built =>
    rw [comments, built]
    exact .nil
  | @author k data event i doc uid v _ _ _ comments built _ =>
    rw [comments, built]
    exact List.rel_append hs (.cons ⟨v, rfl⟩ .nil)

theorem rowsShown_step_iff {s s' : Comments} {e : Event} {o : List Effect} (hb : Built s)
    (hs : RowsShown s) (h : s.step e = some (s', o)) : RowsShown s' ↔ InStep s e := by
  have hb' := step_built hb h
  rw [hb.rowsShown_iff] at hs
  rw [hb'.rowsShown_iff]
  cases step_rows h with
  | same comments built commentsId cond =>
    rw [built, commentsId]
    exact ⟨fun _ => cond, fun _ => hs⟩
  | firstBuild comments built commentsId =>
    rw [built, commentsId, paired_nil_ids_iff]
    show _ ↔ s.comments = []
    rw [← List.length_eq_zero_iff, ← hb.length_eq, List.length_eq_zero_iff]
  | snapshot comments built =>
    rw [built]
    exact ⟨fun _ => trivial, fun _ => paired_nil _⟩
  | @author k data event i doc uid v request place value comments built commentsId =>
    rw [built, commentsId, paired_append_iff hs, ← hb.length_eq]
    constructor
    · intro hcond ev j u doc' hk hdoc _
      rw [request, Option.some.injEq, Pending.author.injEq] at hk
      rw [← hk.1, ← hk.2.1, place, Option.some.injEq] at hdoc
      rw [← hdoc]
      exact hcond
    · intro hcond
      exact hcond event i uid doc request place (by rw [value]; rfl)

/-- A delete that is sent is of the id at the index of the row, whose comment the
user has written. -/
theorem deleteComment_issues {s : Comments} {index : Nat} {post id : String}
    (h : .issue (.deleteComment post id) ∈ (s.deleteComment index).2) :
    ∃ comment, s.comments[index]? = some comment ∧ comment.uid = s.uId ∧
      s.commentsId[index]? = some id := by
  unfold deleteComment at h
  split at h
  · simp at h
  · rename_i comment hc
    split at h
    · rename_i huid
      split at h
      · simp at h
      · rename_i id' hid'
        simp only [issue, List.mem_singleton, Effect.issue.injEq, Write.deleteComment.injEq] at h
        exact ⟨comment, hc, huid, h.2 ▸ hid'⟩
    · simp at h

theorem RowsShown.deletesShown {s s' : Comments} {e : Event} {o : List Effect}
    (hs : RowsShown s) (h : s.step e = some (s', o)) : DeletesShown s e s' o := by
  rintro index post id rfl hissue
  have ho : (s.deleteComment index).2 = o := congrArg Prod.snd (Option.some.inj h)
  rw [← ho] at hissue
  obtain ⟨comment, hc, huid, hid⟩ := deleteComment_issues hissue
  obtain ⟨doc, v, hdoc, rfl, hdocid⟩ := hs index comment hc
  rw [hid, Option.some.injEq] at hdocid
  exact ⟨doc, hdoc, hdocid.symm, huid⟩

/-- Along a run every comment has the id of its own document, and every delete is
of the comment shown in its row and by its author, exactly when the lists are
filled in step. -/
theorem rows_shown_iff (u : Option String) (es : List Event) :
    machine.Every (fun s e s' o => RowsShown s' ∧ DeletesShown s e s' o) (init u) es ↔
      machine.Every (fun s e _ _ => InStep s e) (init u) es := by
  have hinit : RowsShown (init u) := fun i comment hc => absurd hc (by simp [init])
  refine Reactive.Machine.every_iff (I := fun s => Built s ∧ RowsShown s) ?_ ⟨.nil, hinit⟩
  intro s e s' o hs hstep
  have hiff := rowsShown_step_iff hs.1 hs.2 hstep
  have hdel := RowsShown.deletesShown hs.2 hstep
  exact ⟨⟨fun h => hiff.mp h.1, fun h => ⟨hiff.mpr h, hdel⟩⟩,
    fun h => ⟨step_built hs.1 hstep, h.1⟩⟩

/-! ## A comment too many -/

def comment (id uid text : String) : QueryDoc :=
  { id, data := (CommentModel.ofText (some uid) (some text) (some id)).toJson }

/-- A comment of bob, and then one of ann after it. -/
def oneComment : QuerySnapshot := { docs := [comment "a" "bob" "hi"], nodup := by decide }

def twoComments : QuerySnapshot :=
  { docs := [comment "a" "bob" "hi", comment "b" "ann" "hello"], nodup := by decide }

/-- The profile of an author. -/
def author (uid : String) : Json := fun key =>
  if key = "name" ∨ key = "uid" then some (.string uid) else none

/-- ann's comment is shown first in the second snapshot, next to the id that bob's
comment left there in the first, and her delete is of bob's comment. -/
theorem delete_of_other_comment :
    ¬ machine.Every (fun s e s' o => RowsShown s' ∧ DeletesShown s e s' o) (init (some "ann"))
      ([.firstBuild "post" (some 0), .snapshot oneComment, .author 0 (some (author "bob")),
        .snapshot twoComments, .author 1 (some (author "ann"))] ++ [.deleteComment 0]) := by
  intro h
  have hlast := Reactive.Machine.every_append (M := machine) rfl h
  have hdel := (hlast _ _ rfl).1.2
  obtain ⟨doc, hdoc, hid, _⟩ := hdel 0 "post" "a" rfl (by decide)
  rw [← Option.some.inj hdoc] at hid
  exact absurd hid (by decide)

end Comments
end SocialApp
