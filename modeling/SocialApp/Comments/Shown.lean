import SocialApp.Comments.Rows
import SocialApp.Reactive.Fill
import SocialApp.Reactive.History
import SocialApp.Reactive.InFlight

/-! # The comments and the last snapshot

`comments` is a list filled by tasks that finish in any order: a snapshot delivers a
batch of author lookups, and each lookup that succeeds appends its comment.  The sheet
is told of them by the lookup of the last comment of its snapshot, whenever that one is
answered.  The cubit is run together with a record of its past, which says to which
snapshot a lookup belongs. -/

namespace SocialApp
namespace Comments

open Reactive (Completion Fill)
open Reactive.Machine (step_withHistory)

/-- What has happened to a cubit. -/
structure Past where
  /-- The number of snapshots delivered. -/
  delivered : Nat
  /-- The last of them. -/
  event : QuerySnapshot
  /-- The callbacks in flight, each with the number delivered when it was issued. -/
  waiting : List (Nat × Pending)
  /-- The lookups answered since the last snapshot, in the order they were. -/
  answered : List (Completion (CommentModel × QueryDoc))
  /-- `getCommentSuccess` has been emitted after the last comment was added. -/
  told : Bool

/-- What an event leaves of a list with one entry for each callback in flight. -/
def Event.leave {α : Type} (e : Event) (xs : List α) : List α :=
  match e with
  | .author k _ => xs.eraseIdx k
  | .settled k => xs.eraseIdx k
  | _ => xs

namespace Past

def start : Past :=
  { delivered := 0, event := { docs := [], nodup := List.nodup_nil }, waiting := [],
    answered := [], told := false }

/-- A lookup, with the number of its snapshot. -/
def lookupOf : Nat × Pending → Option (Nat × QuerySnapshot × Nat)
  | (n, .author event i _) => some (n, event, i)
  | (_, .write _) => none

/-- The lookups in flight. -/
def lookups (h : Past) : List (Nat × QuerySnapshot × Nat) := h.waiting.filterMap lookupOf

/-- The callbacks in flight, when those after `left` have just been issued. -/
def issue (n : Nat) (left : List (Nat × Pending)) (inFlight : List Pending) :
    List (Nat × Pending) :=
  Reactive.stamp n left inFlight

end Past

/-- What the `i`-th lookup adds for an answer, and the document it is built from. -/
def added (event : QuerySnapshot) (i : Nat) (value : Option LoginModel) :
    Option (CommentModel × QueryDoc) :=
  event.docs[i]?.bind fun doc => value.map fun v => (commentOf doc v, doc)

/-- The lookup that an event answers. -/
def Past.answer (h : Past) : Event → List (Completion (CommentModel × QueryDoc))
  | .author k data =>
    match h.waiting[k]? with
    | some (n, .author event i _) =>
      [{ batch := n, index := i, result := added event i (getUidUserNameAndImage data) }]
    | _ => []
  | _ => []

/-- The record after a step, which leaves the cubit in state `s` and emits `o`. -/
def Past.note (h : Past) (_ : Comments) (e : Event) (s : Comments) (o : List Effect) : Past :=
  match e with
  | .snapshot event =>
    { delivered := h.delivered + 1, event, answered := [], told := false
      waiting := issue (h.delivered + 1) h.waiting s.inFlight }
  | e =>
    { h with
      waiting := issue h.delivered (e.leave h.waiting) s.inFlight
      answered := h.answered ++ h.answer e
      -- a callback emits after it has added its comment
      told := if .emit .getCommentSuccess ∈ o then true
        else h.told && (h.answer e).all fun c => c.result.isNone }

/-- The cubit with its past. -/
def recorded : Reactive.Machine (Comments × Past) Event Effect := machine.withHistory Past.note

/-- The runs with a record are those of the cubit. -/
theorem run_recorded_iff {u : Option String} {es : List Event} {s : Comments}
    {o : List Effect} :
    (∃ h, recorded.run (init u, Past.start) es = some ((s, h), o)) ↔
      machine.run (init u) es = some (s, o) :=
  Reactive.Machine.run_withHistory_iff Past.note Past.start

/-! ## Steps -/

/-- The record names the callbacks in flight. -/
def Aligned (p : Comments × Past) : Prop := p.2.waiting.map Prod.snd = p.1.inFlight

theorem Past.issue_append (n : Nat) (left : List (Nat × Pending)) (new : List Pending) :
    Past.issue n left (left.map Prod.snd ++ new) = left ++ new.map (Prod.mk n) :=
  Reactive.stamp_append n left new

theorem Aligned.get {p : Comments × Past} (hp : Aligned p) {k : Nat} {x : Pending}
    (h : p.1.inFlight[k]? = some x) : ∃ n, p.2.waiting[k]? = some (n, x) := by
  rw [← hp, List.getElem?_map, Option.map_eq_some_iff] at h
  obtain ⟨⟨n, y⟩, hk, hy⟩ := h
  exact ⟨n, hk.trans (congrArg (fun z => some (n, z)) hy)⟩

theorem lookups_writes (n : Nat) (ws : List Write) :
    ((ws.map Pending.write).map (Prod.mk n)).filterMap Past.lookupOf = [] := by
  rw [List.map_map, List.filterMap_map]
  refine List.filterMap_eq_nil_iff.mpr fun w _ => ?_
  rfl

/-- An event that neither delivers a snapshot nor answers a lookup. -/
def Event.beside (e : Event) : Prop :=
  (∀ event, e ≠ .snapshot event) ∧ ∀ k data, e ≠ .author k data

/-- What such an event does: the comments stay, and only writes are sent. -/
structure Beside (s s' : Comments) (left : List Pending) (o : List Effect) : Prop where
  comments : s'.comments = s.comments
  built : s'.built = s.built
  quiet : .emit .getCommentSuccess ∉ o
  inFlight : ∃ ws : List Write, s'.inFlight = left ++ ws.map .write

theorem issue_beside (s : Comments) (w : Write) :
    Beside s (s.issue w).1 s.inFlight (s.issue w).2 :=
  { comments := rfl, built := rfl, quiet := by simp [issue], inFlight := ⟨[w], rfl⟩ }

theorem beside_of_eq {s : Comments} {o : List Effect} (h : .emit .getCommentSuccess ∉ o) :
    Beside s s s.inFlight o :=
  { comments := rfl, built := rfl, quiet := h, inFlight := ⟨[], (List.append_nil _).symm⟩ }

theorem submit_beside (s : Comments) (text now : String) :
    Beside s (s.submit text now).1 s.inFlight (s.submit text now).2 := by
  unfold submit
  by_cases htext : text = ""
  · rw [if_pos htext]
    exact beside_of_eq List.not_mem_nil
  · rw [if_neg htext]
    exact issue_beside s _

theorem deleteComment_beside (s : Comments) (index : Nat) :
    Beside s (s.deleteComment index).1 s.inFlight (s.deleteComment index).2 := by
  unfold deleteComment
  split
  · exact beside_of_eq (by simp)
  · split
    · split
      · exact beside_of_eq (by simp)
      · exact issue_beside s _
    · exact beside_of_eq (by simp)

theorem writeThen_beside (s : Comments) (w : Write) :
    Beside s (s.writeThen w).1 s.inFlight (s.writeThen w).2 := by
  cases w with
  | addComment post comment =>
    exact { comments := rfl, built := rfl, quiet := by simp [writeThen]
            inFlight := ⟨[], (List.append_nil _).symm⟩ }
  | deleteComment post id =>
    exact { comments := rfl, built := rfl, quiet := by simp [writeThen]
            inFlight := ⟨[], (List.append_nil _).symm⟩ }


theorem step_beside {s s' : Comments} {e : Event} {o : List Effect} (he : e.beside)
    (h : s.step e = some (s', o)) : Beside s s' (e.leave s.inFlight) o := by
  have hret : ∀ {r : Comments × List Effect}, some r = some (s', o) →
      Beside s r.1 (e.leave s.inFlight) r.2 → Beside s s' (e.leave s.inFlight) o := by
    intro r hr hs
    rw [Option.some.inj hr] at hs
    exact hs
  cases e with
  | firstBuild postId likes =>
    exact hret h { comments := rfl, built := rfl
                   quiet := by simp [firstBuild, setSelectedPostId, getComments, setLikes]
                   inFlight := ⟨[], (List.append_nil _).symm⟩ }
  | submit text now => exact hret h (submit_beside s text now)
  | deleteComment index => exact hret h (deleteComment_beside s index)
  | user uId =>
    exact hret h { comments := rfl, built := rfl, quiet := List.not_mem_nil
                   inFlight := ⟨[], (List.append_nil _).symm⟩ }
  | snapshot event => exact absurd rfl (he.1 event)
  | author k data => exact absurd rfl (he.2 k data)
  | settled k =>
    obtain ⟨w, -, hthen⟩ := step_settled h
    have hb := writeThen_beside (s.landed k) w
    rw [hthen] at hb
    exact { comments := hb.comments, built := hb.built, quiet := hb.quiet
            inFlight := hb.inFlight }

theorem authorThen_eq (event : QuerySnapshot) (i : Nat) (value : Option LoginModel)
    (s : Comments) :
    s.authorThen event i value =
      match added event i value with
      | some (comment, doc) =>
        ({ s with comments := s.comments ++ [comment], built := s.built ++ [doc]
                  commentsId := s.commentsId ++ [doc.id] },
          if i + 1 = event.docs.length then [.emit .getCommentSuccess] else [])
      | none => (s, []) := by
  unfold authorThen added
  cases hdoc : event.docs[i]? with
  | none => rfl
  | some doc =>
    cases value with
    | none => rfl
    | some v => rfl

/-- What a step of the cubit does to it and to the record. -/
inductive PastStep (p p' : Comments × Past) : Event → Prop
  | beside {e : Event} (comments : p'.1.comments = p.1.comments)
      (built : p'.1.built = p.1.built) (delivered : p'.2.delivered = p.2.delivered)
      (event : p'.2.event = p.2.event) (lookups : p'.2.lookups = p.2.lookups)
      (answered : p'.2.answered = p.2.answered) (told : p'.2.told = p.2.told)
      (he : e.beside) : PastStep p p' e
  | snapshot {ev : QuerySnapshot} (comments : p'.1.comments = [])
      (built : p'.1.built = []) (delivered : p'.2.delivered = p.2.delivered + 1)
      (event : p'.2.event = ev)
      (lookups : p'.2.lookups = p.2.lookups ++
        (List.range ev.docs.length).map fun i => (p.2.delivered + 1, ev, i))
      (answered : p'.2.answered = []) : PastStep p p' (.snapshot ev)
  | author {k n i : Nat} {data : Option Json} {ev : QuerySnapshot} {uid : Option String}
      {x : Option (CommentModel × QueryDoc)}
      (request : p.2.waiting[k]? = some (n, .author ev i uid))
      (value : x = added ev i (getUidUserNameAndImage data))
      (comments : p'.1.comments = p.1.comments ++ (x.map Prod.fst).toList)
      (built : p'.1.built = p.1.built ++ (x.map Prod.snd).toList)
      (delivered : p'.2.delivered = p.2.delivered) (event : p'.2.event = p.2.event)
      (lookups : ((n, ev, i) :: p'.2.lookups).Perm p.2.lookups)
      (answered : p'.2.answered = p.2.answered ++ [{ batch := n, index := i, result := x }])
      (told : p'.2.told = if x.isSome then decide (i + 1 = ev.docs.length)
        else p.2.told) : PastStep p p' (.author k data)

/-- The record after an event that delivers no snapshot. -/
theorem note_of_ne {h : Past} {s s' : Comments} {e : Event} {o : List Effect}
    (he : ∀ event, e ≠ .snapshot event) :
    h.note s e s' o =
      { h with
        waiting := Past.issue h.delivered (e.leave h.waiting) s'.inFlight
        answered := h.answered ++ h.answer e
        told := if .emit .getCommentSuccess ∈ o then true
          else h.told && (h.answer e).all fun c => c.result.isNone } := by
  cases e with
  | snapshot event => exact absurd rfl (he event)
  | _ => rfl

theorem leave_map {α β : Type} (e : Event) (f : α → β) (xs : List α) :
    (e.leave xs).map f = e.leave (xs.map f) := by
  cases e with
  | author k data => exact (List.eraseIdx_map f xs k).symm
  | settled k => exact (List.eraseIdx_map f xs k).symm
  | _ => rfl

/-- The record names the callbacks in flight after a step, when it did before. -/
theorem Aligned.note {p p' : Comments × Past} {e : Event} {n : Nat} {new : List Pending}
    (hp : Aligned p) (hin : p'.1.inFlight = e.leave p.1.inFlight ++ new)
    (hwaiting : p'.2.waiting = Past.issue n (e.leave p.2.waiting) p'.1.inFlight) :
    Aligned p' ∧ p'.2.waiting = e.leave p.2.waiting ++ new.map (Prod.mk n) := by
  rw [← hp, ← leave_map] at hin
  rw [hin, Past.issue_append] at hwaiting
  refine ⟨?_, hwaiting⟩
  unfold Aligned
  rw [hwaiting, hin, List.map_append, List.map_map]
  simp [Function.comp_def]

theorem beside_past {p p' : Comments × Past} {e : Event} {o : List Effect} (hp : Aligned p)
    (he : e.beside) (h : p.1.step e = some (p'.1, o))
    (hnote : p'.2 = p.2.note p.1 e p'.1 o) : Aligned p' ∧ PastStep p p' e := by
  have hanswer : p.2.answer e = [] := by
    cases e with
    | author k data => exact absurd rfl (he.2 k data)
    | _ => rfl
  have hb := step_beside he h
  rw [note_of_ne he.1, hanswer, if_neg hb.quiet] at hnote
  obtain ⟨ws, hin⟩ := hb.inFlight
  obtain ⟨hp', hwaiting⟩ := hp.note hin (congrArg Past.waiting hnote)
  -- the callback taken out, if any, was a write
  have hleave : (e.leave p.2.waiting).filterMap Past.lookupOf = p.2.lookups := by
    cases e with
    | author k data => exact absurd rfl (he.2 k data)
    | settled k =>
      obtain ⟨w, hk, -⟩ := step_settled h
      obtain ⟨n, hn⟩ := hp.get hk
      exact Reactive.filterMap_eraseIdx_none hn rfl
    | _ => rfl
  refine ⟨hp', .beside hb.comments hb.built ?_ ?_ ?_ ?_ ?_ he⟩
  · rw [hnote]
  · rw [hnote]
  · unfold Past.lookups
    rw [hwaiting, List.filterMap_append, lookups_writes, List.append_nil, hleave]
    rfl
  · rw [hnote]
    exact List.append_nil _
  · rw [hnote]
    exact Bool.and_true _

theorem snapshot_past {p p' : Comments × Past} {event : QuerySnapshot} {o : List Effect}
    (hp : Aligned p) (h : p.1.step (.snapshot event) = some (p'.1, o))
    (hnote : p'.2 = p.2.note p.1 (.snapshot event) p'.1 o) :
    Aligned p' ∧ PastStep p p' (.snapshot event) := by
  have hs : p.1.onComments event = (p'.1, o) := by
    simp only [step, Option.ite_none_right_eq_some, Option.some.injEq] at h
    exact h.2
  have hs' := (congrArg Prod.fst hs).symm
  obtain ⟨hp', hwaiting⟩ := hp.note (e := .snapshot event) (congrArg inFlight hs')
    (congrArg Past.waiting hnote)
  refine ⟨hp', .snapshot (congrArg comments hs') (congrArg built hs') ?_ ?_ ?_ ?_⟩
  · rw [hnote]; rfl
  · rw [hnote]; rfl
  · unfold Past.lookups
    rw [hwaiting, List.filterMap_append]
    congr 1
    rw [List.map_map, List.filterMap_map]
    show List.filterMap (some ∘ fun i => (p.2.delivered + 1, event, i)) _ = _
    rw [List.filterMap_eq_map]
  · rw [hnote]; rfl

theorem author_past {p p' : Comments × Past} {k : Nat} {data : Option Json}
    {o : List Effect} (hp : Aligned p) (h : p.1.step (.author k data) = some (p'.1, o))
    (hnote : p'.2 = p.2.note p.1 (.author k data) p'.1 o) :
    Aligned p' ∧ PastStep p p' (.author k data) := by
  obtain ⟨event, i, uid, hk, hthen⟩ := step_author h
  obtain ⟨n, hn⟩ := hp.get hk
  have hanswer : p.2.answer (.author k data) =
      [{ batch := n, index := i, result := added event i (getUidUserNameAndImage data) }] := by
    simp only [Past.answer, hn]
  rw [note_of_ne (fun _ => by simp), hanswer] at hnote
  rw [authorThen_eq] at hthen
  have hin : p'.1.inFlight = p.1.inFlight.eraseIdx k := by
    cases hx : added event i (getUidUserNameAndImage data) with
    | none =>
      rw [hx] at hthen
      rw [← (Prod.mk.inj hthen).1]
      rfl
    | some x =>
      rw [hx] at hthen
      rw [← (Prod.mk.inj hthen).1]
      rfl
  have hleave : p'.1.inFlight = Event.leave (.author k data) p.1.inFlight ++ [] :=
    hin.trans (List.append_nil _).symm
  obtain ⟨hp', hwaiting⟩ := hp.note hleave (congrArg Past.waiting hnote)
  have hlookups : ((n, event, i) :: p'.2.lookups).Perm p.2.lookups := by
    unfold Past.lookups
    rw [hwaiting, List.map_nil, List.append_nil]
    exact Reactive.filterMap_eraseIdx_some hn rfl
  refine ⟨hp', ?_⟩
  cases hx : added event i (getUidUserNameAndImage data) with
  | none =>
    rw [hx] at hthen hnote
    obtain ⟨hs, ho⟩ := Prod.mk.inj hthen
    refine .author hn hx.symm ?_ ?_ ?_ ?_ hlookups ?_ ?_
    · rw [← hs]; exact (List.append_nil _).symm
    · rw [← hs]; exact (List.append_nil _).symm
    · rw [hnote]
    · rw [hnote]
    · rw [hnote]
    · rw [hnote, ← ho]
      simp
  | some x =>
    rw [hx] at hthen hnote
    obtain ⟨hs, ho⟩ := Prod.mk.inj hthen
    refine .author hn hx.symm ?_ ?_ ?_ ?_ hlookups ?_ ?_
    · rw [← hs]; rfl
    · rw [← hs]; rfl
    · rw [hnote]
    · rw [hnote]
    · rw [hnote]
    · rw [hnote, ← ho]
      by_cases hlast : i + 1 = event.docs.length
      · simp [hlast]
      · simp [hlast]

theorem step_past {p p' : Comments × Past} {e : Event} {o : List Effect} (hp : Aligned p)
    (h : recorded.step p e = some (p', o)) : Aligned p' ∧ PastStep p p' e := by
  obtain ⟨hstep, hnote⟩ := step_withHistory.mp h
  cases e with
  | snapshot event => exact snapshot_past hp hstep hnote
  | author k data => exact author_past hp hstep hnote
  | _ => exact beside_past hp ⟨fun _ => by simp, fun _ _ => by simp⟩ hstep hnote

/-! ## Since the last snapshot -/

/-- The cubit as a list being filled. -/
def Past.fill (h : Past) : Fill (CommentModel × QueryDoc) :=
  { batch := h.delivered, pending := (h.lookups.map fun a => (a.1, a.2.2) : List (Nat × Nat))
    out := h.answered.filterMap Completion.result }

/-- The account of the last snapshot.  Its lookups in flight are of its documents, the
others are of older snapshots, and `comments` holds what the lookups added that were
answered since it was delivered. -/
structure Account (p : Comments × Past) : Prop where
  number : ∀ a ∈ p.2.lookups, a.1 ≤ p.2.delivered
  place : ∀ a ∈ p.2.lookups, a.2.2 < a.2.1.docs.length
  event : ∀ a ∈ p.2.lookups, a.1 = p.2.delivered → a.2.1 = p.2.event
  filled : Fill.Filled p.2.delivered p.2.event.docs.length p.2.fill p.2.answered
  comments : p.1.comments = (p.2.answered.filterMap Completion.result).map Prod.fst
  built : p.1.built = (p.2.answered.filterMap Completion.result).map Prod.snd
  added : ∀ c ∈ p.2.answered, c.batch = p.2.delivered → ∀ x, c.result = some x →
    p.2.event.docs[c.index]? = some x.2 ∧ ∃ v, x.1 = commentOf x.2 v
  /-- The sheet was told of the last comment when it is that of the last document. -/
  told : ∀ cs c, Fill.successes p.2.answered = cs ++ [c] → c.batch = p.2.delivered →
    (p.2.told = true ↔ c.index + 1 = p.2.event.docs.length)

theorem account_start (u : Option String) : Account (init u, Past.start) :=
  { number := by simp [Past.lookups, Past.start]
    place := by simp [Past.lookups, Past.start]
    event := by simp [Past.lookups, Past.start]
    filled := { batch := rfl, out := rfl, once := rfl }
    comments := rfl
    built := rfl
    added := by simp [Past.start]
    told := by simp [Past.start, Fill.successes] }

theorem Account.of_beside {p p' : Comments × Past} (hp : Account p)
    (comments : p'.1.comments = p.1.comments) (built : p'.1.built = p.1.built)
    (delivered : p'.2.delivered = p.2.delivered) (event : p'.2.event = p.2.event)
    (lookups : p'.2.lookups = p.2.lookups) (answered : p'.2.answered = p.2.answered)
    (told : p'.2.told = p.2.told) : Account p' := by
  have hfill : p'.2.fill = p.2.fill := by
    unfold Past.fill
    rw [delivered, lookups, answered]
  exact { number := by rw [lookups, delivered]; exact hp.number
          place := by rw [lookups]; exact hp.place
          event := by rw [lookups, delivered, event]; exact hp.event
          filled := by rw [delivered, event, hfill, answered]; exact hp.filled
          comments := by rw [comments, answered]; exact hp.comments
          built := by rw [built, answered]; exact hp.built
          added := by rw [answered, delivered, event]; exact hp.added
          told := by rw [answered, delivered, event, told]; exact hp.told }

theorem Account.of_snapshot {p p' : Comments × Past} {event : QuerySnapshot}
    (hp : Account p) (comments : p'.1.comments = []) (built : p'.1.built = [])
    (delivered : p'.2.delivered = p.2.delivered + 1) (hevent : p'.2.event = event)
    (lookups : p'.2.lookups = p.2.lookups ++
      (List.range event.docs.length).map fun i => (p.2.delivered + 1, event, i))
    (answered : p'.2.answered = []) : Account p' := by
  have hfresh : Fill.Fresh p.2.fill := by
    intro t ht
    obtain ⟨a, ha, rfl⟩ := List.mem_map.mp (Multiset.mem_coe.mp ht)
    exact hp.number a ha
  have hfill : Fill.machine.step p.2.fill (.deliver event.docs.length) =
      some (p'.2.fill, []) := by
    have hfill' : p'.2.fill =
        { batch := p.2.delivered + 1
          pending := p.2.fill.pending + Fill.tasks (p.2.delivered + 1) event.docs.length
          out := [] } := by
      simp [Past.fill, delivered, lookups, answered, Fill.tasks, Function.comp_def]
    rw [hfill']
    rfl
  have hmem : ∀ {a}, a ∈ p'.2.lookups → a ∈ p.2.lookups ∨
      ∃ i < event.docs.length, (p.2.delivered + 1, event, i) = a := by
    intro a ha
    rw [lookups] at ha
    rcases List.mem_append.mp ha with ha | ha
    · exact Or.inl ha
    · obtain ⟨i, hi, rfl⟩ := List.mem_map.mp ha
      exact Or.inr ⟨i, List.mem_range.mp hi, rfl⟩
  refine { number := fun a ha => ?_, place := fun a ha => ?_, event := fun a ha hb => ?_
           filled := ?_, comments := ?_, built := ?_, added := ?_, told := ?_ }
  · rw [delivered]
    rcases hmem ha with ha | ⟨i, hi, rfl⟩
    · exact Nat.le_succ_of_le (hp.number a ha)
    · exact Nat.le_refl _
  · rcases hmem ha with ha | ⟨i, hi, rfl⟩
    · exact hp.place a ha
    · exact hi
  · rw [hevent]
    rcases hmem ha with ha | ⟨i, hi, rfl⟩
    · have hle := hp.number a ha
      omega
    · rfl
  · have hfilled := Fill.deliver_filled hfresh hfill
    rw [delivered, hevent, answered]
    exact hfilled
  · rw [comments, answered]; rfl
  · rw [built, answered]; rfl
  · rw [answered]
    simp
  · rw [answered]
    simp [Fill.successes]

theorem added_eq_some {event : QuerySnapshot} {i : Nat} {value : Option LoginModel}
    {x : CommentModel × QueryDoc} (h : added event i value = some x) :
    event.docs[i]? = some x.2 ∧ ∃ v, x.1 = commentOf x.2 v := by
  obtain ⟨doc, hdoc, hv⟩ := Option.bind_eq_some_iff.mp h
  obtain ⟨v, -, hx⟩ := Option.map_eq_some_iff.mp hv
  rw [← hx]
  exact ⟨hdoc, v, rfl⟩

theorem added_isSome_iff {event : QuerySnapshot} {i : Nat} {value : Option LoginModel}
    (hi : i < event.docs.length) : (added event i value).isSome = true ↔ value ≠ none := by
  unfold added
  rw [List.getElem?_eq_getElem hi]
  cases value with
  | none => simp
  | some v => simp

theorem Account.of_author {p p' : Comments × Past} {n i : Nat} {ev : QuerySnapshot}
    {value : Option LoginModel} {x : Option (CommentModel × QueryDoc)} (hp : Account p)
    (hx : x = Comments.added ev i value)
    (comments : p'.1.comments = p.1.comments ++ (x.map Prod.fst).toList)
    (built : p'.1.built = p.1.built ++ (x.map Prod.snd).toList)
    (delivered : p'.2.delivered = p.2.delivered) (event : p'.2.event = p.2.event)
    (lookups : ((n, ev, i) :: p'.2.lookups).Perm p.2.lookups)
    (answered : p'.2.answered = p.2.answered ++ [{ batch := n, index := i, result := x }])
    (told : p'.2.told = if x.isSome then decide (i + 1 = ev.docs.length) else p.2.told) :
    Account p' := by
  have hmem : ∀ {a}, a ∈ p'.2.lookups → a ∈ p.2.lookups := fun ha =>
    lookups.mem_iff.mp (List.mem_cons_of_mem _ ha)
  have hself : (n, ev, i) ∈ p.2.lookups := lookups.mem_iff.mp List.mem_cons_self
  have hfill : Fill.machine.step p.2.fill (.finish { batch := n, index := i, result := x }) =
      some (p'.2.fill, [{ batch := n, index := i, result := x }]) := by
    have hpending : p.2.fill.pending = (n, i) ::ₘ p'.2.fill.pending :=
      (Multiset.coe_eq_coe.mpr
        (lookups.map fun a : Nat × QuerySnapshot × Nat => (a.1, a.2.2))).symm
    have hout : p'.2.fill.out = p.2.fill.out ++ x.toList := by
      unfold Past.fill
      rw [answered, List.filterMap_append]
      cases x <;> rfl
    simp only [Fill.machine, hpending, Multiset.mem_cons_self, if_true,
      Multiset.erase_cons_head, ← hout]
    unfold Past.fill
    rw [delivered]
  have hsplit : ∀ {c}, c ∈ p'.2.answered → c ∈ p.2.answered ∨
      c = { batch := n, index := i, result := x } := by
    intro c hc
    rw [answered] at hc
    exact (List.mem_append.mp hc).imp_right List.mem_singleton.mp
  refine { number := fun a ha => delivered ▸ hp.number a (hmem ha)
           place := fun a ha => hp.place a (hmem ha)
           event := fun a ha hb => event ▸ hp.event a (hmem ha) (hb.trans delivered)
           filled := ?_, comments := ?_, built := ?_, added := ?_, told := ?_ }
  · rw [delivered, event, answered]
    exact Fill.finish_filled hp.filled hfill
  · rw [comments, hp.comments, answered, List.filterMap_append, List.map_append]
    cases x <;> rfl
  · rw [built, hp.built, answered, List.filterMap_append, List.map_append]
    cases x <;> rfl
  · intro c hc hb y hy
    rw [delivered] at hb
    rw [event]
    rcases hsplit hc with hc | rfl
    · exact hp.added c hc hb y hy
    · rw [← hp.event _ hself hb]
      exact added_eq_some (hx ▸ hy)
  · intro cs c hlast hb
    rw [delivered] at hb
    rw [answered, Fill.successes_concat] at hlast
    rw [told, event]
    by_cases hsome : x.isSome = true
    · rw [if_pos hsome] at hlast ⊢
      obtain ⟨-, hc⟩ := List.append_inj' hlast rfl
      rw [← List.singleton_inj.mp hc] at hb ⊢
      rw [← hp.event _ hself hb]
      exact decide_eq_true_iff
    · rw [if_neg hsome, List.append_nil] at hlast
      rw [if_neg hsome]
      exact hp.told cs c hlast hb

theorem step_account {p p' : Comments × Past} {e : Event} (hp : Account p)
    (h : PastStep p p' e) : Account p' := by
  cases h with
  | beside comments built delivered event lookups answered told _ =>
    exact hp.of_beside comments built delivered event lookups answered told
  | snapshot comments built delivered event lookups answered =>
    exact hp.of_snapshot comments built delivered event lookups answered
  | author _ value comments built delivered event lookups answered told =>
    exact hp.of_author value comments built delivered event lookups answered told

/-! ## The order of the answers -/

/-- The lookup of the last document has failed. -/
def Past.lastFailed (h : Past) : Bool :=
  Fill.failed h.delivered h.answered (h.event.docs.length - 1)

/-- A lookup that succeeds is of the last snapshot, comes after all those that have
succeeded, and finds that the one of the last document has not failed.  That one fails
only while no comment is shown. -/
def InTurn (p : Comments × Past) : Event → Prop
  | .author k data => ∀ n event i uid, p.2.waiting[k]? = some (n, .author event i uid) →
    (getUidUserNameAndImage data ≠ none → n = p.2.delivered ∧
      (∀ c ∈ Fill.successes p.2.answered, c.index < i) ∧ p.2.lastFailed = false) ∧
    (getUidUserNameAndImage data = none → n = p.2.delivered →
      i + 1 = event.docs.length → p.1.comments = [])
  | _ => True

/-- The comments are in the order of the last snapshot, and its last one is there unless
none is. -/
structure Ordered (h : Past) : Prop where
  inOrder : Fill.InOrder h.delivered h.answered
  last : h.lastFailed = true → Fill.successes h.answered = []

theorem Account.comments_eq_nil_iff {p : Comments × Past} (hp : Account p) :
    p.1.comments = [] ↔ Fill.successes p.2.answered = [] := by
  rw [hp.comments, ← List.length_eq_zero_iff, List.length_map, Fill.successes_length,
    List.length_eq_zero_iff]

/-- Whether an answer is in its turn, by the value that its lookup adds. -/
theorem inTurn_author_iff {p : Comments × Past} {k n i : Nat} {data : Option Json}
    {ev : QuerySnapshot} {uid : Option String} (hp : Account p)
    (request : p.2.waiting[k]? = some (n, .author ev i uid)) :
    InTurn p (.author k data) ↔
      ((added ev i (getUidUserNameAndImage data)).isSome = true → n = p.2.delivered ∧
        (∀ c ∈ Fill.successes p.2.answered, c.index < i) ∧ p.2.lastFailed = false) ∧
      ((added ev i (getUidUserNameAndImage data)).isSome = false → n = p.2.delivered →
        i + 1 = ev.docs.length → Fill.successes p.2.answered = []) := by
  have hself : (n, ev, i) ∈ p.2.lookups :=
    List.mem_filterMap.mpr ⟨_, List.mem_of_getElem? request, rfl⟩
  have hsome := @added_isSome_iff ev i (getUidUserNameAndImage data) (hp.place _ hself)
  have hnone : (added ev i (getUidUserNameAndImage data)).isSome = false ↔
      getUidUserNameAndImage data = none := by
    rw [← Bool.not_eq_true, hsome, not_not]
  rw [hsome, hnone, ← hp.comments_eq_nil_iff]
  constructor
  · intro h
    exact h n ev i uid request
  · intro h n' ev' i' uid' request'
    rw [request, Option.some.injEq, Prod.mk.injEq, Pending.author.injEq] at request'
    obtain ⟨rfl, rfl, rfl, -⟩ := request'
    exact h

/-- Whether the comments stay in order when one more lookup is answered. -/
theorem Account.ordered_concat_iff {p : Comments × Past} {h' : Past} {n i : Nat}
    {ev : QuerySnapshot} {x : Option (CommentModel × QueryDoc)} (hp : Account p)
    (hs : Ordered p.2) (hself : (n, ev, i) ∈ p.2.lookups)
    (delivered : h'.delivered = p.2.delivered) (event : h'.event = p.2.event)
    (answered : h'.answered = p.2.answered ++ [{ batch := n, index := i, result := x }]) :
    Ordered h' ↔
      (x.isSome = true → n = p.2.delivered ∧
        (∀ c ∈ Fill.successes p.2.answered, c.index < i) ∧ p.2.lastFailed = false) ∧
      (x.isSome = false → n = p.2.delivered → i + 1 = ev.docs.length →
        Fill.successes p.2.answered = []) := by
  have hi : i < ev.docs.length := hp.place _ hself
  have hfail : h'.lastFailed = true ↔ p.2.lastFailed = true ∨
      (n = p.2.delivered ∧ i = p.2.event.docs.length - 1 ∧ x.isSome = false) := by
    unfold Past.lastFailed
    rw [delivered, event, answered, Fill.failed_concat]
  have horder : Fill.InOrder h'.delivered h'.answered ↔ (x.isSome = true →
      n = p.2.delivered ∧ ∀ c ∈ Fill.successes p.2.answered, c.index < i) := by
    rw [delivered, answered]
    exact Fill.inOrder_concat_iff hs.inOrder
  cases hx : x.isSome with
  | true =>
    have hne : Fill.successes h'.answered ≠ [] := by
      rw [answered, Fill.successes_concat, if_pos hx]
      exact List.append_ne_nil_of_right_ne_nil _ (List.cons_ne_nil _ _)
    constructor
    · intro h
      obtain ⟨hb, hlt⟩ := horder.mp h.inOrder hx
      refine ⟨fun _ => ⟨hb, hlt, ?_⟩, fun hnone => absurd hnone (by simp)⟩
      exact Bool.not_eq_true _ ▸ fun hlast => hne (h.last (hfail.mpr (Or.inl hlast)))
    · intro ⟨h, _⟩
      obtain ⟨hb, hlt, hlast⟩ := h rfl
      refine { inOrder := horder.mpr fun _ => ⟨hb, hlt⟩, last := fun hfailed => ?_ }
      rcases hfail.mp hfailed with hold | ⟨-, -, hnone⟩
      · exact absurd hold (by simp [hlast])
      · exact absurd hnone (by simp [hx])
  | false =>
    have hsame : Fill.successes h'.answered = Fill.successes p.2.answered := by
      rw [answered, Fill.successes_concat, if_neg (by simp [hx]), List.append_nil]
    have hevent : n = p.2.delivered → ev = p.2.event := fun hb => hp.event _ hself hb
    constructor
    · intro h
      refine ⟨fun hsome => absurd hsome (by simp), fun _ hb hlast => ?_⟩
      rw [← hsame]
      refine h.last (hfail.mpr (Or.inr ⟨hb, ?_, hx⟩))
      rw [← hevent hb]
      omega
    · intro ⟨_, h⟩
      refine { inOrder := horder.mpr fun hsome => absurd hsome (by simp [hx])
               last := fun hfailed => ?_ }
      rw [hsame]
      rcases hfail.mp hfailed with hold | ⟨hb, hlast, -⟩
      · exact hs.last hold
      · rw [← hevent hb] at hlast
        exact h rfl hb (by omega)

theorem ordered_step_iff {p p' : Comments × Past} {e : Event} (hp : Account p)
    (hs : Ordered p.2) (h : PastStep p p' e) (he : ∀ event, e ≠ .snapshot event) :
    Ordered p'.2 ↔ InTurn p e := by
  cases h with
  | beside _ _ delivered event _ answered _ hbeside =>
    have hturn : InTurn p e := by
      cases e with
      | author k data => exact absurd rfl (hbeside.2 k data)
      | _ => trivial
    refine ⟨fun _ => hturn, fun _ => ?_⟩
    exact { inOrder := by rw [delivered, answered]; exact hs.inOrder
            last := by unfold Past.lastFailed; rw [delivered, answered, event]; exact hs.last }
  | snapshot _ _ _ _ _ _ => exact absurd rfl (he _)
  | author request value _ _ delivered event _ answered _ =>
    rw [inTurn_author_iff hp request, ← value]
    exact hp.ordered_concat_iff hs
      (List.mem_filterMap.mpr ⟨_, List.mem_of_getElem? request, rfl⟩) delivered event answered

/-- Comments that are in order were in order before the last answer. -/
theorem ordered_of_step {p p' : Comments × Past} {e : Event} (h : PastStep p p' e)
    (he : ∀ event, e ≠ .snapshot event) (hs : Ordered p'.2) : Ordered p.2 := by
  cases h with
  | beside _ _ delivered event _ answered _ _ =>
    obtain ⟨hin, hlast⟩ := hs
    unfold Past.lastFailed at hlast
    rw [delivered, answered] at hin
    rw [delivered, answered, event] at hlast
    exact ⟨hin, hlast⟩
  | snapshot _ _ _ _ _ _ => exact absurd rfl (he _)
  | author _ _ _ _ delivered event _ answered _ =>
    obtain ⟨hin, hlast⟩ := hs
    unfold Past.lastFailed at hlast
    rw [delivered, answered] at hin
    rw [delivered, answered, event, Fill.failed_concat, Fill.successes_concat] at hlast
    exact ⟨hin.of_append, fun hfail => (List.append_eq_nil_iff.mp (hlast (Or.inl hfail))).1⟩

/-- Since a snapshot the comments are in its order exactly when each answer came in its
turn. -/
theorem run_ordered_iff {p p' : Comments × Past} {es : List Event} {o : List Effect}
    (hp : Aligned p ∧ Account p) (hs : Ordered p.2)
    (hes : ∀ e ∈ es, ∀ event, e ≠ .snapshot event)
    (hrun : recorded.run p es = some (p', o)) :
    Ordered p'.2 ↔ recorded.Every (fun p e _ _ => InTurn p e) p es := by
  refine Reactive.Machine.end_iff (M := recorded) (J := fun p _ => Aligned p ∧ Account p)
    (I := fun p _ => Ordered p.2) (H := fun _ e _ _ => ∀ event, e ≠ .snapshot event) (a := [])
    ?_ ?_ ?_ hp hs (Reactive.Machine.every_of_forall (fun _ _ _ _ h => h) hes p) hrun
  · intro p e p' o _ hp hstep _
    obtain ⟨haligned, hpast⟩ := step_past hp.1 hstep
    exact ⟨haligned, step_account hp.2 hpast⟩
  · intro p e p' o _ hp hstep he hend
    exact ordered_of_step (step_past hp.1 hstep).2 he hend
  · intro p e p' o _ hp hs hstep he
    exact ordered_step_iff hp.2 hs (step_past hp.1 hstep).2 he

theorem run_account {u : Option String} {es : List Event} {p : Comments × Past}
    {o : List Effect} (hrun : recorded.run (init u, Past.start) es = some (p, o)) :
    Aligned p ∧ Account p := by
  have hstart : Aligned (init u, Past.start) := rfl
  refine Reactive.Machine.run_state_preserves (M := recorded) (I := fun p => Aligned p ∧ Account p)
    ?_ ⟨hstart, account_start u⟩ hrun
  intro p e p' o hp hstep
  obtain ⟨haligned, hpast⟩ := step_past hp.1 hstep
  exact ⟨haligned, step_account hp.2 hpast⟩

/-! ## The sheet -/

/-- The places of the last snapshot whose lookup has not failed, in the order of
`commentTime`, which is that of the documents. -/
def Past.kept (h : Past) : List Nat := Fill.kept h.delivered h.event.docs.length h.answered

/-- The sheet shows the last snapshot: its documents in their order without those whose
lookup failed, none twice, each as its lookup was answered.  And it was told of them. -/
structure ShowsLast (p : Comments × Past) : Prop where
  built : p.1.built.map some = p.2.kept.map fun i => p.2.event.docs[i]?
  nodup : (p.1.built.map QueryDoc.id).Nodup
  comments : List.Forall₂ (fun i comment => ∃ doc v, p.2.event.docs[i]? = some doc ∧
    comment = commentOf doc v ∧
    { batch := p.2.delivered, index := i, result := some (comment, doc) } ∈ p.2.answered)
    p.2.kept p.1.comments
  told : p.1.comments ≠ [] → p.2.told = true

theorem docs_inj {event : QuerySnapshot} {i j : Nat} (hi : i < event.docs.length)
    (h : event.docs[i]?.map QueryDoc.id = event.docs[j]?.map QueryDoc.id) : i = j := by
  rw [← List.getElem?_map, ← List.getElem?_map] at h
  exact (List.getElem?_inj (by simpa using hi) event.nodup).mp h

/-- Once no lookup is in flight, each document of the last snapshot has been looked up. -/
theorem Account.once {p : Comments × Past} (hp : Account p) (hquiet : p.2.lookups = []) :
    ((Fill.ofBatch p.2.delivered p.2.answered).map Completion.index).Perm
      (List.range p.2.event.docs.length) := by
  have honce := hp.filled.once
  simp only [Past.fill, hquiet] at honce
  exact Multiset.coe_eq_coe.mp (by simpa using honce)

theorem Account.built_iff {p : Comments × Past} (hp : Account p)
    (hquiet : p.2.lookups = []) :
    (p.1.built.map some = p.2.kept.map fun i => p.2.event.docs[i]?) ↔
      Fill.InOrder p.2.delivered p.2.answered := by
  have hbuilt : p.1.built.map some =
      (p.2.answered.filterMap Completion.result).map fun x => some x.2 := by
    rw [hp.built, List.map_map]
    rfl
  rw [hbuilt]
  exact Fill.out_eq_kept_iff (fun x => some x.2) (fun i => p.2.event.docs[i]?) (hp.once hquiet)
    (fun c hc hb x hx => (hp.added c hc hb x hx).1.symm)
    (fun i j hi _ h => docs_inj hi (congrArg _ h))

/-- The comments in order, and the last of them is that of the last document. -/
theorem Account.last_iff {p : Comments × Past} (hp : Account p)
    (hquiet : p.2.lookups = []) (hin : Fill.InOrder p.2.delivered p.2.answered) :
    (p.1.comments ≠ [] → p.2.told = true) ↔
      (p.2.lastFailed = true → Fill.successes p.2.answered = []) := by
  rw [ne_eq, hp.comments_eq_nil_iff]
  rcases List.eq_nil_or_concat' (Fill.successes p.2.answered) with hnil | ⟨cs, c, hcs⟩
  · exact ⟨fun _ _ => hnil, fun _ hne => absurd hnil hne⟩
  · have hmem : c ∈ Fill.successes p.2.answered := by
      rw [hcs]
      exact List.mem_append_right _ List.mem_cons_self
    have hne := List.ne_nil_of_mem hmem
    have htold : p.2.told = true ↔ p.2.lastFailed = false :=
      (hp.told cs c hcs (hin.1 c hmem)).trans (hin.last_index_iff (hp.once hquiet) hcs)
    rw [htold, ← Bool.not_eq_true]
    exact ⟨fun h hfail => absurd hfail (h hne), fun h _ hfail => hne (h hfail)⟩

/-- Once no lookup is in flight, the sheet shows the last snapshot exactly when the
comments are in order. -/
theorem Account.showsLast_iff {p : Comments × Past} (hp : Account p)
    (hquiet : p.2.lookups = []) : ShowsLast p ↔ Ordered p.2 := by
  constructor
  · intro h
    have hin := (hp.built_iff hquiet).mp h.built
    exact { inOrder := hin, last := (hp.last_iff hquiet hin).mp h.told }
  · intro h
    have hbuilt := (hp.built_iff hquiet).mpr h.inOrder
    refine { built := hbuilt, nodup := ?_, comments := ?_
             told := (hp.last_iff hquiet h.inOrder).mpr h.last }
    · have hids : (p.1.built.map QueryDoc.id).map some =
          p.2.kept.map fun i => p.2.event.docs[i]?.map QueryDoc.id := by
        have := congrArg (List.map (Option.map QueryDoc.id)) hbuilt
        rw [List.map_map, List.map_map] at this
        rw [List.map_map]
        exact this
      refine List.Nodup.of_map some ?_
      rw [hids]
      exact Fill.kept_nodup.map_on fun i hi _ _ => docs_inj (Fill.kept_lt hi)
    · unfold Past.kept
      rw [hp.comments, ← h.inOrder.index_eq_kept (hp.once hquiet), List.forall₂_map_right_iff]
      refine Fill.forall₂_successes.imp fun i x ⟨c, hc, hi, hx⟩ => ?_
      have hb := h.inOrder.1 c (List.mem_filter.mpr ⟨hc, by simp [hx]⟩)
      obtain ⟨hdoc, v, hv⟩ := hp.added c hc hb x hx
      refine ⟨x.2, v, hi ▸ hdoc, hv, ?_⟩
      rw [← hb, ← hi, ← hx]
      exact hc

theorem snapshot_ordered {p p' : Comments × Past} {event : QuerySnapshot}
    (h : PastStep p p' (.snapshot event)) : Ordered p'.2 ∧ p'.2.event = event := by
  cases h with
  | beside _ _ _ _ _ _ _ he => exact absurd rfl (he.1 event)
  | snapshot _ _ _ hevent _ answered =>
    refine ⟨?_, hevent⟩
    exact { inOrder := by rw [answered]; exact ⟨by simp [Fill.successes], List.Pairwise.nil⟩
            last := fun _ => by rw [answered]; rfl }

theorem step_event {p p' : Comments × Past} {e : Event} (h : PastStep p p' e)
    (he : ∀ event, e ≠ .snapshot event) : p'.2.event = p.2.event := by
  cases h with
  | beside _ _ _ event _ _ _ _ => exact event
  | snapshot _ _ _ _ _ _ => exact absurd rfl (he _)
  | author _ _ _ _ _ event _ _ _ => exact event

/-- When no author lookup is in flight, the sheet shows the last snapshot exactly when
each lookup that was answered since then was in its turn. -/
theorem shows_last_iff {u : Option String} {es₁ es₂ : List Event} {event : QuerySnapshot}
    {p₁ p : Comments × Past} {o₁ o₂ : List Effect}
    (h₁ : recorded.run (init u, Past.start) (es₁ ++ [.snapshot event]) = some (p₁, o₁))
    (h₂ : recorded.run p₁ es₂ = some (p, o₂))
    (hes₂ : ∀ e ∈ es₂, ∀ ev, e ≠ .snapshot ev) (hquiet : p.2.lookups = []) :
    p.2.event = event ∧
      (ShowsLast p ↔ recorded.Every (fun p e _ _ => InTurn p e) p₁ es₂) := by
  have hp₁ := run_account h₁
  -- the state in which the last snapshot arrives
  obtain ⟨p₀, q₀, q₁, hrun₀, hrun₁, -⟩ := Reactive.Machine.run_append.mp h₁
  obtain ⟨p', r₁, r₂, hstep, hnil, -⟩ := Reactive.Machine.run_cons.mp hrun₁
  simp only [Reactive.Machine.run_nil, Option.some.injEq, Prod.mk.injEq] at hnil
  obtain ⟨rfl, -⟩ := hnil
  obtain ⟨hordered, hevent⟩ := snapshot_ordered (step_past (run_account hrun₀).1 hstep).2
  have hsince := Reactive.Machine.every_of_forall (M := recorded)
    (Q := fun _ e _ _ => ∀ ev, e ≠ .snapshot ev) (fun _ _ _ _ h => h) hes₂ p'
  have hp := Reactive.Machine.run_state_invariant (M := recorded)
    (I := fun p => (Aligned p ∧ Account p) ∧ p.2.event = event)
    (fun _ _ _ _ hp hstep he =>
      have hpast := step_past hp.1.1 hstep
      ⟨⟨hpast.1, step_account hp.1.2 hpast.2⟩, (step_event hpast.2 he).trans hp.2⟩)
    ⟨hp₁, hevent⟩ hsince h₂
  refine ⟨hp.2, ?_⟩
  rw [hp.1.2.showsLast_iff hquiet]
  exact run_ordered_iff hp₁ hordered hes₂ h₂

/-- The lookup of the older snapshot ends after the newer one has arrived, and its comment
is shown twice. -/
theorem comment_shown_twice :
    ∃ p₁ o₁ p o₂,
      recorded.run (init (some "ann"), Past.start)
        ([.firstBuild "post" (some 0), .snapshot oneComment] ++ [.snapshot twoComments]) =
          some (p₁, o₁) ∧
      recorded.run p₁ [.author 0 (some (author "bob")), .author 0 (some (author "bob")),
        .author 0 (some (author "ann"))] = some (p, o₂) ∧
      p.2.lookups = [] ∧ p.1.built.map QueryDoc.id = ["a", "a", "b"] ∧ ¬ ShowsLast p := by
  refine ⟨_, _, _, _, rfl, rfl, rfl, rfl, fun h => ?_⟩
  have hnodup := h.nodup
  revert hnodup
  decide

theorem shows_last_iff_twoComments :
    ∃ p₁ o₁ p o₂,
      recorded.run (init (some "ann"), Past.start)
        ([.firstBuild "post" (some 0)] ++ [.snapshot twoComments]) = some (p₁, o₁) ∧
      recorded.run p₁ [.author 0 none, .author 0 (some (author "ann"))] = some (p, o₂) ∧
      p.1.commentsId = ["b"] ∧ ShowsLast p := by
  refine ⟨_, _, _, _, rfl, rfl, rfl, (@shows_last_iff (some "ann")
    [.firstBuild "post" (some 0)] [.author 0 none, .author 0 (some (author "ann"))] twoComments
    _ _ _ _ rfl rfl (by simp) rfl).2.mpr ?_⟩
  refine Reactive.Machine.every_cons rfl ?_ (Reactive.Machine.every_cons rfl ?_ trivial)
  · intro n event i uid _
    exact ⟨fun hvalue => absurd rfl hvalue, fun _ _ _ => rfl⟩
  · intro n event i uid request
    obtain ⟨rfl, -⟩ := Prod.mk.inj (Option.some.inj request)
    refine ⟨fun _ => ⟨rfl, fun c hc => absurd hc List.not_mem_nil, rfl⟩, fun hvalue => ?_⟩
    exact absurd hvalue (by simp [getUidUserNameAndImage, LoginModel.fromJson])

end Comments
end SocialApp
