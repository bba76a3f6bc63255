import SocialApp.Home.Feed

/-! # The rows of a snapshot, in any order of its lookups

The lookups of a snapshot answer in any order, and the rows stand in that order.  Which
rows there are does not depend on it: each document whose author was found has one row. -/

namespace SocialApp
namespace Home

/-- The row of the document at place `i`, when the lookup of its author answers so. -/
def rowAt (event : QuerySnapshot) (answer : Nat → Option Json) (i : Nat) :
    Option (PostModel × String) :=
  (docAt event i).bind fun doc =>
    (getUidUserNameAndImage (answer i)).map fun v => (postOf doc v, doc.id)

/-- The lookup at each place answers with `answer`. -/
def AnswersWith (answer : Nat → Option Json) (s : Home) : Event → Prop
  | .author k data => ∀ n event i uid, s.inFlight[k]? = some (.author n event i uid) →
      data = answer i
  | _ => True

/-- The rows that are shown, with those that the lookups in flight will add, are the rows
of `event`. -/
structure Rows (event : QuerySnapshot) (answer : Nat → Option Json) (s : Home) : Prop where
  length : s.posts.length = s.postId.length
  authors : ∀ a ∈ s.authors, a.2.1 = event
  rows : (s.posts.zip s.postId ++ s.authors.filterMap fun a => rowAt event answer a.2.2.1).Perm
    ((List.range event.docs.length).filterMap (rowAt event answer))

variable {event : QuerySnapshot} {answer : Nat → Option Json} {s s' : Home} {o : List Effect}

theorem snapshot_rowsOf (hquiet : s.authors = [])
    (h : step s (.snapshot event) = some (s', o)) : Rows event answer s' := by
  obtain ⟨posts, postId, authors, -, -⟩ := snapshot_rows h
  rw [hquiet, List.nil_append] at authors
  refine { length := by rw [posts, postId]; rfl, authors := fun a ha => ?_, rows := ?_ }
  · rw [authors] at ha
    obtain ⟨i, -, rfl⟩ := List.mem_map.mp ha
    rfl
  · rw [posts, postId, authors, List.filterMap_map]
    exact .refl _

theorem step_rowsOf {e : Event} (hs : Rows event answer s) (hsince : e.since)
    (hanswer : AnswersWith answer s e) (h : step s e = some (s', o)) : Rows event answer s' := by
  cases step_rows h with
  | same _ posts postId authors _ _ =>
    exact { length := by rw [posts, postId]; exact hs.length
            authors := by rw [authors]; exact hs.authors
            rows := by rw [posts, postId, authors]; exact hs.rows }
  | snapshot _ _ _ _ _ => exact absurd rfl (hsince.2 _)
  | removed deletes _ _ _ _ _ => exact absurd deletes (by simp [hsince.1])
  | @author k data n ev i uid added rest request posts postId authors _ _ _ added_eq =>
    have hmem : (n, ev, i, uid) ∈ s.authors := authors.mem_iff.mp List.mem_cons_self
    obtain rfl : ev = event := hs.authors _ hmem
    have hadded : added = rowAt ev answer i := by
      rw [added_eq, hanswer n ev i uid request]
      rfl
    have hzip : s'.posts.zip s'.postId = s.posts.zip s.postId ++ added.toList := by
      rw [posts, postId, List.zip_append hs.length]
      cases added <;> rfl
    refine { length := ?_, authors := fun a ha => ?_, rows := ?_ }
    · rw [posts, postId, List.length_append, List.length_append, hs.length]
      cases added <;> rfl
    · exact hs.authors a (authors.mem_iff.mp (List.mem_cons_of_mem _ ha))
    · -- the row leaves the lookups in flight and joins the list
      refine List.Perm.trans ?_ hs.rows
      rw [hzip, List.append_assoc, hadded]
      refine List.Perm.append_left _ ?_
      have hperm := authors.filterMap fun a => rowAt ev answer a.2.2.1
      refine List.Perm.trans ?_ hperm
      rw [List.filterMap_cons]
      cases rowAt ev answer i <;> exact .refl _

/-- After a snapshot that found no lookup in flight, and with no other snapshot and no
delete since: when all lookups have answered, in whatever order and mixed with whatever
else happens, each document whose author was found has exactly one row, with its own
content and id, and there is no other row. -/
theorem rows_in_any_order {s₀ s₁ : Home} {es : List Event} {o₁ : List Effect}
    (hquiet₀ : s₀.authors = []) (hstep : machine.step s₀ (.snapshot event) = some (s₁, o₁))
    (hsince : ∀ e ∈ es, e.deletes = false ∧ ∀ ev, e ≠ .snapshot ev)
    (hanswers : machine.Every (fun s e _ _ => AnswersWith answer s e) s₁ es)
    (hrun : machine.run s₁ es = some (s, o)) (hquiet : s.authors = []) :
    s.posts.length = s.postId.length ∧
      (s.posts.zip s.postId).Perm
        ((List.range event.docs.length).filterMap (rowAt event answer)) := by
  have hevery : machine.Every (fun _ e _ _ => e.since) s₁ es :=
    Reactive.Machine.every_of_forall (fun _ _ _ _ h => h) hsince s₁
  have hs : Rows event answer s :=
    Reactive.Machine.run_state_invariant (I := Rows event answer)
      (fun _ _ _ _ hs h hq => step_rowsOf hs hq.1 hq.2 h) (snapshot_rowsOf hquiet₀ hstep)
      (hevery.and hanswers) hrun
  refine ⟨hs.length, ?_⟩
  have hrows := hs.rows
  rwa [hquiet, List.filterMap_nil, List.append_nil] at hrows

/-- The lookup of the older post answers first. -/
theorem rows_in_any_order_twoPosts :
    ∃ s₁ o₁ s o, machine.step ((init none).login "ann").1 (.snapshot twoPosts) = some (s₁, o₁) ∧
      machine.run s₁ [.author 2 (some (userOf "ann").toMap),
        .author 1 (some (userOf "bob").toMap)] = some (s, o) ∧
      s.postId = ["2022-01-01", "2022-01-02"] ∧
      (s.posts.zip s.postId).Perm ((List.range 2).filterMap (rowAt twoPosts
        fun i => if i = 0 then some (userOf "bob").toMap else some (userOf "ann").toMap)) := by
  refine ⟨_, _, _, _, rfl, rfl, rfl, (@rows_in_any_order twoPosts
    (fun i => if i = 0 then some (userOf "bob").toMap else some (userOf "ann").toMap) _ _
    ((init none).login "ann").1 _ [.author 2 (some (userOf "ann").toMap),
      .author 1 (some (userOf "bob").toMap)] _ rfl rfl ?_ ?_ rfl rfl).2⟩
  · simp [Event.deletes]
  · refine Reactive.Machine.every_cons rfl ?_ (Reactive.Machine.every_cons rfl ?_ trivial)
    · intro n event i uid hk
      obtain ⟨-, -, rfl, -⟩ := Pending.author.inj (Option.some.inj hk)
      rfl
    · intro n event i uid hk
      obtain ⟨-, -, rfl, -⟩ := Pending.author.inj (Option.some.inj hk)
      rfl

end Home
end SocialApp
