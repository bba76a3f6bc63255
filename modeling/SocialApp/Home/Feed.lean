import SocialApp.Home.Rows
import SocialApp.Reactive.Fill

/-! # The feed and the last snapshot

`posts` and `postId` are a list filled by tasks that finish in any order: a
snapshot delivers a batch of author lookups, and each lookup that succeeds
appends its row.  `step_simulates` shows it, and the account of such lists then
says when the feed is the last snapshot, newest post first. -/

namespace SocialApp
namespace Home

open Reactive (Completion Fill FillEvent)

/-- A lookup that ended, as a completion of its snapshot's batch. -/
def lookup : Effect → Option (Completion (PostModel × String))
  | .lookedUp n i added => some { batch := n, index := i, result := added }
  | _ => none

/-- The lookups that ended, in the order they did. -/
def lookups (o : List Effect) : List (Completion (PostModel × String)) := o.filterMap lookup

theorem lookups_append (o o' : List Effect) : lookups (o ++ o') = lookups o ++ lookups o' :=
  List.filterMap_append

theorem Silent.lookups {o : List Effect} (h : Silent o) : lookups o = [] := by
  refine List.filterMap_eq_nil_iff.mpr fun a ha => ?_
  cases a with
  | lookedUp n i added => exact absurd ha (h n i added)
  | _ => rfl

theorem lookups_author (n i : Nat) (added : Option (PostModel × String)) {o : List Effect}
    (h : Silent o) :
    lookups (.lookedUp n i added :: o) = [{ batch := n, index := i, result := added }] :=
  congrArg (List.cons _) h.lookups

/-- The rows and the lookups in flight are a list being filled. -/
structure AsFill (s : Home) (t : Fill (PostModel × String)) : Prop where
  batch : t.batch = s.delivered
  pending : t.pending = (s.authors.map fun a => (a.1, a.2.2.1) : List (Nat × Nat))
  posts : s.posts = t.out.map Prod.fst
  postId : s.postId = t.out.map Prod.snd

/-- The state a snapshot leaves is a list to be filled with its lookups. -/
theorem snapshot_asFill {s s' : Home} {t : Fill (PostModel × String)}
    {event : QuerySnapshot} (batch : t.batch = s.delivered)
    (pending : t.pending = (s.authors.map fun a => (a.1, a.2.2.1) : List (Nat × Nat)))
    (posts : s'.posts = []) (postId : s'.postId = [])
    (authors : s'.authors =
      s.authors ++ (List.range event.docs.length).map fun i =>
        (s.delivered + 1, event, i, uidAt event i))
    (delivered : s'.delivered = s.delivered + 1) :
    AsFill s' { batch := t.batch + 1,
                pending := t.pending + Fill.tasks (t.batch + 1) event.docs.length,
                out := [] } := by
  refine { batch := ?_, pending := ?_, posts := posts, postId := postId }
  · rw [delivered, batch]
  · rw [authors, pending, batch, List.map_append, ← Multiset.coe_add]
    simp [Fill.tasks, Function.comp_def]

/-- A step that removes no row is a step of the list being filled, or none. -/
theorem step_simulates {s s' : Home} {t : Fill (PostModel × String)} {e : Event}
    {o : List Effect} (hR : AsFill s t) (h : machine.step s e = some (s', o))
    (he : e.deletes = false) :
    ∃ fs t', (∀ f ∈ fs, (∃ c, f = .finish c) ∨ ∃ event, e = .snapshot event) ∧
      Fill.machine.run t fs = some (t', o.filterMap lookup) ∧ AsFill s' t' := by
  cases step_rows h with
  | same _ posts postId authors delivered silent =>
    have hsilent : o.filterMap lookup = [] := silent.lookups
    refine ⟨[], t, by simp, by rw [hsilent]; rfl, ?_⟩
    exact { batch := hR.batch.trans delivered.symm
            pending := authors ▸ hR.pending
            posts := posts.trans hR.posts
            postId := postId.trans hR.postId }
  | @snapshot event posts postId authors delivered silent =>
    refine ⟨[.deliver event.docs.length],
      { batch := t.batch + 1, pending := t.pending + Fill.tasks (t.batch + 1) event.docs.length,
        out := [] }, fun _ _ => Or.inr ⟨event, rfl⟩, ?_, ?_⟩
    · rw [silent]; rfl
    · exact snapshot_asFill hR.batch hR.pending posts postId authors delivered
  | @author k data n event i uid added rest _ posts postId authors delivered effects silent _ =>
    have hperm := authors.map fun a => (a.1, a.2.2.1)
    have hpending : t.pending =
        (n, i) ::ₘ (s'.authors.map fun a => (a.1, a.2.2.1) : List (Nat × Nat)) := by
      rw [hR.pending, Multiset.cons_coe]
      exact (Multiset.coe_eq_coe.mpr hperm).symm
    refine ⟨[.finish { batch := n, index := i, result := added }],
      { t with pending := t.pending.erase (n, i), out := t.out ++ added.toList },
      fun f hf => Or.inl ⟨_, List.mem_singleton.mp hf⟩, ?_, ?_⟩
    · have hmem : (n, i) ∈ t.pending := by rw [hpending]; exact Multiset.mem_cons_self _ _
      have heffects : o.filterMap lookup = [{ batch := n, index := i, result := added }] := by
        rw [effects]
        exact lookups_author n i added silent
      simp [Fill.machine, Reactive.Machine.run, hmem, heffects]
    · refine { batch := hR.batch.trans delivered.symm, pending := ?_, posts := ?_,
               postId := ?_ }
      · rw [hpending, Multiset.erase_cons_head]
      · rw [posts, hR.posts]; cases added <;> simp
      · rw [postId, hR.postId]; cases added <;> simp
  | removed deletes _ _ _ _ _ => exact absurd deletes (by simp [he])

/-! ## Since the last snapshot -/

/-- A lookup in flight is of a snapshot that was delivered, at one of its places. -/
def Numbered (s : Home) : Prop :=
  ∀ a ∈ s.authors, a.1 ≤ s.delivered ∧ a.2.2.1 < a.2.1.docs.length

theorem step_numbered {s s' : Home} {e : Event} {o : List Effect} (hs : Numbered s)
    (h : step s e = some (s', o)) : Numbered s' := by
  cases step_rows h with
  | same _ _ _ authors delivered _ =>
    intro a ha
    rw [delivered]
    exact hs a (authors ▸ ha)
  | snapshot _ _ authors delivered _ =>
    intro a ha
    rw [authors] at ha
    rw [delivered]
    rcases List.mem_append.mp ha with ha | ha
    · exact ⟨Nat.le_succ_of_le (hs a ha).1, (hs a ha).2⟩
    · obtain ⟨i, hi, rfl⟩ := List.mem_map.mp ha
      exact ⟨Nat.le_refl _, List.mem_range.mp hi⟩
  | author _ _ _ authors delivered _ _ _ =>
    intro a ha
    rw [delivered]
    exact hs a (authors.mem_iff.mp (List.mem_cons_of_mem _ ha))
  | removed _ _ _ authors delivered _ =>
    intro a ha
    rw [delivered]
    exact hs a (authors ▸ ha)

theorem run_numbered {u : Option String} {es : List Event} {s : Home} {o : List Effect}
    (hrun : machine.run (init u) es = some (s, o)) : Numbered s :=
  Reactive.Machine.run_state_preserves (M := machine)
    (fun _ _ _ _ hs hstep => step_numbered hs hstep) (by simp [Numbered, authors, init]) hrun

theorem docAt_of_lt {event : QuerySnapshot} {i : Nat} (h : i < event.docs.length) :
    ∃ doc, docAt event i = some doc :=
  ⟨_, List.getElem?_eq_getElem (by omega)⟩

/-- The account of snapshot number `b`, which is `event`, since it was delivered.
The lookups of number `b` in flight are of its documents, those that ended added the
rows of its documents, and the ids are those of the rows that were added. -/
structure Filling (b : Nat) (event : QuerySnapshot) (s : Home) (o : List Effect) : Prop where
  numbered : Numbered s
  delivered : s.delivered = b
  authors : ∀ a ∈ s.authors, a.1 = b → a.2.1 = event
  bound : ∀ c ∈ lookups o, c.batch = b → c.index < event.docs.length
  added : ∀ c ∈ lookups o, c.batch = b → ∀ x, c.result = some x →
    ∃ doc v, docAt event c.index = some doc ∧ x = (postOf doc v, doc.id)
  postId : s.postId = ((lookups o).filterMap Completion.result).map Prod.snd

/-- The events since the last snapshot. -/
def Event.since (e : Event) : Prop := e.deletes = false ∧ ∀ event, e ≠ .snapshot event

theorem snapshot_filling {event : QuerySnapshot} {s s' : Home} {o : List Effect}
    (hs : Numbered s) (h : step s (.snapshot event) = some (s', o)) :
    Filling s'.delivered event s' [] := by
  have hnumbered := step_numbered hs h
  obtain ⟨_, postId, authors, delivered, _⟩ := snapshot_rows h
  refine { numbered := hnumbered, delivered := rfl, authors := fun a ha hb => ?_
           bound := by simp [lookups], added := by simp [lookups], postId := postId }
  rw [authors] at ha
  rcases List.mem_append.mp ha with ha | ha
  · have hle := (hs a ha).1
    omega
  · obtain ⟨i, _, rfl⟩ := List.mem_map.mp ha
    rfl

theorem step_filling {b : Nat} {event : QuerySnapshot} {s s' : Home} {e : Event}
    {o o' : List Effect} (hs : Filling b event s o)
    (h : machine.step s e = some (s', o')) (he : e.since) :
    Filling b event s' (o ++ o') := by
  have hnumbered := step_numbered hs.numbered h
  cases step_rows h with
  | same _ _ postId authors delivered silent =>
    have hlookups : lookups (o ++ o') = lookups o := by
      rw [lookups_append, silent.lookups, List.append_nil]
    exact { numbered := hnumbered, delivered := delivered.trans hs.delivered
            authors := fun a ha => hs.authors a (authors ▸ ha)
            bound := hlookups ▸ hs.bound, added := hlookups ▸ hs.added
            postId := by rw [postId, hlookups]; exact hs.postId }
  | snapshot _ _ _ _ _ => exact absurd rfl (he.2 _)
  | @author k data n ev i uid added rest _ _ postId authors delivered effects silent hadded =>
    have hmem : (n, ev, i, uid) ∈ s.authors := authors.mem_iff.mp List.mem_cons_self
    have hlookups : lookups (o ++ o') =
        lookups o ++ [{ batch := n, index := i, result := added }] := by
      rw [lookups_append, effects, lookups_author n i added silent]
    refine { numbered := hnumbered, delivered := delivered.trans hs.delivered
             authors := fun a ha => ?_, bound := ?_, added := ?_, postId := ?_ }
    · exact hs.authors a (authors.mem_iff.mp (List.mem_cons_of_mem _ ha))
    · intro c hc hb
      rw [hlookups] at hc
      rcases List.mem_append.mp hc with hc | hc
      · exact hs.bound c hc hb
      · rw [List.mem_singleton] at hc
        subst hc
        rw [← hs.authors _ hmem hb]
        exact (hs.numbered _ hmem).2
    · intro c hc hb x hx
      rw [hlookups] at hc
      rcases List.mem_append.mp hc with hc | hc
      · exact hs.added c hc hb x hx
      · rw [List.mem_singleton] at hc
        subst hc
        have hev : ev = event := hs.authors _ hmem hb
        subst hev
        rw [hadded] at hx
        obtain ⟨doc, hdoc, hp⟩ := Option.bind_eq_some_iff.mp hx
        obtain ⟨v, _, rfl⟩ := Option.map_eq_some_iff.mp hp
        exact ⟨doc, v, hdoc, rfl⟩
    · rw [postId, hlookups, hs.postId, List.filterMap_append, List.map_append]
      cases added <;> rfl
  | removed deletes _ _ _ _ _ => exact absurd deletes (by simp [he.1])

/-- `event.docs` is numbered from its end, and names no document twice. -/
theorem docAt_id_inj {event : QuerySnapshot} {i j : Nat} (hi : i < event.docs.length)
    (hj : j < event.docs.length)
    (h : (docAt event i).map QueryDoc.id = (docAt event j).map QueryDoc.id) : i = j := by
  have hids : ∀ k, (docAt event k).map QueryDoc.id =
      (event.docs.map QueryDoc.id)[event.docs.length - 1 - k]? := by
    intro k
    rw [docAt, List.getElem?_map]
  rw [hids, hids] at h
  have hlen : (event.docs.map QueryDoc.id).length = event.docs.length := List.length_map _
  have := (List.getElem?_inj (by omega) event.nodup).mp h
  omega

theorem kept_ids_nodup (b : Nat) (event : QuerySnapshot)
    (done : List (Completion (PostModel × String))) :
    ((Fill.kept b event.docs.length done).map
      fun i => (docAt event i).map QueryDoc.id).Nodup :=
  Fill.kept_nodup.map_on fun _ hi _ hj => docAt_id_inj (Fill.kept_lt hi) (Fill.kept_lt hj)

/-! ## The order of the lookups -/

/-- A lookup that succeeds is of the last snapshot, and every post that is shown
stands before its own post there. -/
def InTurn (s : Home) (e : Event) : Prop :=
  match e with
  | .author k data => ∀ n event i uid, s.inFlight[k]? = some (.author n event i uid) →
      getUidUserNameAndImage data ≠ none →
      n = s.delivered ∧ ∀ id ∈ s.postId, ∃ j, j < i ∧ (docAt event j).map QueryDoc.id = some id
  | _ => True

/-- The ids shown are those at the places of the lookups that succeeded, when these
were all of the last snapshot. -/
theorem Filling.mem_postId_iff {b : Nat} {event : QuerySnapshot} {s : Home} {o : List Effect}
    (hs : Filling b event s o) (hin : Fill.InOrder b (lookups o)) {id : String} :
    id ∈ s.postId ↔ ∃ c ∈ Fill.successes (lookups o),
      (docAt event c.index).map QueryDoc.id = some id := by
  have hplace : ∀ c ∈ Fill.successes (lookups o), ∀ x, c.result = some x →
      (docAt event c.index).map QueryDoc.id = some x.2 := by
    intro c hc x hx
    obtain ⟨doc, v, hdoc, rfl⟩ := hs.added c (List.mem_filter.mp hc).1 (hin.1 c hc) x hx
    rw [hdoc]
    rfl
  rw [hs.postId, List.mem_map]
  constructor
  · rintro ⟨x, hx, rfl⟩
    obtain ⟨c, hc, hcx⟩ := List.mem_filterMap.mp hx
    have hc' : c ∈ Fill.successes (lookups o) := List.mem_filter.mpr ⟨hc, by rw [hcx]; rfl⟩
    exact ⟨c, hc', hplace c hc' x hcx⟩
  · rintro ⟨c, hc, hid⟩
    obtain ⟨hmem, hsome⟩ := List.mem_filter.mp hc
    obtain ⟨x, hx⟩ := Option.isSome_iff_exists.mp hsome
    rw [hplace c hc x hx, Option.some.injEq] at hid
    exact ⟨x, List.mem_filterMap.mpr ⟨c, hmem, hx⟩, hid⟩

theorem inTurn_author_iff {b : Nat} {event ev : QuerySnapshot} {s : Home} {o : List Effect}
    {k n i : Nat} {uid : Option String} {data : Option Json} (hs : Filling b event s o)
    (hin : Fill.InOrder b (lookups o)) (hk : s.inFlight[k]? = some (.author n ev i uid)) :
    InTurn s (.author k data) ↔ (getUidUserNameAndImage data ≠ none →
      n = b ∧ ∀ c ∈ Fill.successes (lookups o), c.index < i) := by
  have hmem : (n, ev, i, uid) ∈ s.authors := mem_authors_iff.mpr (List.mem_of_getElem? hk)
  have hi : i < ev.docs.length := (hs.numbered _ hmem).2
  constructor
  · intro hturn hdata
    obtain ⟨hn, hbefore⟩ := hturn n ev i uid hk hdata
    have hnb : n = b := hn.trans hs.delivered
    have hev : ev = event := hs.authors _ hmem hnb
    subst hev
    refine ⟨hnb, fun c hc => ?_⟩
    have hbound := hs.bound c (List.mem_filter.mp hc).1 (hin.1 c hc)
    obtain ⟨doc, hdoc⟩ := docAt_of_lt hbound
    have hid : (docAt ev c.index).map QueryDoc.id = some doc.id := by
      rw [hdoc]
      rfl
    obtain ⟨j, hj, hjid⟩ := hbefore doc.id ((hs.mem_postId_iff hin).mpr ⟨c, hc, hid⟩)
    rw [docAt_id_inj hbound (by omega) (hid.trans hjid.symm)]
    exact hj
  · intro hcond n' ev' i' uid' hk' hdata
    rw [hk, Option.some.injEq, Pending.author.injEq] at hk'
    obtain ⟨rfl, rfl, rfl, -⟩ := hk'
    obtain ⟨hnb, hlt⟩ := hcond hdata
    have hev : ev = event := hs.authors _ hmem hnb
    subst hev
    refine ⟨hnb.trans hs.delivered.symm, fun id hid => ?_⟩
    obtain ⟨c, hc, hcid⟩ := (hs.mem_postId_iff hin).mp hid
    exact ⟨c.index, hlt c hc, hcid⟩

/-- The lookups stay in order when the one that ends is in its turn. -/
theorem inOrder_step_iff {b : Nat} {event : QuerySnapshot} {s s' : Home} {e : Event}
    {o o' : List Effect} (hs : Filling b event s o) (hin : Fill.InOrder b (lookups o))
    (h : machine.step s e = some (s', o')) (he : e.since) :
    Fill.InOrder b (lookups (o ++ o')) ↔ InTurn s e := by
  cases step_rows h with
  | same other _ _ _ _ silent =>
    rw [lookups_append, silent.lookups, List.append_nil]
    cases e with
    | author k data => exact absurd rfl (other k data)
    | _ => exact ⟨fun _ => trivial, fun _ => hin⟩
  | snapshot _ _ _ _ _ => exact absurd rfl (he.2 _)
  | @author k data n ev i uid added rest hk _ _ authors _ effects silent hadded =>
    have hmem : (n, ev, i, uid) ∈ s.authors := authors.mem_iff.mp List.mem_cons_self
    obtain ⟨doc, hdoc⟩ := docAt_of_lt (hs.numbered _ hmem).2
    have hsome : added.isSome = true ↔ getUidUserNameAndImage data ≠ none := by
      rw [hadded, hdoc]
      cases getUidUserNameAndImage data <;> simp
    rw [lookups_append, effects, lookups_author n i added silent, Fill.inOrder_concat_iff hin,
      inTurn_author_iff hs hin hk]
    dsimp only
    rw [hsome]
  | removed deletes _ _ _ _ _ => exact absurd deletes (by simp [he.1])

theorem run_inOrder_iff {b : Nat} {event : QuerySnapshot} {s s' : Home} {es : List Event}
    {o : List Effect} (hs : Filling b event s []) (hes : ∀ e ∈ es, e.since)
    (hrun : machine.run s es = some (s', o)) :
    Fill.InOrder b (lookups o) ↔ machine.Every (fun s e _ _ => InTurn s e) s es := by
  refine Reactive.Machine.end_iff (M := machine) (J := Filling b event)
    (I := fun _ o => Fill.InOrder b (lookups o)) (H := fun _ e _ _ => e.since) (a := [])
    (fun s e s' o a hs hstep he => step_filling hs hstep he) ?_
    (fun s e s' o a hs hin hstep he => inOrder_step_iff hs hin hstep he) hs
    (by simp [Fill.InOrder, Fill.successes, lookups])
    (Reactive.Machine.every_of_forall (fun _ _ _ _ h => h) hes s) hrun
  intro s e s' o a _ _ _ hend
  rw [lookups_append] at hend
  exact hend.of_append

/-! ## The feed -/

/-- The account of snapshot number `b`, which is `event`, once its lookups have
all ended: each place once, with a row of its own document, and the feed is the
rows in the order in which the lookups since that snapshot ended. -/
structure Settled (b : Nat) (event : QuerySnapshot) (s : Home)
    (done : List (Completion (PostModel × String))) : Prop where
  once : ((Fill.ofBatch b done).map Completion.index).Perm (List.range event.docs.length)
  added : ∀ c ∈ done, c.batch = b → ∀ x, c.result = some x →
    ∃ doc v, docAt event c.index = some doc ∧ x = (postOf doc v, doc.id)
  posts : s.posts = (done.filterMap Completion.result).map Prod.fst
  postId : s.postId = (done.filterMap Completion.result).map Prod.snd

theorem run_settled {event : QuerySnapshot} {s₀ s₁ s : Home} {es : List Event}
    {o₁ o : List Effect} (h₀ : Numbered s₀)
    (hstep : machine.step s₀ (.snapshot event) = some (s₁, o₁))
    (hes : ∀ e ∈ es, e.since) (hrun : machine.run s₁ es = some (s, o))
    (hquiet : s.authors = []) : Settled s₁.delivered event s (lookups o) := by
  have hstart := snapshot_filling h₀ hstep
  obtain ⟨posts, postId, authors, delivered, _⟩ := snapshot_rows hstep
  rw [delivered] at hstart ⊢
  let t₀ : Fill (PostModel × String) :=
    { batch := s₀.delivered,
      pending := (s₀.authors.map fun a => (a.1, a.2.2.1) : List (Nat × Nat)), out := [] }
  have hfresh : Fill.Fresh t₀ := by
    intro p hp
    obtain ⟨a, ha, rfl⟩ := List.mem_map.mp (Multiset.mem_coe.mp hp)
    exact (h₀ a ha).1
  have hfilled := Fill.deliver_filled (n := event.docs.length) hfresh rfl
  have hR : AsFill s₁ _ := snapshot_asFill (t := t₀) rfl rfl posts postId authors delivered
  -- the run since then, as a run of the list
  have hQ : machine.Every (fun _ e _ _ => e.since) s₁ es :=
    Reactive.Machine.every_of_forall (fun _ _ _ _ h => h) hes s₁
  obtain ⟨fs, t, hfs, hrunt, hR⟩ := Reactive.Machine.run_simulates
    (A := Fill.machine) (R := AsFill) (G := fun f => ∃ c, f = .finish c)
    (fun _ _ e _ _ hR hstep hq => by
      obtain ⟨fs, t', hfs, hrun, hR'⟩ := step_simulates hR hstep hq.1
      refine ⟨fs, t', fun f hf => ?_, hrun, hR'⟩
      exact (hfs f hf).resolve_right fun ⟨ev, he⟩ => hq.2 ev he) hR hQ hrun
  have hF := Fill.run_filled hfilled hfs hrunt
  have hadded := (Reactive.Machine.run_invariant (M := machine)
    (fun _ _ _ _ _ hs hstep hq => step_filling hs hstep hq) hstart hQ hrun).added
  refine { once := ?_, added := hadded, posts := ?_, postId := ?_ }
  · have honce := hF.once
    rw [hR.pending, hquiet] at honce
    exact Multiset.coe_eq_coe.mp (by simpa [lookups] using honce)
  · exact hR.posts.trans (congrArg _ hF.out)
  · exact hR.postId.trans (congrArg _ hF.out)

/-- The feed shows the documents of `event` at the places `kept`, counted from the
newest: their ids, none twice, and next to each id the post of its document. -/
structure FeedIs (event : QuerySnapshot) (kept : List Nat) (s : Home) : Prop where
  postId : s.postId.map some = kept.map fun i => (docAt event i).map QueryDoc.id
  nodup : s.postId.Nodup
  posts : List.Forall₂ (fun i post => ∃ doc v, docAt event i = some doc ∧
    post = postOf doc v) kept s.posts

theorem Settled.feedIs_iff {b : Nat} {event : QuerySnapshot} {s : Home}
    {done : List (Completion (PostModel × String))} (hs : Settled b event s done) :
    FeedIs event (Fill.kept b event.docs.length done) s ↔ Fill.InOrder b done := by
  have hiff := Fill.out_eq_kept_iff (fun x => some x.2)
    (fun i => (docAt event i).map QueryDoc.id) hs.once
    (fun c hc hb x hx => by
      obtain ⟨doc, v, hdoc, rfl⟩ := hs.added c hc hb x hx
      rw [hdoc]; rfl)
    (fun i j hi hj => docAt_id_inj hi hj)
  have hmap : s.postId.map some =
      (done.filterMap Completion.result).map fun x => some x.2 := by
    rw [hs.postId, List.map_map]; rfl
  constructor
  · intro h
    exact hiff.mp (hmap.symm.trans h.postId)
  · intro h
    have hpost := hmap.trans (hiff.mpr h)
    refine { postId := hpost, nodup := ?_, posts := ?_ }
    · have hnodup := kept_ids_nodup b event done
      rw [← hpost] at hnodup
      exact hnodup.of_map _
    · rw [hs.posts, ← h.index_eq_kept hs.once, List.forall₂_map_right_iff]
      refine Fill.forall₂_successes.imp fun i x ⟨c, hc, hi, hx⟩ => ?_
      have hb := h.1 c (List.mem_filter.mpr ⟨hc, by simp [hx]⟩)
      obtain ⟨doc, v, hdoc, rfl⟩ := hs.added c hc hb x hx
      exact ⟨doc, v, hi ▸ hdoc, rfl⟩

/-- When no author lookup is in flight, the feed is the last snapshot from its
newest post on, without the posts whose lookup failed, exactly when each lookup that
has succeeded since that snapshot was one of its own and came in its turn. -/
theorem feed_is_last_snapshot_iff {u : Option String} {es₁ es₂ : List Event}
    {event : QuerySnapshot} {s₁ s : Home} {o₁ o₂ : List Effect}
    (h₁ : machine.run (init u) (es₁ ++ [.snapshot event]) = some (s₁, o₁))
    (h₂ : machine.run s₁ es₂ = some (s, o₂))
    (hes₂ : ∀ e ∈ es₂, e.deletes = false ∧ ∀ ev, e ≠ .snapshot ev)
    (hquiet : s.authors = []) :
    FeedIs event (Fill.kept s₁.delivered event.docs.length (lookups o₂)) s ↔
      machine.Every (fun s e _ _ => InTurn s e) s₁ es₂ := by
  -- the state in which the last snapshot arrives
  obtain ⟨s₀, p₀, p₁, hrun₀, hrun₁, rfl⟩ := Reactive.Machine.run_append.mp h₁
  obtain ⟨s', q, q', hstep, hnil, rfl⟩ := Reactive.Machine.run_cons.mp hrun₁
  simp only [Reactive.Machine.run_nil, Option.some.injEq, Prod.mk.injEq] at hnil
  obtain ⟨rfl, rfl⟩ := hnil
  have h₀ := run_numbered hrun₀
  rw [(run_settled h₀ hstep hes₂ h₂ hquiet).feedIs_iff]
  exact run_inOrder_iff (snapshot_filling h₀ hstep) hes₂ h₂

/-- The lookups of the two posts in the other order put the older post first. -/
theorem feed_out_of_order :
    ∃ s₁ o₁ s o₂,
      machine.run (init none) ([.login "ann"] ++ [.snapshot twoPosts]) = some (s₁, o₁) ∧
      machine.run s₁ [.author 2 (some (userOf "ann").toMap),
        .author 1 (some (userOf "bob").toMap)] = some (s, o₂) ∧
      s.authors = [] ∧ s.postId = ["2022-01-01", "2022-01-02"] ∧
      ¬ FeedIs twoPosts (Fill.kept s₁.delivered twoPosts.docs.length (lookups o₂)) s := by
  refine ⟨_, _, _, _, rfl, rfl, rfl, rfl, fun h => ?_⟩
  have hpost := h.postId
  revert hpost
  decide

theorem feed_is_last_snapshot_iff_twoPosts :
    ∃ s₁ o₁ s o₂,
      machine.run (init none) ([.login "ann"] ++ [.snapshot twoPosts]) = some (s₁, o₁) ∧
      machine.run s₁ [.author 1 (some (userOf "bob").toMap), .author 1 none] = some (s, o₂) ∧
      s.postId = ["2022-01-02"] ∧
      FeedIs twoPosts (Fill.kept s₁.delivered twoPosts.docs.length (lookups o₂)) s := by
  refine ⟨_, _, _, _, rfl, rfl, rfl, (@feed_is_last_snapshot_iff none [.login "ann"]
    [.author 1 (some (userOf "bob").toMap), .author 1 none] twoPosts _ _ _ _ rfl rfl
    (by simp [Event.deletes]) rfl).mpr ?_⟩
  refine Reactive.Machine.every_cons rfl ?_ (Reactive.Machine.every_cons rfl ?_ trivial)
  · intro n event i uid hk _
    obtain ⟨rfl, -⟩ := Pending.author.inj (Option.some.inj hk)
    exact ⟨rfl, fun id hid => absurd hid List.not_mem_nil⟩
  · intro n event i uid _ hdata
    exact absurd rfl hdata

end Home
end SocialApp
