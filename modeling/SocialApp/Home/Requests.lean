import SocialApp.Home.Step

/-! # Requests in flight

The comments and the likes of the loaded posts are asked for one post at a time.
A map is accounted for by its entries together with the requests in flight, and
steps that have nothing to do with a load keep this account. -/

namespace SocialApp
namespace Home

/-- A callback of a load. -/
def Pending.loads : Pending → Bool
  | .author _ _ _ _ => true
  | .getComments _ _ => true
  | .getLikes _ _ => true
  | _ => false

/-- A request for the comments or the likes of a post. -/
def Pending.asks : Pending → Bool
  | .getComments _ _ => true
  | .getLikes _ _ => true
  | _ => false

/-- The completion of a like or an unlike. -/
def Pending.likes : Pending → Bool
  | .write (.setLike _ _) _ => true
  | .write (.deleteLike _ _) _ => true
  | _ => false

/-- No callback of a load is in flight. -/
def Idle (s : Home) : Prop := ∀ p ∈ s.inFlight, p.loads = false

def NoLike (s : Home) : Prop := ∀ p ∈ s.inFlight, p.likes = false

instance (s : Home) : Decidable (Idle s) :=
  inferInstanceAs (Decidable (∀ p ∈ s.inFlight, p.loads = false))

instance (s : Home) : Decidable (NoLike s) :=
  inferInstanceAs (Decidable (∀ p ∈ s.inFlight, p.likes = false))

/-- What would mix with a load: another snapshot, a delete, a like, a further
request, or a query that fails. -/
def Event.mixes : Event → Bool
  | .snapshot _ => true
  | .deletePost _ _ => true
  | .rowDelete _ => true
  | .rowLike _ => true
  | .getComments => true
  | .getLikes => true
  | .queryFailed _ => true
  | _ => false

/-! ## Requests and answers of one stage -/

/-- A post is one of `ids` when the map has an entry for it or its request is in
flight. -/
def Covers {α : Type} (ids : List String) (m : String → Option α)
    (req : Nat → String → Pending) (l : List Pending) : Prop :=
  ∀ p, p ∈ ids ↔ m p ≠ none ∨ ∃ i, req i p ∈ l

theorem Covers.answer {α : Type} {ids : List String} {m : String → Option α}
    {req : Nat → String → Pending} {l : List Pending} {k i : Nat} {post : String}
    (hc : Covers ids m req l) (hk : l[k]? = some (req i post))
    (hreq : ∀ i p j q, req i p = req j q → p = q) (v : α) :
    Covers ids (Function.update m post (some v)) req (l.eraseIdx k) := by
  intro p
  have hmem := Reactive.mem_iff_mem_eraseIdx hk (z := req i post)
  by_cases hp : p = post
  · subst hp
    refine ⟨fun _ => Or.inl (by simp), fun _ => ?_⟩
    exact (hc p).mpr (Or.inr ⟨i, hmem.mpr (Or.inl rfl)⟩)
  · rw [Function.update_of_ne hp, hc p]
    refine or_congr_right ⟨fun ⟨j, hj⟩ => ?_, fun ⟨j, hj⟩ => ?_⟩
    · rcases (Reactive.mem_iff_mem_eraseIdx hk).mp hj with hj | hj
      · exact absurd (hreq _ _ _ _ hj) hp
      · exact ⟨j, hj⟩
    · exact ⟨j, (Reactive.mem_iff_mem_eraseIdx hk).mpr (Or.inr hj)⟩

theorem Covers.ask {α : Type} {ids : List String} {req : Nat → String → Pending}
    {l : List Pending} (hreq : ∀ i p j q, req i p = req j q → p = q)
    (hl : ∀ i p, req i p ∈ l → p ∈ ids) :
    Covers ids (fun _ => (none : Option α)) req (l ++ ids.mapIdx req) := by
  intro p
  constructor
  · intro hp
    obtain ⟨i, hi, rfl⟩ := List.mem_iff_getElem.mp hp
    exact Or.inr ⟨i, List.mem_append_right _ (List.mem_mapIdx.mpr ⟨i, hi, rfl⟩)⟩
  · rintro (h | ⟨i, hi⟩)
    · exact absurd rfl h
    · rcases List.mem_append.mp hi with hi | hi
      · exact hl i p hi
      · obtain ⟨j, hj, heq⟩ := List.mem_mapIdx.mp hi
        rw [← hreq _ _ _ _ heq]
        exact List.getElem_mem hj

theorem Covers.of_mem_iff {α : Type} {ids : List String} {m : String → Option α}
    {req : Nat → String → Pending} {l l' : List Pending} (hc : Covers ids m req l)
    (h : ∀ i p, req i p ∈ l' ↔ req i p ∈ l) : Covers ids m req l' := by
  intro p
  rw [hc p]
  exact or_congr_right (exists_congr fun i => (h i p).symm)

/-- With no request in flight the map has an entry for each of `ids` only. -/
theorem Covers.keys {α : Type} {ids : List String} {m : String → Option α}
    {req : Nat → String → Pending} {l : List Pending} (hc : Covers ids m req l)
    (hl : ∀ i p, req i p ∉ l) (p : String) : m p ≠ none ↔ p ∈ ids := by
  rw [hc p]
  refine ⟨Or.inl, fun h => h.resolve_right ?_⟩
  rintro ⟨i, hi⟩
  exact hl i p hi

theorem getComments_inj : ∀ i p j q, Pending.getComments i p = .getComments j q → p = q :=
  fun _ _ _ _ h => (Pending.getComments.inj h).2

theorem getLikes_inj : ∀ i p j q, Pending.getLikes i p = .getLikes j q → p = q :=
  fun _ _ _ _ h => (Pending.getLikes.inj h).2

theorem Idle.notMem {s : Home} (hs : Idle s) {p : Pending} (hp : p.loads = true) :
    p ∉ s.inFlight := by
  intro hmem
  rw [hs p hmem] at hp
  exact absurd hp (by simp)

/-! ## Steps beside a load -/

theorem await_requests {s : Home} {ps : List Pending} (h : ∀ p ∈ ps, p.asks = false)
    {p : Pending} (hp : p.asks = true) : p ∈ (s.await ps).inFlight ↔ p ∈ s.inFlight := by
  rw [await, List.mem_append]
  refine or_iff_left fun hmem => ?_
  rw [h p hmem] at hp
  exact absurd hp (by simp)

theorem landed_mem_iff {s : Home} {k : Nat} {q p : Pending} (hk : s.inFlight[k]? = some q)
    (hne : p ≠ q) : p ∈ (s.landed k).inFlight ↔ p ∈ s.inFlight := by
  rw [Reactive.mem_iff_mem_eraseIdx hk (z := p), or_iff_right hne]
  exact Iff.rfl

theorem NoLike.await {s : Home} {ps : List Pending} (hs : NoLike s)
    (h : ∀ p ∈ ps, p.likes = false) : NoLike (s.await ps) := by
  intro p hp
  rcases List.mem_append.mp hp with hp | hp
  · exact hs p hp
  · exact h p hp

theorem NoLike.landed {s : Home} (hs : NoLike s) (k : Nat) : NoLike (s.landed k) :=
  fun p hp => hs p (List.mem_of_mem_eraseIdx hp)

/-- The maps and the requests of a load after a step beside it. -/
structure KeepsMaps (s s' : Home) : Prop where
  comments : s'.comments = s.comments
  likes : s'.likes = s.likes
  myLikes : s'.myLikes = s.myLikes
  requests : ∀ p, p.asks = true → (p ∈ s'.inFlight ↔ p ∈ s.inFlight)
  noLike : NoLike s'

theorem await_keepsMaps {s : Home} {ps : List Pending} (hs : NoLike s)
    (h : ∀ p ∈ ps, p.asks = false ∧ p.likes = false) : KeepsMaps s (s.await ps) :=
  { comments := rfl, likes := rfl, myLikes := rfl
    requests := fun _ => await_requests fun q hq => (h q hq).1
    noLike := hs.await fun q hq => (h q hq).2 }

theorem landed_keepsMaps {s : Home} {k : Nat} {q : Pending} (hs : NoLike s)
    (hk : s.inFlight[k]? = some q) (hq : q.asks = false) : KeepsMaps s (s.landed k) :=
  { comments := rfl, likes := rfl, myLikes := rfl
    requests := fun p hp => by
      apply landed_mem_iff hk
      rintro rfl
      rw [hq] at hp
      exact absurd hp (by simp)
    noLike := hs.landed k }

/-- A callback that changes neither the maps nor the callbacks in flight. -/
theorem KeepsMaps.then {s s₁ s' : Home} (h : KeepsMaps s s₁) (comments : s'.comments = s₁.comments)
    (likes : s'.likes = s₁.likes) (myLikes : s'.myLikes = s₁.myLikes)
    (inFlight : s'.inFlight = s₁.inFlight) : KeepsMaps s s' :=
  { comments := comments.trans h.comments
    likes := likes.trans h.likes
    myLikes := myLikes.trans h.myLikes
    requests := fun p hp => by rw [inFlight]; exact h.requests p hp
    noLike := fun p hp => h.noLike p (inFlight ▸ hp) }

theorem KeepsMaps.refl {s : Home} (hs : NoLike s) : KeepsMaps s s :=
  { comments := rfl, likes := rfl, myLikes := rfl, requests := fun _ _ => Iff.rfl, noLike := hs }

theorem rowComment_keepsMaps {s : Home} (hs : NoLike s) (index : Nat) (text now : String) :
    KeepsMaps s (s.rowComment index text now).1 := by
  rcases rowComment_cases s index text now with ⟨_, h⟩ | ⟨_, ⟨_, h⟩ | ⟨id, _, h⟩⟩
  · rw [h]
    exact .refl hs
  · rw [h]
    exact .refl hs
  · rw [h]
    have hwait : KeepsMaps s (s.await
        [.write (.addComment id (.ofText s.uId (some text) (some now))) false]) :=
      await_keepsMaps hs (by simp [Pending.asks, Pending.likes])
    exact hwait.then rfl rfl rfl rfl

/-- The server carries a write out. -/
theorem applied_keepsMaps {s : Home} {k : Nat} {w : Write} (hs : NoLike s)
    (hk : s.inFlight[k]? = some (.write w false)) :
    KeepsMaps s { s with inFlight := s.inFlight.set k (.write w true) } := by
  refine { comments := rfl, likes := rfl, myLikes := rfl, requests := ?_, noLike := ?_ }
  · intro p hp
    have hne : ∀ b, p ≠ .write w b := by
      rintro b rfl
      exact absurd hp (by simp [Pending.asks])
    exact Reactive.mem_set_iff hk (hne false) (hne true)
  · intro p hp
    rcases List.mem_or_eq_of_mem_set hp with hp | rfl
    · exact hs p hp
    · have hlike := hs _ (List.mem_of_getElem? hk)
      cases w <;> exact hlike

theorem settled_keepsMaps {s : Home} {k : Nat} {w : Write} {ok : Bool} (hs : NoLike s)
    (hk : s.inFlight[k]? = some (.write w ok)) :
    KeepsMaps s ((s.landed k).writeThen w ok).1 := by
  have hland := landed_keepsMaps hs hk rfl
  have hlike := hs _ (List.mem_of_getElem? hk)
  cases w with
  | addComment post comment => exact hland.then rfl rfl rfl rfl
  | deletePost post => exact hland
  | setLike post uid => exact absurd hlike (by simp [Pending.likes])
  | deleteLike post uid => exact absurd hlike (by simp [Pending.likes])

theorem step_keepsMaps {s s' : Home} {e : Event} {o : List Effect} (hs : NoLike s)
    (h : step s e = some (s', o)) (hmix : e.mixes = false) (hload : e.loads = false) :
    KeepsMaps s s' := by
  have hret : ∀ {r : Home × List Effect}, r = (s', o) → KeepsMaps s r.1 → KeepsMaps s s' := by
    rintro r rfl hr
    exact hr
  cases e with
  | login uid =>
    have hwait : KeepsMaps s (s.await [.getUserData (some uid)]) :=
      await_keepsMaps hs (by simp [Pending.asks, Pending.likes])
    exact hret (Option.some.inj h) (hwait.then rfl rfl rfl rfl)
  | logout => exact hret (Option.some.inj h) ((KeepsMaps.refl hs).then rfl rfl rfl rfl)
  | getUserData =>
    exact hret (Option.some.inj h) (await_keepsMaps hs (by simp [Pending.asks, Pending.likes]))
  | getPosts => exact hret (Option.some.inj h) ((KeepsMaps.refl hs).then rfl rfl rfl rfl)
  | rowComment index text now =>
    exact hret (Option.some.inj h) (rowComment_keepsMaps hs index text now)
  | userData k data =>
    obtain ⟨uid, hk, h⟩ := step_userData h
    have hland := landed_keepsMaps hs hk rfl
    rcases getUserDataThen_cases (s.landed k) data with ⟨_, hr⟩ | ⟨m, _, hr⟩
    · exact hret (hr.symm.trans h) hland
    · exact hret (hr.symm.trans h) (hland.then rfl rfl rfl rfl)
  | applied k =>
    obtain ⟨w, hk, rfl, -⟩ := step_applied h
    exact applied_keepsMaps hs hk
  | settled k ok =>
    obtain ⟨w, hk, h⟩ := step_settled h
    exact hret h (settled_keepsMaps hs hk)
  | author k data => exact absurd hload (by simp [Event.loads])
  | comments k docs => exact absurd hload (by simp [Event.loads])
  | likes k docs => exact absurd hload (by simp [Event.loads])
  | _ => exact absurd hmix (by simp [Event.mixes])

theorem Event.mixes_of_deletes {e : Event} (h : e.deletes = true) : e.mixes = true := by
  cases e with
  | deletePost index postid => rfl
  | rowDelete index => rfl
  | _ => exact absurd h (by simp [Event.deletes])

/-- A step beside a load leaves its rows and its lookups alone as well. -/
theorem step_sameRows {s s' : Home} {e : Event} {o : List Effect}
    (h : step s e = some (s', o)) (hmix : e.mixes = false) (hload : e.loads = false) :
    s'.posts = s.posts ∧ s'.postId = s.postId ∧ s'.authors = s.authors ∧ Silent o := by
  cases step_rows h with
  | same _ posts postId authors _ silent => exact ⟨posts, postId, authors, silent⟩
  | snapshot _ _ _ _ _ => exact absurd hmix (by simp [Event.mixes])
  | author _ _ _ _ _ _ _ _ => exact absurd hload (by simp [Event.loads])
  | removed deletes _ _ _ _ _ =>
    rw [Event.mixes_of_deletes deletes] at hmix
    exact absurd hmix (by simp)

end Home
end SocialApp
