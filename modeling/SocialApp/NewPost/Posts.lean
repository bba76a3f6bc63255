import SocialApp.NewPost.Step
import Mathlib.Logic.Function.Basic

/-! # The collection of posts

Any number of NewPostCubits, on devices with clocks of their own, write to `posts`.  A
document is named by the local time of its author and written with `set`, so a post is
lost exactly when one of the same local time is written while it has not been deleted. -/

namespace SocialApp

/-- The cubits, and the documents on the server.  `live` are the posts that the server
has created and not deleted since, and `deleted` those that it has deleted. -/
structure Posts where
  cubit : Nat → NewPost
  posts : String → Option Json
  live : List (Nat × NewPost.Write)
  deleted : List (Nat × NewPost.Write)

namespace Posts

open NewPost (Write)

def init : Posts :=
  { cubit := fun _ => NewPost.init, posts := fun _ => none, live := [], deleted := [] }

/-- The server sets the document of a post that the `i`-th cubit has written. -/
def set (i : Nat) (w : Write) (s : Posts) : Posts :=
  { s with posts := Function.update s.posts w.id (some w.post.toMap), live := (i, w) :: s.live }

/-- What an effect of the `i`-th cubit does on the server. -/
def serve (i : Nat) (s : Posts) : NewPost.Effect → Posts
  | .applied w => s.set i w
  | _ => s

/-- `deletePost`: the server deletes a document. -/
def delete (id : String) (s : Posts) : Posts :=
  { s with
    posts := Function.update s.posts id none
    live := s.live.filter fun w => w.2.id ≠ id
    deleted := s.deleted ++ s.live.filter fun w => w.2.id = id }

inductive Event
  /-- Something happens to the `i`-th cubit. -/
  | cubit (i : Nat) (e : NewPost.Event)
  | delete (id : String)

def step (s : Posts) : Event → Option (Posts × List (Nat × NewPost.Effect))
  | .cubit i e => (s.cubit i).step e |>.map fun r =>
    (r.2.foldl (serve i) { s with cubit := Function.update s.cubit i r.1 }, r.2.map (i, ·))
  | .delete id => some (s.delete id, [])

def machine : Reactive.Machine Posts Event (Nat × NewPost.Effect) := ⟨step⟩

/-! ## Steps -/

/-- What a step can do. -/
inductive Did (s s' : Posts) (o : List (Nat × NewPost.Effect)) : Prop
  | other {i : Nat} {c : NewPost}
      (writes : ∀ w, .write w true ∈ c.inFlight → .write w true ∈ (s.cubit i).inFlight)
      (state : s' = { s with cubit := Function.update s.cubit i c })
      (applied : ∀ j w, (j, NewPost.Effect.applied w) ∉ o)
      (settled : ∀ j w, (j, NewPost.Effect.settled w true) ∈ o →
        .write w true ∈ (s.cubit j).inFlight)
  | created {i : Nat} {c : NewPost} {w : Write}
      (writes : ∀ w', .write w' true ∈ c.inFlight →
        .write w' true ∈ (s.cubit i).inFlight ∨ w' = w)
      (state : s' = ({ s with cubit := Function.update s.cubit i c } : Posts).set i w)
      (effects : o = [(i, .applied w)])
  | deleted {id : String} (state : s' = s.delete id) (effects : o = [])

theorem serve_quiet {o : List NewPost.Effect} (h : ∀ x ∈ o, x.quiet = true) (i : Nat) :
    ∀ s, o.foldl (serve i) s = s := by
  induction o with
  | nil => exact fun _ => rfl
  | cons x o ih =>
    intro s
    have hx : serve i s x = s := by
      have hquiet := h x List.mem_cons_self
      cases x with
      | applied w => exact absurd hquiet (by simp [NewPost.Effect.quiet])
      | _ => rfl
    rw [List.foldl_cons, hx]
    exact ih (fun y hy => h y (List.mem_cons_of_mem x hy)) s

/-- A step of a cubit that creates no document. -/
theorem did_of_unserved {s : Posts} {i : Nat} {c : NewPost} {o : List NewPost.Effect}
    (hserve : ∀ t, o.foldl (serve i) t = t)
    (hwrites : ∀ w, .write w true ∈ c.inFlight → .write w true ∈ (s.cubit i).inFlight)
    (happlied : ∀ w, NewPost.Effect.applied w ∉ o)
    (hsettled : ∀ w, NewPost.Effect.settled w true ∈ o → .write w true ∈ (s.cubit i).inFlight) :
    Did s (o.foldl (serve i) { s with cubit := Function.update s.cubit i c }) (o.map (i, ·)) := by
  refine .other hwrites (hserve _) ?_ ?_
  · intro j w h
    obtain ⟨x, hx, heq⟩ := List.mem_map.mp h
    obtain ⟨-, rfl⟩ := Prod.mk.inj heq
    exact happlied w hx
  · intro j w h
    obtain ⟨x, hx, heq⟩ := List.mem_map.mp h
    obtain ⟨rfl, rfl⟩ := Prod.mk.inj heq
    exact hsettled w hx

theorem step_did {s s' : Posts} {e : Event} {o : List (Nat × NewPost.Effect)}
    (h : s.step e = some (s', o)) : Did s s' o := by
  cases e with
  | delete id =>
    obtain ⟨rfl, rfl⟩ := Prod.mk.inj (Option.some.inj h)
    exact .deleted rfl rfl
  | cubit i e =>
    obtain ⟨⟨c, o₁⟩, hstep, heq⟩ := Option.map_eq_some_iff.mp h
    obtain ⟨rfl, rfl⟩ := Prod.mk.inj heq
    have hnew : ∀ {l : List NewPost.Pending} {p : NewPost.Pending},
        (∀ q ∈ l, q ∈ (s.cubit i).inFlight) → (∀ w, p ≠ .write w true) → ∀ w,
        .write w true ∈ l ++ [p] → .write w true ∈ (s.cubit i).inFlight := by
      intro l p hl hp w hw
      rcases List.mem_append.mp hw with hw | hw
      · exact hl _ hw
      · exact absurd (List.mem_singleton.mp hw).symm (hp w)
    have herase : ∀ {k}, ∀ q ∈ (s.cubit i).inFlight.eraseIdx k, q ∈ (s.cubit i).inFlight :=
      fun q hq => List.mem_of_mem_eraseIdx hq
    cases NewPost.step_did hstep with
    | other inFlight _ effects settled =>
      refine did_of_unserved (serve_quiet effects i) (fun w => inFlight _) (fun w hw => ?_)
        fun w => settled w true
      exact absurd (effects _ hw) (by simp [NewPost.Effect.quiet])
    | text _ _ inFlight _ effects =>
      subst effects
      exact did_of_unserved (fun _ => rfl) (inFlight ▸ hnew (fun q hq => hq) (by simp)) (by simp)
        (by simp)
    | upload _ inFlight _ effects =>
      subst effects
      exact did_of_unserved (fun _ => rfl) (inFlight ▸ hnew (fun q hq => hq) (by simp)) (by simp)
        (by simp)
    | uploaded _ inFlight _ effects =>
      subst effects
      exact did_of_unserved (fun _ => rfl) (inFlight ▸ hnew herase (by simp)) (by simp) (by simp)
    | url _ _ _ inFlight _ effects =>
      subst effects
      exact did_of_unserved (fun _ => rfl) (inFlight ▸ hnew herase (by simp)) (by simp) (by simp)
    | @applied k w _ inFlight _ effects =>
      subst effects
      refine .created (fun w' hw' => ?_) rfl rfl
      rw [inFlight] at hw'
      rcases List.mem_or_eq_of_mem_set hw' with hw' | hw'
      · exact Or.inl hw'
      · exact Or.inr (NewPost.Pending.write.inj hw').1

/-! ## Every run -/

/-- Each document belongs to a post that has not been deleted, and the server has created
the post of each write it has carried out. -/
structure Sound (s : Posts) : Prop where
  held : ∀ id, s.posts id ≠ none → ∃ p ∈ s.live, p.2.id = id
  written : ∀ i w, .write w true ∈ (s.cubit i).inFlight → (i, w) ∈ s.live ∨ (i, w) ∈ s.deleted

/-- Each post that has been created and not deleted has its own document. -/
def Kept (s : Posts) : Prop := ∀ p ∈ s.live, s.posts p.2.id = some p.2.post.toMap

/-- No post replaces the document of another, each keeps its own, and one is reported
only when it has been created. -/
structure Keeps (s s' : Posts) (o : List (Nat × NewPost.Effect)) : Prop where
  new : ∀ i w, (i, NewPost.Effect.applied w) ∈ o → s.posts w.id = none
  kept : Kept s'
  reported : ∀ i w, (i, NewPost.Effect.settled w true) ∈ o →
    (i, w) ∈ s'.live ∨ (i, w) ∈ s'.deleted

/-- A post is created while no other post of the same local time is there. -/
def Fresh (s : Posts) (o : List (Nat × NewPost.Effect)) : Prop :=
  ∀ i w, (i, NewPost.Effect.applied w) ∈ o → ∀ p ∈ s.live, p.2.now ≠ w.now

theorem id_eq_iff {w w' : Write} : w.id = w'.id ↔ w.now = w'.now := Time.DateTime.toString_inj

theorem Sound.set {s : Posts} (hs : Sound s) {i : Nat} {c : NewPost} {w : Write}
    (hwrites : ∀ w', .write w' true ∈ c.inFlight →
      .write w' true ∈ (s.cubit i).inFlight ∨ w' = w) :
    Sound (({ s with cubit := Function.update s.cubit i c } : Posts).set i w) := by
  refine { held := fun id hid => ?_, written := fun j w' hw' => ?_ }
  · show ∃ p ∈ (i, w) :: s.live, p.2.id = id
    by_cases heq : id = w.id
    · exact ⟨(i, w), List.mem_cons_self, heq.symm⟩
    · have hid : Function.update s.posts w.id (some w.post.toMap) id ≠ none := hid
      rw [Function.update_of_ne heq] at hid
      obtain ⟨p, hp, hpid⟩ := hs.held id hid
      exact ⟨p, List.mem_cons_of_mem _ hp, hpid⟩
  · show (j, w') ∈ (i, w) :: s.live ∨ (j, w') ∈ s.deleted
    have hw' : .write w' true ∈ (Function.update s.cubit i c j).inFlight := hw'
    by_cases hj : j = i
    · rw [hj, Function.update_self] at hw'
      rcases hwrites w' hw' with hw' | rfl
      · rw [hj]
        exact (hs.written i w' hw').imp (List.mem_cons_of_mem _) id
      · rw [hj]
        exact Or.inl List.mem_cons_self
    · rw [Function.update_of_ne hj] at hw'
      exact (hs.written j w' hw').imp (List.mem_cons_of_mem _) id

theorem Sound.delete {s : Posts} (hs : Sound s) (id : String) : Sound (s.delete id) := by
  refine { held := fun id' hid => ?_, written := fun i w hw => ?_ }
  · show ∃ p ∈ s.live.filter fun w => w.2.id ≠ id, p.2.id = id'
    have hid : Function.update s.posts id none id' ≠ none := hid
    by_cases heq : id' = id
    · rw [heq, Function.update_self] at hid
      exact absurd rfl hid
    · rw [Function.update_of_ne heq] at hid
      obtain ⟨p, hp, hpid⟩ := hs.held id' hid
      refine ⟨p, List.mem_filter.mpr ⟨hp, ?_⟩, hpid⟩
      rw [hpid]
      exact decide_eq_true heq
  · show (i, w) ∈ s.live.filter (fun w => w.2.id ≠ id) ∨
      (i, w) ∈ s.deleted ++ s.live.filter fun w => w.2.id = id
    rcases hs.written i w hw with hlive | hdeleted
    · by_cases heq : w.id = id
      · exact Or.inr (List.mem_append_right _ (List.mem_filter.mpr ⟨hlive, decide_eq_true heq⟩))
      · exact Or.inl (List.mem_filter.mpr ⟨hlive, decide_eq_true heq⟩)
    · exact Or.inr (List.mem_append_left _ hdeleted)

theorem Sound.other {s : Posts} (hs : Sound s) {i : Nat} {c : NewPost}
    (hwrites : ∀ w, .write w true ∈ c.inFlight → .write w true ∈ (s.cubit i).inFlight) :
    Sound { s with cubit := Function.update s.cubit i c } := by
  refine { held := hs.held, written := fun j w hw => ?_ }
  have hw : .write w true ∈ (Function.update s.cubit i c j).inFlight := hw
  by_cases hj : j = i
  · rw [hj, Function.update_self] at hw
    rw [hj]
    exact hs.written i w (hwrites w hw)
  · rw [Function.update_of_ne hj] at hw
    exact hs.written j w hw

theorem step_sound {s s' : Posts} {e : Event} {o : List (Nat × NewPost.Effect)} (hs : Sound s)
    (h : s.step e = some (s', o)) : Sound s' := by
  cases step_did h with
  | other writes state _ _ =>
    rw [state]
    exact hs.other writes
  | created writes state _ =>
    rw [state]
    exact hs.set writes
  | deleted state _ =>
    rw [state]
    exact hs.delete _

/-- A new post finds no document exactly when no post of its local time is there. -/
theorem free_iff {s : Posts} (hs : Sound s) (hkept : Kept s) (w : Write) :
    s.posts w.id = none ↔ ∀ p ∈ s.live, p.2.now ≠ w.now := by
  constructor
  · intro hnone p hp heq
    have hdoc := hkept p hp
    rw [id_eq_iff.mpr heq, hnone] at hdoc
    exact absurd hdoc (by simp)
  · intro hfresh
    by_contra hsome
    obtain ⟨p, hp, hid⟩ := hs.held _ hsome
    exact hfresh p hp (id_eq_iff.mp hid)

theorem keeps_iff {s s' : Posts} {e : Event} {o : List (Nat × NewPost.Effect)} (hs : Sound s)
    (hkept : Kept s) (h : s.step e = some (s', o)) : Keeps s s' o ↔ Fresh s o := by
  cases step_did h with
  | @other i c writes state applied settled =>
    constructor
    · intro _ j w hw
      exact absurd hw (applied j w)
    · intro _
      rw [state]
      exact { new := fun j w hw => absurd hw (applied j w), kept := hkept
              reported := fun j w hw => hs.written j w (settled j w hw) }
  | @created i c w writes state effects =>
    rw [effects]
    constructor
    · intro hkeeps j w' hw'
      exact (free_iff hs hkept w').mp (hkeeps.new j w' hw')
    · intro hfresh
      have hfree := hfresh i w (List.mem_singleton.mpr rfl)
      rw [state]
      refine { new := fun j w' hw' => ?_, kept := fun p hp => ?_, reported := fun j w' hw' => ?_ }
      · exact (free_iff hs hkept w').mpr (hfresh j w' hw')
      · show Function.update s.posts w.id (some w.post.toMap) p.2.id = _
        rcases List.mem_cons.mp hp with rfl | hp
        · exact Function.update_self _ _ _
        · rw [Function.update_of_ne fun heq => hfree p hp (id_eq_iff.mp heq)]
          exact hkept p hp
      · exact absurd (List.mem_singleton.mp hw') (by simp)
  | @deleted id state effects =>
    rw [effects, state]
    constructor
    · intro _ j w hw
      exact absurd hw List.not_mem_nil
    · intro _
      refine { new := fun j w hw => absurd hw List.not_mem_nil, kept := fun p hp => ?_
               reported := fun j w hw => absurd hw List.not_mem_nil }
      obtain ⟨hp, hne⟩ := List.mem_filter.mp hp
      show Function.update s.posts id none p.2.id = _
      rw [Function.update_of_ne (of_decide_eq_true hne)]
      exact hkept p hp

/-- Along every run, no post is lost exactly when each is created while no other post of
the same local time is there. -/
theorem posts_kept_iff (es : List Event) :
    machine.Every (fun s _ s' o => Keeps s s' o) init es ↔
      machine.Every (fun s _ _ o => Fresh s o) init es := by
  refine Reactive.Machine.every_iff (I := fun s => Sound s ∧ Kept s) ?_ ?_
  · intro s e s' o hs h
    refine ⟨keeps_iff hs.1 hs.2 h, fun hkeeps => ⟨step_sound hs.1 h, hkeeps.kept⟩⟩
  · refine ⟨{ held := by simp [init], written := by simp [init, NewPost.init] }, ?_⟩
    exact fun p hp => absurd hp List.not_mem_nil

def user (uid : String) : LoginModel :=
  { name := none, phone := none, email := none, uid := some uid, image := none, cover := none,
    bio := none, isEmailVarified := none }

/-- Ann has posted, and an hour later Bob posts, one time zone to the west. -/
def sameTime : List Event :=
  [.cubit 0 (.edit "hello"), .cubit 0 (.post (some (user "ann")) (some "ann") .zero),
    .cubit 0 (.applied 0), .cubit 0 (.settled 0 true true), .cubit 1 (.edit "hi"),
    .cubit 1 (.post (some (user "bob")) (some "bob") .zero), .cubit 1 (.applied 0)]

/-- Both posts were created and none was deleted, but Ann's document is now Bob's. -/
theorem post_replaced :
    ∃ s o p p', machine.run init sameTime = some (s, o) ∧ s.live = [p', p] ∧ s.deleted = [] ∧
      p.2.post.uid = some "ann" ∧ p'.2.post.uid = some "bob" ∧
      s.posts p.2.id = some p'.2.post.toMap ∧
      ¬ machine.Every (fun s _ s' o => Keeps s s' o) init sameTime := by
  refine ⟨_, _, _, _, rfl, rfl, rfl, rfl, rfl, rfl, fun h => ?_⟩
  have hlast := ((((((h _ _ rfl).2 _ _ rfl).2 _ _ rfl).2 _ _ rfl).2 _ _ rfl).2 _ _ rfl).2 _ _ rfl
  have hbob := hlast.1.kept _ (List.Mem.head _)
  have hann := hlast.1.kept _ (List.Mem.tail _ (List.Mem.head _))
  have huid := congrFun (Option.some.inj (hbob.symm.trans hann)) "uid"
  exact absurd huid (by decide)

end Posts
end SocialApp
