import SocialApp.NewPost.Step
import SocialApp.Reactive.InFlight

/-! # The image of a post

A post that was sent with an image has the URL of the upload of this image.  A post
without an image has the `postImage` that the cubit had when POST was tapped, which is
the URL of an older attempt unless a post has been created since. -/

namespace SocialApp
namespace NewPost

/-! ## Where the image of a write comes from -/

/-- A write of a tap without an image has the `postImage` of that moment, and one of a
tap with an image has the URL of its upload. -/
def FromTap (o : List Effect) (w : Write) : Prop :=
  (∃ p, Effect.tap w.tap none p ∈ o ∧ w.post.postImage = some (p.getD "")) ∨
    ∃ file p url, Effect.tap w.tap (some file) p ∈ o ∧ Effect.url w.tap file url ∈ o ∧
      w.post.postImage = some url

theorem FromTap.mono {o o' : List Effect} {w : Write} (h : FromTap o w) (hsub : o ⊆ o') :
    FromTap o' w := by
  rcases h with ⟨p, htap, himage⟩ | ⟨file, p, url, htap, hurl, himage⟩
  · exact Or.inl ⟨p, hsub htap, himage⟩
  · exact Or.inr ⟨file, p, url, hsub htap, hsub hurl, himage⟩

/-- A tap has a number of its own, an upload is of the image selected at its tap, and
a document is one that some tap has led to. -/
structure Told (s : NewPost) (o : List Effect) : Prop where
  fresh : ∀ n file p, Effect.tap n file p ∈ o → n < s.taps
  single : ∀ n file p file' p', Effect.tap n file p ∈ o → Effect.tap n file' p' ∈ o →
    file = file' ∧ p = p'
  putting : ∀ file captured, Pending.putFile file captured ∈ s.inFlight →
    ∃ p, Effect.tap captured.tap (some file) p ∈ o
  asking : ∀ file captured, Pending.getDownloadURL file captured ∈ s.inFlight →
    ∃ p, Effect.tap captured.tap (some file) p ∈ o
  writing : ∀ w applied, Pending.write w applied ∈ s.inFlight → FromTap o w
  created : ∀ w, Effect.applied w ∈ o → FromTap o w

/-- A step that is no tap. -/
theorem Told.untapped {s s' : NewPost} {o o' : List Effect} (hs : Told s o)
    (htaps : s'.taps = s.taps) (hnone : ∀ n file p, Effect.tap n file p ∉ o')
    (hputting : ∀ file captured, Pending.putFile file captured ∈ s'.inFlight →
      Pending.putFile file captured ∈ s.inFlight)
    (hasking : ∀ file captured, Pending.getDownloadURL file captured ∈ s'.inFlight →
      Pending.getDownloadURL file captured ∈ s.inFlight ∨
        Pending.putFile file captured ∈ s.inFlight)
    (hwriting : ∀ w applied, Pending.write w applied ∈ s'.inFlight →
      (∃ before, Pending.write w before ∈ s.inFlight) ∨ FromTap (o ++ o') w)
    (hcreated : ∀ w, Effect.applied w ∈ o' → Pending.write w false ∈ s.inFlight) :
    Told s' (o ++ o') := by
  have hold : ∀ {x}, x ∈ o → x ∈ o ++ o' := fun hx => List.mem_append_left _ hx
  have htap : ∀ {n file p}, Effect.tap n file p ∈ o ++ o' → Effect.tap n file p ∈ o := by
    intro n file p h
    rcases List.mem_append.mp h with h | h
    · exact h
    · exact absurd h (hnone n file p)
  have hfrom : ∀ {w}, FromTap o w → FromTap (o ++ o') w := fun h =>
    h.mono (List.subset_append_left _ _)
  exact
    { fresh := fun n file p h => htaps ▸ hs.fresh n file p (htap h)
      single := fun n file p file' p' h h' => hs.single n file p file' p' (htap h) (htap h')
      putting := fun file captured h => by
        obtain ⟨p, hp⟩ := hs.putting file captured (hputting file captured h)
        exact ⟨p, hold hp⟩
      asking := fun file captured h => by
        rcases hasking file captured h with h | h
        · obtain ⟨p, hp⟩ := hs.asking file captured h
          exact ⟨p, hold hp⟩
        · obtain ⟨p, hp⟩ := hs.putting file captured h
          exact ⟨p, hold hp⟩
      writing := fun w applied h => by
        rcases hwriting w applied h with ⟨before, h⟩ | h
        · exact hfrom (hs.writing w before h)
        · exact h
      created := fun w h => by
        rcases List.mem_append.mp h with h | h
        · exact hfrom (hs.created w h)
        · exact hfrom (hs.writing w false (hcreated w h)) }

/-- A tap, with the number that is next, puts one callback in flight. -/
theorem Told.tapped {s s' : NewPost} {o o' : List Effect} {p : Pending} (hs : Told s o)
    (file image : Option String) (htaps : s'.taps = s.taps + 1)
    (htap : ∀ n f i, Effect.tap n f i ∈ o' ↔ n = s.taps ∧ f = file ∧ i = image)
    (hinFlight : s'.inFlight = s.inFlight ++ [p])
    (hputting : ∀ f captured, p = .putFile f captured → captured.tap = s.taps ∧ some f = file)
    (hasking : ∀ f captured, p ≠ .getDownloadURL f captured)
    (hwriting : ∀ w applied, p = .write w applied → FromTap (o ++ o') w)
    (hcreated : ∀ w, Effect.applied w ∉ o') : Told s' (o ++ o') := by
  have hold : ∀ {x}, x ∈ o → x ∈ o ++ o' := fun hx => List.mem_append_left _ hx
  have hfrom : ∀ {w}, FromTap o w → FromTap (o ++ o') w := fun h =>
    h.mono (List.subset_append_left _ _)
  have hmem : ∀ {q}, q ∈ s'.inFlight → q ∈ s.inFlight ∨ p = q := by
    intro q hq
    rw [hinFlight, List.mem_append, List.mem_singleton] at hq
    exact hq.imp id Eq.symm
  -- an older tap has a smaller number
  have hnew : ∀ {n f i f' i'}, Effect.tap n f i ∈ o → Effect.tap n f' i' ∈ o' → False := by
    intro n f i f' i' h h'
    have hlt := hs.fresh n f i h
    rw [((htap n f' i').mp h').1] at hlt
    exact absurd hlt (Nat.lt_irrefl _)
  refine { fresh := ?_, single := ?_, putting := ?_, asking := ?_, writing := ?_, created := ?_ }
  · intro n f i h
    rw [htaps]
    rcases List.mem_append.mp h with h | h
    · exact Nat.lt_succ_of_lt (hs.fresh n f i h)
    · rw [((htap n f i).mp h).1]
      exact Nat.lt_succ_self _
  · intro n f i f' i' h h'
    rcases List.mem_append.mp h with h | h
    · rcases List.mem_append.mp h' with h' | h'
      · exact hs.single n f i f' i' h h'
      · exact absurd (hnew h h') id
    · rcases List.mem_append.mp h' with h' | h'
      · exact absurd (hnew h' h) id
      · obtain ⟨-, hf, hi⟩ := (htap n f i).mp h
        obtain ⟨-, hf', hi'⟩ := (htap n f' i').mp h'
        exact ⟨hf.trans hf'.symm, hi.trans hi'.symm⟩
  · intro f captured h
    rcases hmem h with h | h
    · obtain ⟨i, hi⟩ := hs.putting f captured h
      exact ⟨i, hold hi⟩
    · obtain ⟨hn, hf⟩ := hputting f captured h
      exact ⟨image, List.mem_append_right _ ((htap _ _ _).mpr ⟨hn, hf, rfl⟩)⟩
  · intro f captured h
    rcases hmem h with h | h
    · obtain ⟨i, hi⟩ := hs.asking f captured h
      exact ⟨i, hold hi⟩
    · exact absurd h (hasking f captured)
  · intro w applied h
    rcases hmem h with h | h
    · exact hfrom (hs.writing w applied h)
    · exact hwriting w applied h
  · intro w h
    rcases List.mem_append.mp h with h | h
    · exact hfrom (hs.created w h)
    · exact absurd h (hcreated w)

theorem step_told {s s' : NewPost} {e : Event} {o o' : List Effect} (hs : Told s o)
    (h : s.step e = some (s', o')) : Told s' (o ++ o') := by
  cases step_did h with
  | other inFlight taps effects _ =>
    refine hs.untapped taps ?_ ?_ ?_ ?_ ?_
    · exact fun n file p hp => absurd (effects _ hp) (by simp [Effect.quiet])
    · exact fun file captured hp => inFlight _ hp
    · exact fun file captured hp => Or.inl (inFlight _ hp)
    · exact fun w applied hp => Or.inl ⟨applied, inFlight _ hp⟩
    · exact fun w hw => absurd (effects _ hw) (by simp [Effect.quiet])
  | @text w tap image inFlight taps effects =>
    refine hs.tapped none s.postImage taps ?_ inFlight ?_ ?_ ?_ ?_
    · intro n f i
      rw [effects]
      simp
    · exact fun f captured h => absurd h (by simp)
    · exact fun f captured => by simp
    · intro w' applied hw
      obtain ⟨rfl, -⟩ := Pending.write.inj hw
      refine Or.inl ⟨s.postImage, ?_, image⟩
      rw [effects, tap]
      simp
    · intro w'
      rw [effects]
      simp
  | @upload file captured tap inFlight taps effects =>
    refine hs.tapped (some file) s.postImage taps ?_ inFlight ?_ ?_ ?_ ?_
    · intro n f i
      rw [effects]
      simp
    · intro f captured' hp
      obtain ⟨rfl, rfl⟩ := Pending.putFile.inj hp
      exact ⟨tap, rfl⟩
    · exact fun f captured => by simp
    · exact fun w applied hp => absurd hp (by simp)
    · intro w
      rw [effects]
      simp
  | @uploaded k file captured request inFlight taps effects =>
    have hmem : ∀ {p}, p ∈ s'.inFlight → p ∈ s.inFlight ∨ p = .getDownloadURL file captured :=
      fun hp => Reactive.mem_or_eq_of_mem_issued (inFlight ▸ hp)
    refine hs.untapped taps ?_ ?_ ?_ ?_ ?_
    · simp [effects]
    · exact fun f captured' hp => (hmem hp).resolve_right (by simp)
    · intro f captured' hp
      rcases hmem hp with hp | hp
      · exact Or.inl hp
      · obtain ⟨rfl, rfl⟩ := Pending.getDownloadURL.inj hp
        exact Or.inr (List.mem_of_getElem? request)
    · exact fun w applied hp => Or.inl ⟨applied, (hmem hp).resolve_right (by simp)⟩
    · simp [effects]
  | @url k file captured url w request tap image inFlight taps effects =>
    have hmem : ∀ {p}, p ∈ s'.inFlight → p ∈ s.inFlight ∨ p = .write w false :=
      fun hp => Reactive.mem_or_eq_of_mem_issued (inFlight ▸ hp)
    refine hs.untapped taps ?_ ?_ ?_ ?_ ?_
    · simp [effects]
    · exact fun f captured' hp => (hmem hp).resolve_right (by simp)
    · exact fun f captured' hp => Or.inl ((hmem hp).resolve_right (by simp))
    · intro w' applied hp
      rcases hmem hp with hp | hp
      · exact Or.inl ⟨applied, hp⟩
      · obtain ⟨rfl, -⟩ := Pending.write.inj hp
        obtain ⟨p, hp⟩ := hs.asking file captured (List.mem_of_getElem? request)
        refine Or.inr (Or.inr ⟨file, p, url, ?_, ?_, image⟩)
        · rw [tap]
          exact List.mem_append_left _ hp
        · rw [tap, effects]
          simp
    · simp [effects]
  | @applied k w request inFlight taps effects =>
    have hmem : ∀ {p}, p ∈ s'.inFlight → p ∈ s.inFlight ∨ p = .write w true := by
      intro p hp
      rw [inFlight] at hp
      exact List.mem_or_eq_of_mem_set hp
    refine hs.untapped taps ?_ ?_ ?_ ?_ ?_
    · simp [effects]
    · exact fun f captured hp => (hmem hp).resolve_right (by simp)
    · exact fun f captured hp => Or.inl ((hmem hp).resolve_right (by simp))
    · intro w' applied hp
      rcases hmem hp with hp | hp
      · exact Or.inl ⟨applied, hp⟩
      · obtain ⟨rfl, -⟩ := Pending.write.inj hp
        exact Or.inl ⟨false, List.mem_of_getElem? request⟩
    · intro w' hw
      rw [effects, List.mem_singleton] at hw
      obtain rfl := Effect.applied.inj hw
      exact List.mem_of_getElem? request

theorem run_told {es : List Event} {s : NewPost} {o : List Effect}
    (hrun : machine.run init es = some (s, o)) : Told s o := by
  refine Reactive.Machine.run_preserves (M := machine) (I := Told) ?_ ?_ hrun
  · intro s e s' o a hs h
    exact step_told hs h
  · exact { fresh := by simp, single := by simp, putting := by simp [init], asking := by simp [init]
            writing := by simp [init], created := by simp }

/-! ## Every run -/

/-- The document has no image if none was selected when its POST was tapped, and else
the URL of the upload of this image. -/
def ImageOfTap (o : List Effect) (w : Write) : Prop :=
  ∀ file p, Effect.tap w.tap file p ∈ o →
    match file with
    | none => w.post.postImage = some ""
    | some file => ∃ url, Effect.url w.tap file url ∈ o ∧ w.post.postImage = some url

/-- Every document created has the image of its tap exactly when each one without an
image comes from a tap at which the cubit had no `postImage` left. -/
theorem images_iff {es : List Event} {s : NewPost} {o : List Effect}
    (hrun : machine.run init es = some (s, o)) :
    (∀ w, Effect.applied w ∈ o → ImageOfTap o w) ↔
      ∀ w, Effect.applied w ∈ o → ∀ p, Effect.tap w.tap none p ∈ o → p = none ∨ p = some "" := by
  have hs := run_told hrun
  have hempty : ∀ p : Option String, some (p.getD "") = some "" ↔ p = none ∨ p = some "" := by
    intro p
    cases p with
    | none => simp
    | some p => simp
  refine forall_congr' fun w => imp_congr_right fun hw => ?_
  rcases hs.created w hw with ⟨q, htap, himage⟩ | ⟨file, q, url, htap, hurl, himage⟩
  · constructor
    · intro h p hp
      have heq : w.post.postImage = some "" := h none p hp
      rw [(hs.single _ _ _ _ _ hp htap).2, ← hempty, ← himage, heq]
    · intro h file p hp
      obtain ⟨rfl, rfl⟩ := hs.single _ _ _ _ _ hp htap
      show w.post.postImage = some ""
      rw [himage]
      exact (hempty p).mpr (h p hp)
  · constructor
    · intro h p hp
      exact absurd (hs.single _ _ _ _ _ hp htap).1 (by simp)
    · intro h file' p hp
      obtain ⟨rfl, -⟩ := hs.single _ _ _ _ _ hp htap
      exact ⟨url, hurl, himage⟩

def ann : LoginModel :=
  { name := some "Ann", phone := none, email := none, uid := some "ann", image := none,
    cover := none, bio := none, isEmailVarified := none }

/-- Ann posts a text, and then one with an image. -/
def twoPosts : List Event :=
  [.edit "one", .post (some ann) (some "ann") .zero, .applied 0, .settled 0 true true,
    .edit "two", .pickPostImage (some "a.jpg"), .post (some ann) (some "ann") ⟨1, by decide⟩,
    .uploaded 0, .url 0 "https://a" (some "ann") ⟨2, by decide⟩, .applied 0]

theorem images_iff_twoPosts :
    ∃ s o, machine.run init twoPosts = some (s, o) ∧
      ∀ w, Effect.applied w ∈ o → ImageOfTap o w := by
  have hrun : ∃ s o, machine.run init twoPosts = some (s, o) ∧ (o.all fun
      | .tap _ none p => p.isNone
      | _ => true) = true := ⟨_, _, rfl, rfl⟩
  obtain ⟨s, o, hrun, hnone⟩ := hrun
  refine ⟨s, o, hrun, (images_iff hrun).mpr fun w _ p hp => ?_⟩
  exact Or.inl (Option.isNone_iff_eq_none.mp (List.all_eq_true.mp hnone _ hp))

/-- The write of a post with an image fails, Ann cancels the image, and posts a text. -/
def leftOver : List Event :=
  [.edit "one", .pickPostImage (some "a.jpg"), .post (some ann) (some "ann") .zero,
    .uploaded 0, .url 0 "https://a" (some "ann") ⟨1, by decide⟩, .settled 0 false true,
    .cancelPickPostImage, .edit "two", .post (some ann) (some "ann") ⟨2, by decide⟩, .applied 0]

/-- The text gets the image that was cancelled. -/
theorem image_of_failed_post :
    ∃ s o w, machine.run init leftOver = some (s, o) ∧ Effect.applied w ∈ o ∧
      Effect.tap w.tap none (some "https://a") ∈ o ∧ w.post.postImage = some "https://a" ∧
      ¬ ImageOfTap o w := by
  have hrun : ∃ s o w, machine.run init leftOver = some (s, o) ∧ o.getLast? = some (.applied w) ∧
      o[10]? = some (.tap w.tap none (some "https://a")) ∧
      w.post.postImage = some "https://a" := ⟨_, _, _, rfl, rfl, rfl, rfl⟩
  obtain ⟨s, o, w, hrun, happlied, htap, himage⟩ := hrun
  refine ⟨s, o, w, hrun, List.mem_of_getLast? happlied, List.mem_of_getElem? htap, himage, ?_⟩
  intro h
  have hnone : w.post.postImage = some "" := h none _ (List.mem_of_getElem? htap)
  rw [himage] at hnone
  exact absurd hnone (by decide)

end NewPost
end SocialApp
