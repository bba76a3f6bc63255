import SocialApp.Home.Rows
import SocialApp.Reactive.Membership

/-! # The like buttons and the likes on the server

A like or an unlike changes a document on the server, and its completion changes
what the screen shows, for the post that is selected at that moment.  Post by
post this is a counted set seen from afar. -/

namespace SocialApp
namespace Home

open Reactive (Agrees Request)

/-- The cubit together with the users who have a document in `posts/p/likes`. -/
structure Liked where
  home : Home
  likers : String → Finset String

/-- What the server does when it carries out a write. -/
def serve (likers : String → Finset String) : Effect → String → Finset String
  | .applied (.setLike p (some u)) => Function.update likers p (Request.serve true u (likers p))
  | .applied (.deleteLike p (some u)) => Function.update likers p (Request.serve false u (likers p))
  | _ => likers

namespace Liked

def step (s : Liked) (e : Event) : Option (Liked × List Effect) :=
  (s.home.step e).map fun r => ({ home := r.1, likers := r.2.foldl serve s.likers }, r.2)

def machine : Reactive.Machine Liked Event Effect := ⟨step⟩

end Liked

/-- Taps on like buttons, comments from the rows, and writes that are carried out
and then succeed. -/
def Event.taps : Event → Bool
  | .rowLike _ => true
  | .rowComment _ _ _ => true
  | .applied _ => true
  | .settled _ ok => ok
  | _ => false

/-- A like or an unlike of `p` in flight. -/
def likeOf (p : String) : Pending → Option Request
  | .write (.setLike q _) served => if q = p then some { put := true, served } else none
  | .write (.deleteLike q _) served => if q = p then some { put := false, served } else none
  | _ => none

/-- The post of a like or an unlike in flight. -/
def likePost : Pending → Option String
  | .write (.setLike p _) _ => some p
  | .write (.deleteLike p _) _ => some p
  | _ => none

def requests (p : String) (s : Home) : List Request := s.inFlight.filterMap (likeOf p)

/-- What makes the completions find the right post: a post is tapped only while
none of its own likes is in flight, and is selected when its like completes. -/
def Alone (s : Liked) (e : Event) : Prop :=
  match e with
  | .rowLike i => ∀ p, s.home.postId[i]? = some p → s.home.requests p = []
  | .settled k _ => ∀ p, s.home.inFlight[k]?.bind likePost = some p → s.home.selectedPostId = p
  | _ => True

/-- The user `u` is logged in, every like in flight is by `u` and of a loaded
post, and what is shown of each loaded post agrees with the server. -/
structure Agreed (u : String) (s : Liked) : Prop where
  uId : s.home.uId = some u
  own : ∀ x ∈ s.home.inFlight, ∀ p r, likeOf p x = some r →
    p ∈ s.home.postId ∧ x = .write (likeWrite r.put p (some u)) r.served
  agrees : ∀ p ∈ s.home.postId,
    Agrees u (s.home.likes p) (s.home.myLikes p) (s.likers p) (s.home.requests p)

/-! ## Requests -/

theorem likeOf_likeWrite (put served : Bool) (p : String) (uid : Option String) :
    likeOf p (.write (likeWrite put p uid) served) = some { put, served } := by
  cases put <;> simp [likeWrite, likeOf]

theorem likeOf_likeWrite_ne {put served : Bool} {p q : String} (uid : Option String)
    (h : q ≠ p) : likeOf q (.write (likeWrite put p uid) served) = none := by
  cases put <;> simp [likeWrite, likeOf, h.symm]

/-- A like is a request about its own post only. -/
theorem likeOf_likeWrite_own {put served : Bool} {p q u : String} {r : Request}
    (h : likeOf q (.write (likeWrite put p (some u)) served) = some r) :
    q = p ∧ Pending.write (likeWrite put p (some u)) served =
      .write (likeWrite r.put q (some u)) r.served := by
  by_cases hq : q = p
  · subst hq
    rw [likeOf_likeWrite, Option.some.injEq] at h
    rw [← h]
    exact ⟨rfl, rfl⟩
  · rw [likeOf_likeWrite_ne _ hq] at h
    exact absurd h (by simp)

/-- A like in flight is the only one of its post. -/
theorem requests_eq_singleton {u : String} {s : Home} {k : Nat} {x : Pending} {p : String}
    {r : Request} {count : Option Int} {mine : Option Bool} {likers : Finset String}
    (h : Agrees u count mine likers (s.requests p)) (hk : s.inFlight[k]? = some x)
    (hx : likeOf p x = some r) :
    s.requests p = [r] ∧ (s.landed k).requests p = [] := by
  have hperm : (r :: (s.landed k).requests p).Perm (s.requests p) :=
    Reactive.filterMap_eraseIdx_some hk hx
  have hone := h.length_le_one
  rw [← hperm.length_eq, List.length_cons] at hone
  have hnil : (s.landed k).requests p = [] := List.eq_nil_of_length_eq_zero (by omega)
  rw [hnil] at hperm
  exact ⟨(List.singleton_perm.mp hperm).symm, hnil⟩

theorem requests_await (p : String) (s : Home) (ps : List Pending) :
    (s.await ps).requests p = s.requests p ++ ps.filterMap (likeOf p) := by
  simp [requests, await]

theorem requests_landed {p : String} {s : Home} {k : Nat} {x : Pending}
    (hk : s.inFlight[k]? = some x) (hx : likeOf p x = none) :
    (s.landed k).requests p = s.requests p := Reactive.filterMap_eraseIdx_none hk hx

/-! ## Steps -/

/-- A step that changes neither what is shown nor the likes in flight. -/
theorem Agreed.keep {u : String} {s : Liked} {h : Home} (hs : Agreed u s)
    (uId : h.uId = s.home.uId) (postId : h.postId = s.home.postId)
    (likes : h.likes = s.home.likes) (myLikes : h.myLikes = s.home.myLikes)
    (own : ∀ x ∈ h.inFlight, x ∈ s.home.inFlight ∨ ∀ p, likeOf p x = none)
    (requests : ∀ p, h.requests p = s.home.requests p) :
    Agreed u { home := h, likers := s.likers } := by
  refine { uId := uId.trans hs.uId, own := ?_, agrees := ?_ }
  · intro x hx p r hr
    show p ∈ h.postId ∧ _
    rw [postId]
    rcases own x hx with hx | hnone
    · exact hs.own x hx p r hr
    · rw [hnone p] at hr
      exact absurd hr (by simp)
  · intro p hp
    have hp' : p ∈ s.home.postId := by rwa [← postId]
    show Agrees u (h.likes p) (h.myLikes p) (s.likers p) (h.requests p)
    rw [likes, myLikes, requests]
    exact hs.agrees p hp'

/-- A tap on the row of `p`, which has no like in flight, asks for the opposite of
what is shown of `p`. -/
theorem agreed_like {u : String} {s : Liked} {p : String} {b : Bool} (hs : Agreed u s)
    (hmem : p ∈ s.home.postId) (hnone : s.home.requests p = [])
    (hb : s.home.myLikes p = some b) :
    Agreed u
      { home := (({ s.home with selectedPostId := p } : Home).issue
          (likeWrite (!b) p (some u))).1,
        likers := s.likers } := by
  refine { uId := hs.uId, own := ?_, agrees := ?_ }
  · intro x hx q r hr
    rcases List.mem_append.mp hx with hx | hx
    · exact hs.own x hx q r hr
    · rw [List.mem_singleton.mp hx] at hr ⊢
      obtain ⟨hq, hwrite⟩ := likeOf_likeWrite_own hr
      rw [hq] at hwrite ⊢
      exact ⟨hmem, hwrite⟩
  · intro q hq
    have hreq := requests_await q { s.home with selectedPostId := p }
      [.write (likeWrite (!b) p (some u)) false]
    show Agrees u (s.home.likes q) (s.home.myLikes q) (s.likers q)
      (Home.requests q (Home.await _ _))
    rw [hreq]
    by_cases hqp : q = p
    · subst hqp
      show Agrees u _ _ _ (s.home.requests q ++ _)
      have hagrees := hs.agrees q hmem
      rw [hnone] at hagrees
      rw [hnone, List.nil_append, List.filterMap_cons_some (likeOf_likeWrite _ _ _ _)]
      exact hagrees.ask hb
    · rw [List.filterMap_cons_none (likeOf_likeWrite_ne _ hqp), List.filterMap_nil,
        List.append_nil]
      exact hs.agrees q hq

theorem agreed_rowLike {u : String} {s : Liked} {i : Nat} (hs : Agreed u s)
    (halone : Alone s (.rowLike i)) :
    Agreed u { home := (s.home.rowLike i).1,
               likers := (s.home.rowLike i).2.foldl serve s.likers } := by
  rcases rowLike_cases s.home i with ⟨_, h⟩ | ⟨p, hp, ⟨_, h⟩ | ⟨b, hb, h⟩⟩
  · rw [h]
    exact hs
  · rw [h]
    exact hs.keep rfl rfl rfl rfl (fun x hx => Or.inl hx) (fun _ => rfl)
  · have hlike := agreed_like hs (List.mem_of_getElem? hp) (halone p hp) hb
    rw [← hs.uId] at hlike
    rw [h]
    exact hlike

theorem agreed_rowComment {u : String} {s : Liked} {i : Nat} {text now : String}
    (hs : Agreed u s) :
    Agreed u { home := (s.home.rowComment i text now).1,
               likers := (s.home.rowComment i text now).2.foldl serve s.likers } := by
  rcases rowComment_cases s.home i text now with ⟨_, h⟩ | ⟨_, ⟨_, h⟩ | ⟨p, _, h⟩⟩
  · rw [h]
    exact hs
  · rw [h]
    exact hs
  · rw [h]
    refine hs.keep rfl rfl rfl rfl (fun x hx => ?_) (fun q => ?_)
    · rcases List.mem_append.mp hx with hx | hx
      · exact Or.inl hx
      · rw [List.mem_singleton.mp hx]
        exact Or.inr fun _ => rfl
    · exact (requests_await q _ _).trans (List.append_nil _)

theorem serve_likeWrite (likers : String → Finset String) (put : Bool) (p u : String) :
    serve likers (.applied (likeWrite put p (some u))) =
      Function.update likers p (Request.serve put u (likers p)) := by
  cases put <;> rfl

/-- The server carries out the one like of a post that is in flight. -/
theorem agreed_served {u : String} {s : Liked} {k : Nat} {put : Bool} {p : String}
    (hs : Agreed u s)
    (hk : s.home.inFlight[k]? = some (.write (likeWrite put p (some u)) false)) :
    Agreed u
      { home := { s.home with
                  inFlight := s.home.inFlight.set k (.write (likeWrite put p (some u)) true) },
        likers := Function.update s.likers p (Request.serve put u (s.likers p)) } := by
  have hof := likeOf_likeWrite put false p (some u)
  have hmem : p ∈ s.home.postId := (hs.own _ (List.mem_of_getElem? hk) p _ hof).1
  obtain ⟨hone, hnil⟩ := requests_eq_singleton (hs.agrees p hmem) hk hof
  refine { uId := hs.uId, own := ?_, agrees := ?_ }
  · intro x hx q r hr
    rcases List.mem_or_eq_of_mem_set hx with hx | rfl
    · exact hs.own x hx q r hr
    · obtain ⟨hq, hwrite⟩ := likeOf_likeWrite_own hr
      rw [hq] at hwrite ⊢
      exact ⟨hmem, hwrite⟩
  · intro q hq
    dsimp only
    by_cases hqp : q = p
    · subst hqp
      have hperm := Reactive.filterMap_set_some hk (likeOf_likeWrite put true q (some u))
      have hrest : (s.home.inFlight.eraseIdx k).filterMap (likeOf q) = [] := hnil
      rw [hrest] at hperm
      have hagrees := hs.agrees q hmem
      rw [hone] at hagrees
      show Agrees u (s.home.likes q) (s.home.myLikes q) _ ((s.home.inFlight.set k _).filterMap _)
      rw [List.perm_singleton.mp hperm, Function.update_self]
      exact hagrees.served
    · have hsame : likeOf q (.write (likeWrite put p (some u)) true) =
          likeOf q (.write (likeWrite put p (some u)) false) := by
        rw [likeOf_likeWrite_ne _ hqp, likeOf_likeWrite_ne _ hqp]
      show Agrees u (s.home.likes q) (s.home.myLikes q) _ ((s.home.inFlight.set k _).filterMap _)
      rw [Reactive.filterMap_set hk hsame, Function.update_of_ne hqp]
      exact hs.agrees q hq

theorem writeThen_likeWrite {s : Home} {put : Bool} {p : String} {uid : Option String} {n : Int}
    (hsel : s.selectedPostId = p) (hn : s.likes p = some n) (ok : Bool) :
    (s.writeThen (likeWrite put p uid) ok).1 =
      { s with likes := Function.update s.likes p (some (if put then n + 1 else n - 1)),
               myLikes := Function.update s.myLikes p (some put) } := by
  subst hsel
  cases put with
  | false => simp [likeWrite, writeThen, unLikeThen, hn]
  | true => simp [likeWrite, writeThen, likeThen, hn]

/-- The completion of a like finds its post selected. -/
theorem agreed_answered {u : String} {s : Liked} {k : Nat} {put ok : Bool} {p : String}
    (hs : Agreed u s)
    (hk : s.home.inFlight[k]? = some (.write (likeWrite put p (some u)) true))
    (hsel : s.home.selectedPostId = p) :
    Agreed u { home := ((s.home.landed k).writeThen (likeWrite put p (some u)) ok).1,
               likers := s.likers } := by
  have hof := likeOf_likeWrite put true p (some u)
  have hmem : p ∈ s.home.postId := (hs.own _ (List.mem_of_getElem? hk) p _ hof).1
  obtain ⟨hone, hnil⟩ := requests_eq_singleton (hs.agrees p hmem) hk hof
  have hagrees := hs.agrees p hmem
  rw [hone] at hagrees
  obtain ⟨n, hn, hdone⟩ := hagrees.answered
  rw [@writeThen_likeWrite (s.home.landed k) put p (some u) n hsel hn ok]
  refine { uId := hs.uId, own := ?_, agrees := ?_ }
  · intro x hx q r hr
    exact hs.own x (List.mem_of_mem_eraseIdx hx) q r hr
  · intro q hq
    dsimp only
    by_cases hqp : q = p
    · subst hqp
      have hreq : Home.requests q { s.home.landed k with
          likes := Function.update (s.home.landed k).likes q (some (if put then n + 1 else n - 1)),
          myLikes := Function.update (s.home.landed k).myLikes q (some put) } = [] := hnil
      rw [hreq, Function.update_self, Function.update_self]
      exact hdone
    · have hreq : (s.home.landed k).requests q = s.home.requests q :=
        requests_landed hk (likeOf_likeWrite_ne _ hqp)
      rw [Function.update_of_ne hqp, Function.update_of_ne hqp]
      show Agrees u (s.home.likes q) (s.home.myLikes q) (s.likers q)
        ((s.home.landed k).requests q)
      rw [hreq]
      exact hs.agrees q hq

/-- A write in flight is a like of a loaded post by the user, or of no post. -/
theorem Agreed.write_cases {u : String} {s : Liked} {k : Nat} {w : Write} {served : Bool}
    (hs : Agreed u s) (hk : s.home.inFlight[k]? = some (.write w served)) :
    (∃ put p, w = likeWrite put p (some u)) ∨ ∀ p b, likeOf p (.write w b) = none := by
  have hown := hs.own _ (List.mem_of_getElem? hk)
  cases w with
  | addComment post comment => exact Or.inr fun _ _ => rfl
  | deletePost post => exact Or.inr fun _ _ => rfl
  | setLike post uid =>
    obtain ⟨_, heq⟩ := hown post { put := true, served } (likeOf_likeWrite true served post uid)
    exact Or.inl ⟨true, post, (Pending.write.inj heq).1⟩
  | deleteLike post uid =>
    obtain ⟨_, heq⟩ := hown post { put := false, served } (likeOf_likeWrite false served post uid)
    exact Or.inl ⟨false, post, (Pending.write.inj heq).1⟩

theorem serve_other {w : Write} (h : ∀ p b, likeOf p (.write w b) = none)
    (likers : String → Finset String) : serve likers (.applied w) = likers := by
  cases w with
  | addComment post comment => rfl
  | deletePost post => rfl
  | setLike post uid => exact absurd (h post true) (by simp [likeOf])
  | deleteLike post uid => exact absurd (h post true) (by simp [likeOf])

theorem agreed_applied {u : String} {s : Liked} {k : Nat} {w : Write} (hs : Agreed u s)
    (hk : s.home.inFlight[k]? = some (.write w false)) :
    Agreed u { home := { s.home with inFlight := s.home.inFlight.set k (.write w true) },
               likers := serve s.likers (.applied w) } := by
  rcases hs.write_cases hk with ⟨put, p, rfl⟩ | hother
  · rw [serve_likeWrite]
    exact agreed_served hs hk
  · rw [serve_other hother]
    refine hs.keep rfl rfl rfl rfl (fun x hx => ?_) (fun p => ?_)
    · rcases List.mem_or_eq_of_mem_set hx with hx | rfl
      · exact Or.inl hx
      · exact Or.inr fun p => hother p true
    · exact Reactive.filterMap_set hk ((hother p true).trans (hother p false).symm)

theorem agreed_settled {u : String} {s : Liked} {k : Nat} {w : Write} (hs : Agreed u s)
    (halone : Alone s (.settled k true))
    (hk : s.home.inFlight[k]? = some (.write w true)) :
    Agreed u { home := ((s.home.landed k).writeThen w true).1, likers := s.likers } := by
  rcases hs.write_cases hk with ⟨put, p, rfl⟩ | hother
  · have hpost : s.home.inFlight[k]?.bind likePost = some p := by
      rw [hk]
      cases put <;> rfl
    exact agreed_answered hs hk (halone p hpost)
  · have hreq : ∀ p, (s.home.landed k).requests p = s.home.requests p :=
      fun p => requests_landed hk (hother p true)
    have hmem : ∀ x ∈ (s.home.landed k).inFlight,
        x ∈ s.home.inFlight ∨ ∀ p, likeOf p x = none :=
      fun x hx => Or.inl (List.mem_of_mem_eraseIdx hx)
    cases w with
    | addComment post comment => exact hs.keep rfl rfl rfl rfl hmem hreq
    | deletePost post => exact hs.keep rfl rfl rfl rfl hmem hreq
    | setLike post uid => exact absurd (hother post true) (by simp [likeOf])
    | deleteLike post uid => exact absurd (hother post true) (by simp [likeOf])

/-- The completions of writes carry nothing out. -/
theorem writeThen_serve (s : Home) (w : Write) (ok : Bool) (likers : String → Finset String) :
    (s.writeThen w ok).2.foldl serve likers = likers := by
  cases w with
  | addComment post comment => rfl
  | deletePost post => cases ok <;> rfl
  | setLike post uid =>
    simp only [writeThen, likeThen]
    split <;> rfl
  | deleteLike post uid =>
    simp only [writeThen, unLikeThen]
    split <;> rfl

theorem step_agreed {u : String} {s s' : Liked} {e : Event} {o : List Effect}
    (hs : Agreed u s) (h : s.step e = some (s', o)) (he : e.taps = true) (halone : Alone s e) :
    Agreed u s' := by
  obtain ⟨⟨home, effects⟩, hstep, heq⟩ := Option.map_eq_some_iff.mp h
  obtain ⟨rfl, rfl⟩ := Prod.mk.inj heq
  cases e with
  | rowLike i =>
    have hr := Option.some.inj hstep
    have hs' := agreed_rowLike hs halone
    rwa [hr] at hs'
  | rowComment i text now =>
    have hr := Option.some.inj hstep
    have hs' := @agreed_rowComment u s i text now hs
    rwa [hr] at hs'
  | applied k =>
    obtain ⟨w, hk, rfl, rfl⟩ := step_applied hstep
    exact agreed_applied hs hk
  | settled k ok =>
    have hok : ok = true := he
    subst hok
    obtain ⟨w, hk, hr⟩ := step_settled hstep
    have hs' := agreed_settled hs halone hk
    have hserve := writeThen_serve (s.home.landed k) w true s.likers
    rw [hr] at hs' hserve
    rw [hserve]
    exact hs'
  | _ => exact absurd he (by simp [Event.taps])

/-- In a run in which each post is tapped only while none of its own likes is in
flight, and is the selected one when its like completes, the likes shown of every
loaded post are those on the server whenever no like is in flight. -/
theorem likes_shown_of_alone {u : String} {es : List Event} {s₀ s : Liked} {o : List Effect}
    (h₀ : Agreed u s₀) (hes : ∀ e ∈ es, e.taps = true)
    (halone : Liked.machine.Every (fun s e _ _ => Alone s e) s₀ es)
    (hrun : Liked.machine.run s₀ es = some (s, o))
    (hquiet : ∀ p, s.home.requests p = []) :
    ∀ p ∈ s.home.postId, s.home.likes p = some ((s.likers p).card : Int) ∧
      s.home.myLikes p = some (decide (u ∈ s.likers p)) := by
  have htaps : Liked.machine.Every (fun _ e _ _ => e.taps = true) s₀ es :=
    Reactive.Machine.every_of_forall (fun _ _ _ _ h => h) hes s₀
  have hs := Reactive.Machine.run_state_invariant (M := Liked.machine)
    (fun s e s' o hs hstep hq => step_agreed hs hstep hq.1 hq.2) h₀ (htaps.and halone) hrun
  intro p hp
  have hagrees := hs.agrees p hp
  rw [hquiet p] at hagrees
  exact hagrees

/-! ## Two posts with their likes -/

/-- ann has loaded the two posts, and likes the newer one. -/
def twoPostsLiked : Liked :=
  { home := ((machine.run (init none) (loadTwoPosts ++
      [.comments 0 [], .comments 0 [], .likes 0 ["ann"], .likes 0 []])).map Prod.fst).getD
        (init none),
    likers := fun p => if p = "2022-01-02" then {"ann"} else ∅ }

theorem twoPostsLiked_agreed : Agreed "ann" twoPostsLiked := by
  have hinFlight : twoPostsLiked.home.inFlight = [] := rfl
  have hpostId : twoPostsLiked.home.postId = ["2022-01-02", "2022-01-01"] := rfl
  refine { uId := rfl, own := ?_, agrees := ?_ }
  · intro x hx
    rw [hinFlight] at hx
    exact absurd hx (by simp)
  · intro p hp
    have hp' : p = "2022-01-02" ∨ p = "2022-01-01" := by simpa [hpostId] using hp
    rcases hp' with rfl | rfl
    · exact ⟨rfl, rfl⟩
    · exact ⟨rfl, rfl⟩

/-- A second tap before the first unlike has completed counts it twice. -/
theorem likes_shown_after_two_taps :
    Agreed "ann" twoPostsLiked ∧
    ∃ s o, Liked.machine.run twoPostsLiked
        [.rowLike 0, .rowLike 0, .applied 0, .applied 1, .settled 0 true, .settled 0 true] =
          some (s, o) ∧
      s.home.inFlight = [] ∧ "2022-01-02" ∈ s.home.postId ∧
      s.home.likes "2022-01-02" ≠ some ((s.likers "2022-01-02").card : Int) := by
  refine ⟨twoPostsLiked_agreed, _, _, rfl, rfl, by decide, ?_⟩
  show some (-1) ≠ some ((Finset.card _ : Nat) : Int)
  intro h
  have := Option.some.inj h
  omega

/-- ann takes her like back, and likes the other post. -/
def tapsOneByOne : List Event :=
  [.rowLike 0, .applied 0, .settled 0 true, .rowLike 1, .applied 0, .settled 0 true]

theorem tapsOneByOne_alone :
    Liked.machine.Every (fun s e _ _ => Alone s e) twoPostsLiked tapsOneByOne := by
  refine Reactive.Machine.every_cons rfl (fun _ _ => rfl) ?_
  refine Reactive.Machine.every_cons rfl trivial ?_
  refine Reactive.Machine.every_cons rfl (fun _ h => Option.some.inj h) ?_
  refine Reactive.Machine.every_cons rfl (fun _ _ => rfl) ?_
  refine Reactive.Machine.every_cons rfl trivial ?_
  exact Reactive.Machine.every_cons rfl (fun _ h => Option.some.inj h) trivial

theorem likes_shown_of_alone_twoPosts :
    ∃ s o, Liked.machine.run twoPostsLiked tapsOneByOne = some (s, o) ∧
      ∀ p ∈ s.home.postId, s.home.likes p = some ((s.likers p).card : Int) ∧
        s.home.myLikes p = some (decide ("ann" ∈ s.likers p)) :=
  ⟨_, _, rfl, @likes_shown_of_alone "ann" tapsOneByOne twoPostsLiked _ _ twoPostsLiked_agreed
    (by simp [tapsOneByOne, Event.taps]) tapsOneByOne_alone rfl (fun _ => rfl)⟩

end Home
end SocialApp
