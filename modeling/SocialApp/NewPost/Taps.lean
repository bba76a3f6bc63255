import SocialApp.NewPost.Step
import SocialApp.Reactive.InFlight
import Mathlib.Algebra.Order.Group.Multiset
import Mathlib.Tactic.Abel

/-! # What becomes of a tap on POST

A tap with an image uploads it first, and a tap without one writes the post at once.  The
callbacks of several taps are on their way at the same time.  Every tap ends in one write
or in one upload that fails, and every write settles once. -/

namespace SocialApp
namespace NewPost

/-! ## Accounts of the effects -/

def issueOf : Effect → Option Write
  | .issue w => some w
  | _ => none

def settleOf : Effect → Option Write
  | .settled w _ => some w
  | _ => none

def isFailure : Effect → Bool
  | .emit .uploadingPostImageError => true
  | _ => false

/-- The posts that have been written. -/
def issued (o : List Effect) : List Write := o.filterMap issueOf

/-- The writes that have settled. -/
def settledWrites (o : List Effect) : List Write := o.filterMap settleOf

/-- How many uploads have failed. -/
def failures (o : List Effect) : Nat := o.countP isFailure

/-- The tap that an upload is for. -/
def uploadOf : Pending → Option Nat
  | .putFile _ captured => some captured.tap
  | .getDownloadURL _ captured => some captured.tap
  | .write _ _ => none

def writeOf : Pending → Option Write
  | .write w _ => some w
  | _ => none

/-- The taps whose image is being uploaded. -/
def uploads (s : NewPost) : List Nat := s.inFlight.filterMap uploadOf

/-- The writes that have not settled. -/
def writes (s : NewPost) : List Write := s.inFlight.filterMap writeOf

theorem issued_append (a b : List Effect) : issued (a ++ b) = issued a ++ issued b :=
  List.filterMap_append

theorem settledWrites_append (a b : List Effect) :
    settledWrites (a ++ b) = settledWrites a ++ settledWrites b :=
  List.filterMap_append

theorem failures_append (a b : List Effect) : failures (a ++ b) = failures a + failures b :=
  List.countP_append

/-- What a step does to the callbacks: those that are `gone` have run, and those that have
`come` are new. -/
inductive Moves (s s' : NewPost) (o : List Effect) : List Pending → List Pending → Prop
  | quiet (taps : s'.taps = s.taps) (issued : issued o = []) (failures : failures o = 0)
      (settled : settledWrites o = []) : Moves s s' o [] []
  | text {w : Write} (tap : w.tap = s.taps) (taps : s'.taps = s.taps + 1)
      (issued : issued o = [w]) (failures : failures o = 0) (settled : settledWrites o = []) :
      Moves s s' o [] [.write w false]
  | image {file : String} {captured : Captured} (tap : captured.tap = s.taps)
      (taps : s'.taps = s.taps + 1) (issued : issued o = []) (failures : failures o = 0)
      (settled : settledWrites o = []) : Moves s s' o [] [.putFile file captured]
  | uploaded {file : String} {captured : Captured} (taps : s'.taps = s.taps)
      (issued : issued o = []) (failures : failures o = 0) (settled : settledWrites o = []) :
      Moves s s' o [.putFile file captured] [.getDownloadURL file captured]
  | url {file : String} {captured : Captured} {w : Write} (tap : w.tap = captured.tap)
      (taps : s'.taps = s.taps) (issued : issued o = [w]) (failures : failures o = 0)
      (settled : settledWrites o = []) :
      Moves s s' o [.getDownloadURL file captured] [.write w false]
  | failed {p : Pending} {n : Nat} (upload : uploadOf p = some n) (write : writeOf p = none)
      (taps : s'.taps = s.taps) (issued : issued o = []) (failures : failures o = 1)
      (settled : settledWrites o = []) : Moves s s' o [p] []
  | applied {w : Write} (taps : s'.taps = s.taps) (issued : issued o = [])
      (failures : failures o = 0) (settled : settledWrites o = []) :
      Moves s s' o [.write w false] [.write w true]
  | settled {w : Write} {applied : Bool} (taps : s'.taps = s.taps) (issued : issued o = [])
      (failures : failures o = 0) (settled : settledWrites o = [w]) :
      Moves s s' o [.write w applied] []

/-- A step that moves some callbacks, and leaves the others. -/
def Moved (s s' : NewPost) (o : List Effect) : Prop :=
  ∃ gone come, Moves s s' o gone come ∧ (s'.inFlight ++ gone).Perm (s.inFlight ++ come)

theorem perm_landed {s : NewPost} {k : Nat} {p : Pending} (hk : s.inFlight[k]? = some p)
    (come : List Pending) :
    ((s.inFlight.eraseIdx k ++ come) ++ [p]).Perm (s.inFlight ++ come) := by
  obtain ⟨hlt, rfl⟩ := List.getElem?_eq_some_iff.mp hk
  have hperm := List.getElem_cons_eraseIdx_perm hlt
  refine (List.perm_append_comm).trans ?_
  exact List.Perm.append_right come hperm

theorem perm_set {s : NewPost} {k : Nat} {p : Pending} (hk : s.inFlight[k]? = some p)
    (q : Pending) : (s.inFlight.set k q ++ [p]).Perm (s.inFlight ++ [q]) := by
  obtain ⟨hlt, -⟩ := List.getElem?_eq_some_iff.mp hk
  have hset := List.set_perm_cons_eraseIdx hlt q
  refine (hset.append_right [p]).trans ?_
  refine List.Perm.trans ?_ (perm_landed hk [q])
  exact (List.perm_append_singleton q _).symm.append_right [p]

theorem writeThen_quiet (ok mounted : Bool) (s : NewPost) :
    issued (s.writeThen ok mounted).2 = [] ∧ failures (s.writeThen ok mounted).2 = 0 ∧
      settledWrites (s.writeThen ok mounted).2 = [] := by
  cases ok with
  | false => exact ⟨rfl, rfl, rfl⟩
  | true =>
    cases mounted with
    | false => exact ⟨rfl, rfl, rfl⟩
    | true => exact ⟨rfl, rfl, rfl⟩

theorem post_moved {s s' : NewPost} {model : Option LoginModel} {uId : Option String}
    {now : Time.DateTime} {o : List Effect} (h : s.post model uId now = (s', o)) :
    Moved s s' o := by
  have hquiet : Moved s s [] := ⟨[], [], .quiet rfl rfl rfl rfl, .refl _⟩
  cases model with
  | none =>
    obtain ⟨rfl, rfl⟩ := Prod.mk.inj h
    exact hquiet
  | some m =>
    simp only [post] at h
    split at h
    · obtain ⟨rfl, rfl⟩ := Prod.mk.inj h
      exact hquiet
    · unfold checkPost at h
      cases hfile : s.filePostImage with
      | none =>
        rw [hfile] at h
        obtain ⟨rfl, rfl⟩ := Prod.mk.inj h
        exact ⟨[], [_], .text rfl rfl rfl rfl rfl, by rw [List.append_nil]; exact .refl _⟩
      | some file =>
        rw [hfile] at h
        obtain ⟨rfl, rfl⟩ := Prod.mk.inj h
        exact ⟨[], [_], .image rfl rfl rfl rfl rfl, by rw [List.append_nil]; exact .refl _⟩

theorem step_moved {s s' : NewPost} {e : Event} {o : List Effect}
    (h : s.step e = some (s', o)) : Moved s s' o := by
  have hquiet : ∀ {t : NewPost} {p : List Effect}, some (t, p) = some (s', o) →
      t.inFlight = s.inFlight → t.taps = s.taps → issued p = [] → failures p = 0 →
      settledWrites p = [] → Moved s s' o := by
    intro t p heq hinFlight htaps hissued hfailures hsettled
    obtain ⟨rfl, rfl⟩ := Prod.mk.inj (Option.some.inj heq)
    exact ⟨[], [], .quiet htaps hissued hfailures hsettled, by rw [hinFlight]⟩
  have hgone : ∀ {k : Nat} {p : Pending}, s.inFlight[k]? = some p →
      (s.inFlight.eraseIdx k ++ [p]).Perm (s.inFlight ++ []) := by
    intro k p hk
    have hperm := perm_landed hk []
    rwa [List.append_nil] at hperm
  cases e with
  | pickPostImage path =>
    cases path with
    | none => exact hquiet h rfl rfl rfl rfl rfl
    | some path => exact hquiet h rfl rfl rfl rfl rfl
  | cancelPickPostImage => exact hquiet h rfl rfl rfl rfl rfl
  | edit text => exact hquiet h rfl rfl rfl rfl rfl
  | post model uId now => exact post_moved (Option.some.inj h)
  | uploaded k =>
    simp only [step] at h
    split at h
    · rename_i file captured hk
      obtain ⟨rfl, rfl⟩ := Prod.mk.inj (Option.some.inj h)
      exact ⟨[.putFile file captured], [.getDownloadURL file captured],
        .uploaded rfl rfl rfl rfl, perm_landed hk _⟩
    · exact absurd h (by simp)
  | url k url uId now =>
    simp only [step] at h
    split at h
    · rename_i file captured hk
      obtain ⟨rfl, rfl⟩ := Prod.mk.inj (Option.some.inj h)
      exact ⟨[.getDownloadURL file captured], [_], .url rfl rfl rfl rfl rfl, perm_landed hk _⟩
    · exact absurd h (by simp)
  | failed k =>
    simp only [step] at h
    split at h
    · rename_i file captured hk
      obtain ⟨rfl, rfl⟩ := Prod.mk.inj (Option.some.inj h)
      exact ⟨[.putFile file captured], [], .failed rfl rfl rfl rfl rfl rfl, hgone hk⟩
    · rename_i file captured hk
      obtain ⟨rfl, rfl⟩ := Prod.mk.inj (Option.some.inj h)
      exact ⟨[.getDownloadURL file captured], [], .failed rfl rfl rfl rfl rfl rfl, hgone hk⟩
    · exact absurd h (by simp)
  | applied k =>
    simp only [step] at h
    split at h
    · rename_i w hk
      obtain ⟨rfl, rfl⟩ := Prod.mk.inj (Option.some.inj h)
      exact ⟨[.write w false], [.write w true], .applied rfl rfl rfl rfl, perm_set hk _⟩
    · exact absurd h (by simp)
  | settled k ok mounted =>
    simp only [step] at h
    split at h
    · rename_i w applied hk
      split at h
      · obtain ⟨rfl, rfl⟩ := Prod.mk.inj (Option.some.inj h)
        obtain ⟨hissued, hfailures, hsettled⟩ := writeThen_quiet ok mounted (s.landed k)
        obtain ⟨hinFlight, htaps, -, -⟩ := writeThen_did ok mounted (s.landed k)
        refine ⟨[.write w applied], [], .settled htaps hissued ?_ ?_, ?_⟩
        · show List.countP isFailure (.settled w ok :: _) = 0
          rw [List.countP_cons_of_neg (by simp [isFailure])]
          exact hfailures
        · show settledWrites ([.settled w ok] ++ _) = [w]
          rw [settledWrites_append, hsettled]
          rfl
        · rw [hinFlight]
          exact hgone hk
      · exact absurd h (by simp)
    · exact absurd h (by simp)

/-! ## Runs -/

/-- Each tap so far is in one place: it has led to a write, its upload has failed, or its
image is being uploaded.  Each write is in one place: it has settled, or it has not. -/
structure Account (s : NewPost) (o : List Effect) : Prop where
  taps : ∃ failed : Multiset Nat, failed.card = failures o ∧
    (List.range s.taps : Multiset Nat) = (issued o).map Write.tap + failed + uploads s
  writes : (issued o : Multiset Write) = settledWrites o + writes s

theorem range_succ_coe (n : Nat) :
    (List.range (n + 1) : Multiset Nat) = (List.range n : Multiset Nat) + {n} := by
  rw [List.range_succ, ← Multiset.coe_add]
  rfl

/-- What goes in and what was there come out, or are still there. -/
theorem balance_trans {α : Type} {total before out gone come new leave after : Multiset α}
    (hs : total = out + before) (hinFlight : after + gone = before + come)
    (hstep : new + gone = leave + come) : total + new = (out + leave) + after := by
  have hcancel : (before + new) + gone = (leave + after) + gone := by
    calc (before + new) + gone = before + (new + gone) := add_assoc _ _ _
      _ = before + (leave + come) := by rw [hstep]
      _ = leave + (before + come) := by abel
      _ = leave + (after + gone) := by rw [hinFlight]
      _ = (leave + after) + gone := (add_assoc _ _ _).symm
  rw [hs, add_assoc, add_right_cancel hcancel, add_assoc]

/-- A step puts in what it takes out. -/
theorem Moves.balance {s s' : NewPost} {o : List Effect} {gone come : List Pending}
    (h : Moves s s' o gone come) :
    (∃ new failed : Multiset Nat,
      (List.range s'.taps : Multiset Nat) = (List.range s.taps : Multiset Nat) + new ∧
        failed.card = failures o ∧
        new + gone.filterMap uploadOf =
          ((issued o).map Write.tap + failed) + come.filterMap uploadOf) ∧
      (issued o : Multiset Write) + gone.filterMap writeOf =
        settledWrites o + come.filterMap writeOf := by
  cases h with
  | quiet taps issued failures settled =>
    rw [issued, settled, taps, failures]
    exact ⟨⟨0, 0, (add_zero _).symm, rfl, rfl⟩, rfl⟩
  | text tap taps issued failures settled =>
    rw [issued, settled, taps, failures]
    refine ⟨⟨{s.taps}, 0, range_succ_coe _, rfl, ?_⟩, rfl⟩
    rw [← tap]
    rfl
  | image tap taps issued failures settled =>
    rw [issued, settled, taps, failures]
    refine ⟨⟨{s.taps}, 0, range_succ_coe _, rfl, ?_⟩, rfl⟩
    rw [← tap]
    rfl
  | uploaded taps issued failures settled =>
    rw [issued, settled, taps, failures]
    exact ⟨⟨0, 0, (add_zero _).symm, rfl, rfl⟩, rfl⟩
  | url tap taps issued failures settled =>
    rw [issued, settled, taps, failures]
    refine ⟨⟨0, 0, (add_zero _).symm, rfl, ?_⟩, rfl⟩
    rw [List.map_singleton, tap]
    rfl
  | @failed p n upload write taps issued failures settled =>
    rw [issued, settled, taps, failures]
    refine ⟨⟨0, {n}, (add_zero _).symm, rfl, ?_⟩, ?_⟩
    · rw [List.filterMap_cons_some upload]
      rfl
    · rw [List.filterMap_cons_none write]
  | applied taps issued failures settled =>
    rw [issued, settled, taps, failures]
    exact ⟨⟨0, 0, (add_zero _).symm, rfl, rfl⟩, rfl⟩
  | settled taps issued failures settled =>
    rw [issued, settled, taps, failures]
    exact ⟨⟨0, 0, (add_zero _).symm, rfl, rfl⟩, rfl⟩

theorem step_account {s s' : NewPost} {o o' : List Effect} (hs : Account s o)
    (h : Moved s s' o') : Account s' (o ++ o') := by
  obtain ⟨gone, come, hmoves, hperm⟩ := h
  obtain ⟨⟨failed, hcard, htaps⟩, hwrites⟩ := hs
  obtain ⟨⟨new, failed', hrange, hcard', hnew⟩, hissued⟩ := hmoves.balance
  have hup : (uploads s' : Multiset Nat) + gone.filterMap uploadOf =
      uploads s + come.filterMap uploadOf := by
    have hmap := Multiset.coe_eq_coe.mpr (hperm.filterMap uploadOf)
    rwa [List.filterMap_append, List.filterMap_append] at hmap
  have hwr : (writes s' : Multiset Write) + gone.filterMap writeOf =
      writes s + come.filterMap writeOf := by
    have hmap := Multiset.coe_eq_coe.mpr (hperm.filterMap writeOf)
    rwa [List.filterMap_append, List.filterMap_append] at hmap
  refine { taps := ⟨failed + failed', ?_, ?_⟩, writes := ?_ }
  · rw [Multiset.card_add, hcard, hcard', failures_append]
  · rw [hrange, issued_append, List.map_append, ← Multiset.coe_add]
    exact (balance_trans htaps hup hnew).trans (congrArg (· + _) (add_add_add_comm _ _ _ _))
  · rw [issued_append, settledWrites_append, ← Multiset.coe_add, ← Multiset.coe_add]
    exact balance_trans hwrites hwr hissued

/-- In every run of a NewPostCubit, with any number of taps, uploads and writes on their
way at once: each tap on POST has led to exactly one write, or its upload has failed, or
its image is still being uploaded, and each write has settled exactly once or is still on
its way.  No tap and no write is lost or doubled. -/
theorem taps_end_once {es : List Event} {s : NewPost} {o : List Effect}
    (hrun : machine.run init es = some (s, o)) :
    (∃ failed : Multiset Nat, failed.card = failures o ∧
      (List.range s.taps : Multiset Nat) = (issued o).map Write.tap + failed + uploads s) ∧
      (issued o : Multiset Write) = settledWrites o + writes s := by
  have hs : Account s o :=
    Reactive.Machine.run_preserves (I := Account)
      (fun _ _ _ _ _ hs h => step_account hs (step_moved h))
      { taps := ⟨0, rfl, rfl⟩, writes := rfl } hrun
  exact ⟨hs.taps, hs.writes⟩

def poster : LoginModel :=
  { name := some "ann", phone := none, email := none, uid := some "ann"
    image := none, cover := none, bio := none, isEmailVarified := none }

/-- A post with an image whose upload fails, and one without an image. -/
def failedAndPosted : List Event :=
  [.pickPostImage (some "cat.jpg"), .edit "look",
    .post (some poster) (some "ann") .zero,
    .cancelPickPostImage, .failed 0, .edit "hello",
    .post (some poster) (some "ann") .zero,
    .applied 0, .settled 0 true true]

theorem taps_end_once_failedAndPosted :
    ∃ s o, machine.run init failedAndPosted = some (s, o) ∧ s.taps = 2 ∧ failures o = 1 ∧
      (issued o).map Write.tap = [1] ∧
      (issued o : Multiset Write) = settledWrites o + writes s :=
  ⟨_, _, rfl, rfl, rfl, rfl, (@taps_end_once failedAndPosted _ _ rfl).2⟩

end NewPost
end SocialApp
