import SocialApp.EditProfile.Step
import SocialApp.Reactive.History
import Mathlib.Data.List.Nodup

/-! # The uploads of the two pickers

Whether a pick uploads is decided by the file that its slot has when its `then` runs.
That is the last image picked in the slot, until an upload of the slot succeeds. -/

namespace SocialApp

open Uploads (EditProfileStates)

namespace EditProfile

/-- The image that an effect uploads, by the number of its pick. -/
def uploadOf : Effect → Option Nat
  | .putFile _ _ _ image => some image.pick
  | _ => none

def uploads (o : List Effect) : List Nat := o.filterMap uploadOf

/-- Every image is uploaded once at most, and no upload is started by a pick that was
cancelled. -/
structure UploadsOnce (o : List Effect) : Prop where
  once : (uploads o).Nodup
  returned : ∀ n returned child image, .putFile n returned child image ∈ o → returned = true

/-- The last image picked in each slot, until an upload of the slot succeeds, and the
images that the `then` of a pick has found waiting, with the screen still there. -/
structure Past where
  waiting : Slot → Option Nat
  found : List Nat

def Past.start : Past := { waiting := fun _ => none, found := [] }

def Past.note (h : Past) (s : EditProfile) (e : Event) (_ : EditProfile) (_ : List Effect) :
    Past :=
  match e with
  | .picker k (some _) =>
    match s.inFlight[k]? with
    | some (.picker slot n) => { h with waiting := Function.update h.waiting slot (some n) }
    | _ => h
  | .picked k =>
    match s.inFlight[k]? with
    | some (.picked slot _ _) =>
      if s.mounted then { h with found := h.found ++ (h.waiting slot).toList } else h
    | _ => h
  | .putFile k true =>
    match s.inFlight[k]? with
    | some (.putFile slot _) => { h with waiting := Function.update h.waiting slot none }
    | _ => h
  | _ => h

def recorded : Reactive.Machine (EditProfile × Past) Event Effect :=
  machine.withHistory Past.note

/-- When the `then` of a pick runs with the screen still there, no `then` has found the
image that waits in its slot before, and none waits there if the pick was cancelled. -/
def Cleared (p : EditProfile × Past) (e : Event) : Prop :=
  ∀ k slot n returned m, e = .picked k →
    p.1.inFlight[k]? = some (.picked slot n returned) → p.1.mounted = true →
    p.2.waiting slot = some m → returned = true ∧ m ∉ p.2.found

/-! ## One step -/

/-- What a step does to the files of the slots. -/
inductive FileStep (s s' : EditProfile) (o : List Effect) : Event → Prop
  | uploads {k : Nat} {slot : Slot} {n : Nat} {returned : Bool} {image : Image}
      {state : EditProfileStates} {child : String}
      (request : s.inFlight[k]? = some (.picked slot n returned))
      (file : s.file slot = some image) (mounted : s.mounted = true) (files : s'.file = s.file)
      (effects : o = [.emit state, .putFile n returned child image]) : FileStep s s' o (.picked k)
  | returned {k : Nat} {slot : Slot} {n : Nat} {file : XFile}
      (request : s.inFlight[k]? = some (.picker slot n))
      (files : s'.file = Function.update s.file slot (some ⟨n, file⟩)) (silent : uploads o = []) :
      FileStep s s' o (.picker k (some file))
  | put {k : Nat} {slot : Slot} {texts : Field → String}
      (request : s.inFlight[k]? = some (.putFile slot texts))
      (files : s'.file = Function.update s.file slot none) (silent : uploads o = []) :
      FileStep s s' o (.putFile k true)
  | other {e : Event} (files : s'.file = s.file) (silent : uploads o = [])
      (picker : ∀ k file, e ≠ .picker k (some file)) (put : ∀ k, e ≠ .putFile k true)
      (picked : ∀ k slot n returned, e = .picked k →
        s.inFlight[k]? = some (.picked slot n returned) → s.mounted = true → s.file slot = none) :
      FileStep s s' o e

theorem pickedThen_files {s : EditProfile} {k n : Nat} {slot : Slot} {returned : Bool}
    (hk : s.inFlight[k]? = some (.picked slot n returned)) :
    FileStep s ((s.landed k).pickedThen slot n returned).1
      ((s.landed k).pickedThen slot n returned).2 (.picked k) := by
  have hother : ∀ {r : EditProfile × List Effect}, r.1.file = s.file → uploads r.2 = [] →
      (s.mounted = true → s.file slot = none) → FileStep s r.1 r.2 (.picked k) := by
    intro r hfiles hsilent hnone
    refine .other hfiles hsilent (fun _ _ => by simp) (fun _ => by simp) ?_
    intro j slot' n' returned' hj hk' hmounted
    rw [← Event.picked.inj hj, hk, Option.some.injEq, Pending.picked.injEq] at hk'
    rw [← hk'.1]
    exact hnone hmounted
  unfold pickedThen
  cases hfile : s.file slot with
  | none =>
    have hfile' : (s.landed k).file slot = none := hfile
    rw [hfile']
    exact hother rfl rfl (fun _ => hfile)
  | some image =>
    have hfile' : (s.landed k).file slot = some image := hfile
    rw [hfile']
    by_cases hmounted : s.mounted = true
    · have hmounted' : (s.landed k).mounted = true := hmounted
      dsimp only
      rw [if_pos hmounted']
      cases slot with
      | cover => exact .uploads hk hfile hmounted rfl rfl
      | profile => exact .uploads hk hfile hmounted rfl rfl
    · have hmounted' : ¬ (s.landed k).mounted = true := hmounted
      dsimp only
      rw [if_neg hmounted']
      exact hother rfl rfl (fun h => absurd h hmounted)

theorem updateThen_uploads (update : Uploads.Update) (ok : Bool) (s : EditProfile) :
    uploads (s.updateThen update ok).2 = [] := by
  cases ok with
  | true => rfl
  | false =>
    show uploads (if update = .data then _ else _) = []
    split <;> rfl

theorem step_files {s s' : EditProfile} {e : Event} {o : List Effect}
    (h : s.step e = some (s', o)) : FileStep s s' o e := by
  cases step_did h with
  | @picker k n slot file request =>
    cases file with
    | some file => exact .returned request rfl rfl
    | none => exact .other rfl rfl nofun nofun nofun
  | picked request => exact pickedThen_files request
  | put request => exact .put request rfl rfl
  | updated _ =>
    exact .other (updateThen_file _ _ _) (updateThen_uploads _ _ _) nofun nofun nofun
  | frame _ => exact .other (frame_file s) rfl nofun nofun nofun
  | type | updateUserData | pickImage | pickerFailed | putFailed | url | urlFailed | userData
  | homeState | leave | user => exact .other rfl rfl nofun nofun nofun

/-! ## Runs -/

theorem uploads_append (o o' : List Effect) : uploads (o ++ o') = uploads o ++ uploads o' :=
  List.filterMap_append

/-- A step that uploads nothing keeps the uploads as they should be. -/
theorem uploadsOnce_append_silent {o o' : List Effect} (h : uploads o' = []) :
    UploadsOnce (o ++ o') ↔ UploadsOnce o := by
  have hnone : ∀ n returned child image, Effect.putFile n returned child image ∉ o' := by
    intro n returned child image hmem
    have huploaded : image.pick ∈ uploads o' := List.mem_filterMap.mpr ⟨_, hmem, rfl⟩
    rw [h] at huploaded
    exact absurd huploaded List.not_mem_nil
  constructor
  · intro hs
    refine { once := ?_, returned := fun n r c i hi => ?_ }
    · have honce := hs.once
      rwa [uploads_append, h, List.append_nil] at honce
    · exact hs.returned n r c i (List.mem_append_left _ hi)
  · intro hs
    refine { once := ?_, returned := fun n r c i hi => ?_ }
    · rw [uploads_append, h, List.append_nil]
      exact hs.once
    · rcases List.mem_append.mp hi with hi | hi
      · exact hs.returned n r c i hi
      · exact absurd hi (hnone n r c i)

/-- An upload keeps them so when its pick was not cancelled and its image is new. -/
theorem uploadsOnce_append_upload {o : List Effect} {state : EditProfileStates} {n : Nat}
    {returned : Bool} {child : String} {image : Image} :
    UploadsOnce (o ++ [.emit state, .putFile n returned child image]) ↔
      UploadsOnce o ∧ returned = true ∧ image.pick ∉ uploads o := by
  have happend : uploads (o ++ [.emit state, .putFile n returned child image]) =
      uploads o ++ [image.pick] := uploads_append o _
  constructor
  · intro hs
    have honce := hs.once
    rw [happend, List.nodup_append] at honce
    refine ⟨{ once := honce.1, returned := fun m r c i hi => ?_ }, ?_, fun hmem => ?_⟩
    · exact hs.returned m r c i (List.mem_append_left _ hi)
    · exact hs.returned n returned child image (List.mem_append_right _ (by simp))
    · exact honce.2.2 _ hmem _ List.mem_cons_self rfl
  · intro ⟨hs, hreturned, hnew⟩
    refine { once := ?_, returned := fun m r c i hi => ?_ }
    · rw [happend, List.nodup_append]
      refine ⟨hs.once, by simp, fun a ha b hb hab => ?_⟩
      rw [hab, List.mem_singleton.mp hb] at ha
      exact hnew ha
    · rcases List.mem_append.mp hi with hi | hi
      · exact hs.returned m r c i hi
      · simp only [List.mem_cons, reduceCtorEq, Effect.putFile.injEq, List.not_mem_nil, or_false,
          false_or] at hi
        rw [hi.2.1]
        exact hreturned

/-- The record is that of the run: the slots have the images that wait, and those found
are the ones uploaded. -/
structure Kept (p : EditProfile × Past) (o : List Effect) : Prop where
  waiting : ∀ slot, (p.1.file slot).map Image.pick = p.2.waiting slot
  found : p.2.found = uploads o

theorem Kept.waiting_of_file {p : EditProfile × Past} {o : List Effect} {slot : Slot}
    {image : Image} (hp : Kept p o) (file : p.1.file slot = some image) :
    p.2.waiting slot = some image.pick := by
  rw [← hp.waiting slot, file]
  rfl

theorem update_pick (file : Slot → Option Image) (waiting : Slot → Option Nat)
    (h : ∀ slot, (file slot).map Image.pick = waiting slot) (slot : Slot) (image : Option Image) :
    ∀ slot', (Function.update file slot image slot').map Image.pick =
      Function.update waiting slot (image.map Image.pick) slot' := by
  intro slot'
  by_cases heq : slot' = slot
  · rw [heq, Function.update_self, Function.update_self]
  · rw [Function.update_of_ne heq, Function.update_of_ne heq]
    exact h slot'

/-- What leaves the files alone and uploads nothing leaves the record alone. -/
theorem Kept.note_other {p : EditProfile × Past} {s' : EditProfile} {e : Event}
    {o o' : List Effect} (hp : Kept p o) (picker : ∀ k file, e ≠ .picker k (some file))
    (put : ∀ k, e ≠ .putFile k true)
    (picked : ∀ k slot n returned, e = .picked k →
      p.1.inFlight[k]? = some (.picked slot n returned) → p.1.mounted = true →
      p.1.file slot = none) : Past.note p.2 p.1 e s' o' = p.2 := by
  unfold Past.note
  cases e with
  | picker k file =>
    cases file with
    | none => rfl
    | some file => exact absurd rfl (picker k file)
  | picked k =>
    dsimp only
    split
    · rename_i slot n returned request
      split
      · rename_i mounted
        have hnone : p.2.waiting slot = none := by
          rw [← hp.waiting slot, picked k slot n returned rfl request mounted]
          rfl
        rw [hnone, Option.toList_none, List.append_nil]
      · rfl
    · rfl
  | putFile k ok =>
    cases ok with
    | true => exact absurd rfl (put k)
    | false => rfl
  | _ => rfl

theorem step_kept {p p' : EditProfile × Past} {e : Event} {o o' : List Effect} (hp : Kept p o)
    (h : recorded.step p e = some (p', o')) : Kept p' (o ++ o') := by
  obtain ⟨hstep, hnote⟩ := Reactive.Machine.step_withHistory.mp h
  cases step_files hstep with
  | @uploads k slot n returned image state child request file mounted files effects =>
    have hwaiting := hp.waiting_of_file file
    have hrecord : p'.2 = { p.2 with found := p.2.found ++ [image.pick] } := by
      rw [hnote, Past.note, request]
      dsimp only
      rw [if_pos mounted, hwaiting]
      rfl
    refine { waiting := fun slot' => ?_, found := ?_ }
    · rw [files, hrecord]
      exact hp.waiting slot'
    · rw [hrecord, uploads_append, effects, ← hp.found]
      rfl
  | @returned k slot n file request files silent =>
    have hrecord : p'.2 = { p.2 with waiting := Function.update p.2.waiting slot (some n) } := by
      rw [hnote, Past.note, request]
    refine { waiting := ?_, found := ?_ }
    · rw [files, hrecord]
      exact update_pick _ _ hp.waiting slot (some ⟨n, file⟩)
    · rw [hrecord, uploads_append, silent, List.append_nil]
      exact hp.found
  | @put k slot texts request files silent =>
    have hrecord : p'.2 = { p.2 with waiting := Function.update p.2.waiting slot none } := by
      rw [hnote, Past.note, request]
    refine { waiting := ?_, found := ?_ }
    · rw [files, hrecord]
      exact update_pick _ _ hp.waiting slot none
    · rw [hrecord, uploads_append, silent, List.append_nil]
      exact hp.found
  | other files silent picker put picked =>
    have hrecord : p'.2 = p.2 := hnote.trans (hp.note_other picker put picked)
    refine { waiting := fun slot => ?_, found := ?_ }
    · rw [files, hrecord]
      exact hp.waiting slot
    · rw [hrecord, uploads_append, silent, List.append_nil]
      exact hp.found

theorem step_once_iff {p p' : EditProfile × Past} {e : Event} {o o' : List Effect}
    (hp : Kept p o) (h : recorded.step p e = some (p', o')) :
    UploadsOnce (o ++ o') ↔ UploadsOnce o ∧ Cleared p e := by
  obtain ⟨hstep, -⟩ := Reactive.Machine.step_withHistory.mp h
  have hsilent : uploads o' = [] → Cleared p e →
      (UploadsOnce (o ++ o') ↔ UploadsOnce o ∧ Cleared p e) := by
    intro hnone hcond
    rw [uploadsOnce_append_silent hnone]
    exact (and_iff_left hcond).symm
  cases step_files hstep with
  | @uploads k slot n returned image state child request file mounted _ effects =>
    rw [effects, uploadsOnce_append_upload, ← hp.found]
    have hwaiting := hp.waiting_of_file file
    constructor
    · intro ⟨hs, hreturned, hnew⟩
      refine ⟨hs, fun j slot' n' returned' m hj hk _ hm => ?_⟩
      rw [← Event.picked.inj hj, request, Option.some.injEq, Pending.picked.injEq] at hk
      obtain ⟨rfl, rfl, rfl⟩ := hk
      rw [hwaiting, Option.some.injEq] at hm
      rw [← hm]
      exact ⟨hreturned, hnew⟩
    · intro ⟨hs, hcond⟩
      exact ⟨hs, hcond k slot n returned image.pick rfl request mounted hwaiting⟩
  | returned _ _ silent => exact hsilent silent (fun _ _ _ _ _ he => absurd he (by simp))
  | put _ _ silent => exact hsilent silent (fun _ _ _ _ _ he => absurd he (by simp))
  | other _ silent _ _ picked =>
    refine hsilent silent fun k slot n returned m he hk hmounted hm => ?_
    rw [← hp.waiting slot, picked k slot n returned he hk hmounted] at hm
    exact absurd hm (by simp)

/-- In a run every image is uploaded once at most, and none by a cancelled pick,
exactly when each `then` finds its slot cleared of what it must not upload. -/
theorem uploads_once_iff {uId : Option String} {model : LoginModel} {es : List Event}
    {s : EditProfile} {o : List Effect} (hrun : machine.run (init uId model) es = some (s, o)) :
    UploadsOnce o ↔
      recorded.Every (fun p e _ _ => Cleared p e) (init uId model, Past.start) es := by
  obtain ⟨h, hrun⟩ := (Reactive.Machine.run_withHistory_iff _ _).mpr hrun
  refine Reactive.Machine.end_iff (J := Kept) (I := fun _ o => UploadsOnce o)
    (H := fun _ _ _ _ => True) (a := []) ?_ ?_ ?_ ?_ ?_
    (Reactive.Machine.every_of_forall (G := fun _ => True) (fun _ _ _ _ _ => trivial)
      (fun _ _ => trivial) _) hrun
  · exact fun _ _ _ _ _ hp hstep _ => step_kept hp hstep
  · exact fun _ _ _ _ _ hp hstep _ h => ((step_once_iff hp hstep).mp h).1
  · exact fun _ _ _ _ _ hp h hstep _ => (step_once_iff hp hstep).trans (and_iff_right h)
  · exact { waiting := fun _ => rfl, found := rfl }
  · exact { once := List.nodup_nil, returned := fun _ _ _ _ h => absurd h List.not_mem_nil }

/-! ## A cancelled pick that uploads -/

def beach : XFile := { path := "/tmp/beach.jpg", name := "beach.jpg" }

/-- The upload of a cover fails, the next pick of a cover is cancelled, and the image
that failed is uploaded again. -/
theorem cancelled_pick_uploads :
    ∃ s o, machine.run (init (some "ann") ann)
        [.pickImage .cover, .picker 0 (some beach), .picked 0, .putFile 0 false,
          .pickImage .cover, .picker 0 none, .picked 0] = some (s, o) ∧ ¬ UploadsOnce o := by
  refine ⟨_, _, rfl, fun h => ?_⟩
  have honce : ([0, 0] : List Nat).Nodup := h.once
  exact absurd honce (by decide)

theorem uploads_once_beach :
    ∃ s o, machine.run (init (some "ann") ann)
        [.pickImage .cover, .picker 0 (some beach), .picked 0, .putFile 0 true,
          .pickImage .cover, .picker 1 none, .picked 1] = some (s, o) ∧ UploadsOnce o := by
  refine ⟨_, _, rfl, (@uploads_once_iff (some "ann") ann
    [.pickImage .cover, .picker 0 (some beach), .picked 0, .putFile 0 true, .pickImage .cover,
      .picker 1 none, .picked 1] _ _ rfl).mpr ?_⟩
  have hother : ∀ {p e}, (∀ k, e ≠ .picked k) → Cleared p e :=
    fun he k _ _ _ _ hk => absurd hk (he k)
  refine Reactive.Machine.every_cons rfl (hother (by simp))
    (Reactive.Machine.every_cons rfl (hother (by simp))
    (Reactive.Machine.every_cons rfl ?_
    (Reactive.Machine.every_cons rfl (hother (by simp))
    (Reactive.Machine.every_cons rfl (hother (by simp))
    (Reactive.Machine.every_cons rfl (hother (by simp))
    (Reactive.Machine.every_cons rfl ?_ trivial))))))
  · intro k slot n returned m hk request _ _
    obtain rfl := Event.picked.inj hk
    obtain ⟨rfl, rfl, rfl⟩ := Pending.picked.inj (Option.some.inj request)
    exact ⟨rfl, List.not_mem_nil⟩
  · intro k slot n returned m hk request _ hm
    obtain rfl := Event.picked.inj hk
    obtain ⟨rfl, rfl, rfl⟩ := Pending.picked.inj (Option.some.inj request)
    have hnone : (none : Option Nat) = some m := hm
    exact absurd hnone (by simp)

end EditProfile
end SocialApp
