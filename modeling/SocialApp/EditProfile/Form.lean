import SocialApp.EditProfile.Step
import SocialApp.Reactive.History

/-! # The texts of the form

A build assigns the model's values to the controllers, whatever has been typed since
the last one, and the states of both cubits make the screen build again. -/

namespace SocialApp
namespace EditProfile

/-- The text last typed in each field, and the text that a build has assigned to it
since then. -/
structure Typing where
  typed : Field → Option String
  assigned : Field → Option String

/-- The screen has been built once. -/
def Typing.start (model : LoginModel) : Typing :=
  { typed := fun _ => none, assigned := model.field }

def Typing.note (h : Typing) (s : EditProfile) (e : Event) (s' : EditProfile)
    (_ : List Effect) : Typing :=
  match e with
  | .type f text =>
    { typed := Function.update h.typed f (some text)
      assigned := Function.update h.assigned f none }
  | .frame =>
    if s.dirtyScreen || s.dirtyForm then
      { h with assigned := fun f => (s'.shown.field f).or (h.assigned f) }
    else h
  | _ => h

def watched : Reactive.Machine (EditProfile × Typing) Event Effect :=
  machine.withHistory Typing.note

/-- UPDATE writes to `users/uId` the text last typed in each field, or the model's value
for a field never edited. -/
structure WritesTyped (p : EditProfile × Typing) (e : Event) (o : List Effect) : Prop where
  written : e = .updateUserData → ∃ user, .update p.1.uId .data user ∈ o
  typed : ∀ uid user, .update uid .data user ∈ o →
    uid = p.1.uId ∧ ∀ f, user.field f = (p.2.typed f).or (p.1.model.field f)

/-- When UPDATE is tapped, the text that a build has last assigned to a field since it was
edited, if any, is the one typed, and what the builds have left in a field never edited is
the model's value. -/
def Untouched (p : EditProfile × Typing) (e : Event) : Prop :=
  e = .updateUserData → ∀ f,
    match p.2.typed f with
    | some text => p.2.assigned f = none ∨ p.2.assigned f = some text
    | none => p.1.model.field f = some ((p.2.assigned f).getD "")

/-! ## One step -/

/-- The effects have no write of the form. -/
def NoWrite (o : List Effect) : Prop := ∀ uid user, .update uid .data user ∉ o

/-- What a step does to the controllers. -/
inductive FormStep (s s' : EditProfile) (o : List Effect) : Event → Prop
  | typed {f : Field} {text : String}
      (controllers : s'.controllers = Function.update s.controllers f text) (silent : NoWrite o) :
      FormStep s s' o (.type f text)
  | built (marked : (s.dirtyScreen || s.dirtyForm) = true)
      (controllers : s'.controllers = fun f => assign (s.controllers f) (s'.shown.field f))
      (silent : NoWrite o) : FormStep s s' o .frame
  | idle (marked : (s.dirtyScreen || s.dirtyForm) = false)
      (controllers : s'.controllers = s.controllers) (silent : NoWrite o) : FormStep s s' o .frame
  | update (controllers : s'.controllers = s.controllers)
      (effects : o = [.emit .uploadingProfileData, .update s.uId .data
        (Uploads.updatedUser .data (s.controllers .name) (s.controllers .phone)
          (s.controllers .bio) s.model)]) : FormStep s s' o .updateUserData
  | other {e : Event} (controllers : s'.controllers = s.controllers) (silent : NoWrite o)
      (type : ∀ f text, e ≠ .type f text) (frame : e ≠ .frame) (update : e ≠ .updateUserData) :
      FormStep s s' o e

theorem frame_form (s : EditProfile) : FormStep s s.frame [] .frame := by
  have hnone : NoWrite [] := fun _ _ => List.not_mem_nil
  unfold frame
  cases hscreen : s.dirtyScreen with
  | true => exact .built (by simp [hscreen]) rfl hnone
  | false =>
    cases hform : s.dirtyForm with
    | true => exact .built (by simp [hform]) rfl hnone
    | false => exact .idle (by simp [hscreen, hform]) rfl hnone

theorem pickedThen_form (s : EditProfile) (slot : Slot) (n : Nat) (returned : Bool) :
    (s.pickedThen slot n returned).1.controllers = s.controllers ∧
      NoWrite (s.pickedThen slot n returned).2 := by
  unfold pickedThen
  cases s.file slot with
  | none => exact ⟨rfl, by simp [NoWrite]⟩
  | some image =>
    dsimp only
    split
    · cases slot with
      | cover => exact ⟨rfl, by simp [NoWrite, uploadCoverImage, uploadImage, emit]⟩
      | profile => exact ⟨rfl, by simp [NoWrite, uploadProfileImage, uploadImage, emit]⟩
    · exact ⟨rfl, by simp [NoWrite]⟩

theorem urlThen_form (slot : Slot) (texts : Field → String) (url : String) (s : EditProfile) :
    NoWrite (s.urlThen slot texts url).2 := by
  cases slot with
  | cover => simp [NoWrite, urlThen, updateUser, Slot.update]
  | profile => simp [NoWrite, urlThen, updateUser, Slot.update]

theorem updateThen_form (update : Uploads.Update) (ok : Bool) (s : EditProfile) :
    NoWrite (s.updateThen update ok).2 := by
  unfold updateThen
  cases ok with
  | true => simp [NoWrite]
  | false =>
    intro uid user
    simp only [Bool.false_eq_true, if_false]
    split <;> simp

theorem step_form {s s' : EditProfile} {e : Event} {o : List Effect}
    (h : s.step e = some (s', o)) : FormStep s s' o e := by
  have hnone : NoWrite [] := fun _ _ => List.not_mem_nil
  cases step_did h with
  | type _ => exact .typed rfl hnone
  | updateUserData _ => exact .update rfl rfl
  | frame _ => exact frame_form s
  | pickImage _ => exact .other rfl (by simp [NoWrite, pickImage]) nofun nofun nofun
  | @picker k n slot file request =>
    cases file with
    | none => exact .other rfl hnone nofun nofun nofun
    | some file => exact .other rfl hnone nofun nofun nofun
  | pickerFailed _ => exact .other rfl (by simp [NoWrite]) nofun nofun nofun
  | @picked k n slot returned request =>
    obtain ⟨hcontrollers, hsilent⟩ := pickedThen_form (s.landed k) slot n returned
    exact .other hcontrollers hsilent nofun nofun nofun
  | url _ => exact .other rfl (urlThen_form _ _ _ _) nofun nofun nofun
  | updated _ =>
    exact .other (updateThen_controllers _ _ _) (updateThen_form _ _ _) nofun nofun nofun
  | put | putFailed | urlFailed | userData | homeState | leave | user =>
    exact .other rfl hnone nofun nofun nofun

/-! ## Runs -/

/-- A field has the text last assigned to it since it was edited, or the one typed. -/
def Held (p : EditProfile × Typing) : Prop :=
  ∀ f, p.1.controllers f = (p.2.assigned f).getD ((p.2.typed f).getD "")

theorem init_held (uId : Option String) (model : LoginModel) :
    Held (init uId model, Typing.start model) := fun _ => rfl

theorem step_held {p p' : EditProfile × Typing} {e : Event} {o : List Effect} (hp : Held p)
    (h : watched.step p e = some (p', o)) : Held p' := by
  obtain ⟨hstep, hnote⟩ := Reactive.Machine.step_withHistory.mp h
  intro f
  rw [hnote]
  cases step_form hstep with
  | @typed f' text controllers _ =>
    rw [controllers]
    by_cases hf : f = f'
    · rw [hf]
      simp only [Typing.note, Function.update_self, Option.getD_none, Option.getD_some]
    · simp only [Typing.note, Function.update_of_ne hf]
      exact hp f
  | built marked controllers _ =>
    rw [controllers]
    simp only [Typing.note, marked, if_true]
    -- a null value leaves what the field had
    cases hvalue : p'.1.shown.field f with
    | none => exact hp f
    | some value => rfl
  | idle marked controllers _ =>
    rw [controllers, Typing.note, marked]
    exact hp f
  | update controllers _ =>
    rw [controllers]
    exact hp f
  | other controllers _ type frame _ =>
    rw [controllers]
    cases e with
    | type f' text => exact absurd rfl (type f' text)
    | frame => exact absurd rfl frame
    | _ => exact hp f

/-- What UPDATE writes is what was typed exactly when the builds have left it so. -/
theorem updatedUser_field_iff {p : EditProfile × Typing} (hp : Held p) (f : Field) :
    (Uploads.updatedUser .data (p.1.controllers .name) (p.1.controllers .phone)
        (p.1.controllers .bio) p.1.model).field f = (p.2.typed f).or (p.1.model.field f) ↔
      match p.2.typed f with
      | some text => p.2.assigned f = none ∨ p.2.assigned f = some text
      | none => p.1.model.field f = some ((p.2.assigned f).getD "") := by
  have hfield : (Uploads.updatedUser .data (p.1.controllers .name) (p.1.controllers .phone)
      (p.1.controllers .bio) p.1.model).field f = some (p.1.controllers f) := by
    cases f with
    | name => rfl
    | phone => rfl
    | bio => rfl
  rw [hfield, hp f]
  cases p.2.typed f with
  | none => exact eq_comm
  | some text =>
    cases p.2.assigned f with
    | none => simp
    | some value => simp

theorem step_writes_iff {p p' : EditProfile × Typing} {e : Event} {o : List Effect}
    (hp : Held p) (h : watched.step p e = some (p', o)) :
    WritesTyped p e o ↔ Untouched p e := by
  obtain ⟨hstep, -⟩ := Reactive.Machine.step_withHistory.mp h
  have hsilent : NoWrite o → e ≠ .updateUserData → (WritesTyped p e o ↔ Untouched p e) :=
    fun ho he => iff_of_true
      { written := fun hupdate => absurd hupdate he
        typed := fun uid user hmem => absurd hmem (ho uid user) }
      (fun hupdate => absurd hupdate he)
  cases step_form hstep with
  | typed _ silent => exact hsilent silent (by simp)
  | built _ _ silent => exact hsilent silent (by simp)
  | idle _ _ silent => exact hsilent silent (by simp)
  | other _ silent _ _ update => exact hsilent silent update
  | update _ effects =>
    rw [effects]
    constructor
    · intro hw _ f
      have hfields := (hw.typed _ _ (List.mem_cons_of_mem _ List.mem_cons_self)).2
      exact (updatedUser_field_iff hp f).mp (hfields f)
    · intro hcond
      refine { written := fun _ => ⟨_, List.mem_cons_of_mem _ List.mem_cons_self⟩
               typed := fun uid user hmem => ?_ }
      obtain hmem | hmem := List.mem_cons.mp hmem
      · exact absurd hmem (by simp)
      · obtain ⟨rfl, -, rfl⟩ := Effect.update.inj (List.mem_singleton.mp hmem)
        exact ⟨rfl, fun f => (updatedUser_field_iff hp f).mpr (hcond rfl f)⟩

/-- Along any run UPDATE writes what was typed exactly when, each time it is tapped, the
builds have left the edited fields as typed and the other fields show the model. -/
theorem updates_as_typed_iff {uId : Option String} {model : LoginModel} {es : List Event} :
    watched.Every (fun p e _ o => WritesTyped p e o) (init uId model, Typing.start model) es ↔
      watched.Every (fun p e _ _ => Untouched p e) (init uId model, Typing.start model) es :=
  Reactive.Machine.every_iff (I := Held)
    (fun _ _ _ _ hp h => ⟨step_writes_iff hp h, fun _ => step_held hp h⟩) (init_held uId model)

/-- A name is typed, the feed is loaded again, and the build puts the old name back. -/
theorem update_loses_name :
    ¬ watched.Every (fun p e _ o => WritesTyped p e o)
      (init (some "ann") ann, Typing.start ann)
      [.type .name "Anna", .homeState, .frame, .updateUserData] := by
  intro h
  have hw := ((((h _ _ rfl).2 _ _ rfl).2 _ _ rfl).2 _ _ rfl).1
  have hname : (some "ann" : Option String) = some "Anna" :=
    (hw.typed _ _ (List.mem_cons_of_mem _ List.mem_cons_self)).2 .name
  exact absurd hname (by decide)

end EditProfile
end SocialApp
