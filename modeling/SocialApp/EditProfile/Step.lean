import SocialApp.EditProfile.Screen

/-! # Steps of EditProfileScreen -/

namespace SocialApp
namespace EditProfile

/-- What a step can do: the callback or the gesture that was there to run, and what
that leaves. -/
inductive Did (s : EditProfile) : Event → EditProfile → List Effect → Prop
  | type {f : Field} {text : String} (mounted : s.mounted = true) :
      Did s (.type f text) (s.type f text) []
  | updateUserData (mounted : s.mounted = true) :
      Did s .updateUserData s.updateUserData.1 s.updateUserData.2
  | pickImage {slot : Slot} (mounted : s.mounted = true) :
      Did s (.pickImage slot) (s.pickImage slot).1 (s.pickImage slot).2
  | picker {k n : Nat} {slot : Slot} {file : Option XFile}
      (request : s.inFlight[k]? = some (.picker slot n)) :
      Did s (.picker k file) ((s.landed k).pickerThen slot n file).1
        ((s.landed k).pickerThen slot n file).2
  | pickerFailed {k n : Nat} {slot : Slot} (request : s.inFlight[k]? = some (.picker slot n)) :
      Did s (.pickerFailed k) (s.landed k) [.toast "Something Went Wrong" 2]
  | picked {k n : Nat} {slot : Slot} {returned : Bool}
      (request : s.inFlight[k]? = some (.picked slot n returned)) :
      Did s (.picked k) ((s.landed k).pickedThen slot n returned).1
        ((s.landed k).pickedThen slot n returned).2
  | put {k : Nat} {slot : Slot} {texts : Field → String}
      (request : s.inFlight[k]? = some (.putFile slot texts)) :
      Did s (.putFile k true) ((s.landed k).putFileThen slot texts).1 []
  | putFailed {k : Nat} {slot : Slot} {texts : Field → String}
      (request : s.inFlight[k]? = some (.putFile slot texts)) :
      Did s (.putFile k false) (s.landed k) []
  | url {k : Nat} {slot : Slot} {texts : Field → String} {url : String}
      (request : s.inFlight[k]? = some (.downloadURL slot texts)) :
      Did s (.url k (some url)) ((s.landed k).urlThen slot texts url).1
        ((s.landed k).urlThen slot texts url).2
  | urlFailed {k : Nat} {slot : Slot} {texts : Field → String}
      (request : s.inFlight[k]? = some (.downloadURL slot texts)) :
      Did s (.url k none) (s.landed k) []
  | updated {k : Nat} {update : Uploads.Update} {ok : Bool}
      (request : s.inFlight[k]? = some (.update update)) :
      Did s (.updated k ok) ((s.landed k).updateThen update ok).1
        ((s.landed k).updateThen update ok).2
  | userData {model : LoginModel} :
      Did s (.userData model) { s with model, dirtyScreen := true } []
  | homeState : Did s .homeState { s with dirtyScreen := true } []
  | frame (mounted : s.mounted = true) : Did s .frame s.frame []
  | leave (mounted : s.mounted = true) : Did s .leave { s with mounted := false } []
  | user {uId : Option String} : Did s (.user uId) { s with uId } []

theorem step_did {s s' : EditProfile} {e : Event} {o : List Effect}
    (h : s.step e = some (s', o)) : Did s e s' o := by
  cases e with
  | type f text =>
    simp only [step] at h
    split at h
    · rename_i hmounted
      obtain ⟨rfl, rfl⟩ := Prod.mk.inj (Option.some.inj h)
      exact .type hmounted
    · exact absurd h (by simp)
  | updateUserData =>
    simp only [step] at h
    split at h
    · rename_i hmounted
      obtain ⟨rfl, rfl⟩ := Prod.mk.inj (Option.some.inj h)
      exact .updateUserData hmounted
    · exact absurd h (by simp)
  | pickImage slot =>
    simp only [step] at h
    split at h
    · rename_i hmounted
      obtain ⟨rfl, rfl⟩ := Prod.mk.inj (Option.some.inj h)
      cases slot with
      | cover => exact .pickImage hmounted
      | profile => exact .pickImage hmounted
    · exact absurd h (by simp)
  | picker k file =>
    simp only [step] at h
    split at h
    · rename_i slot n hk
      obtain ⟨rfl, rfl⟩ := Prod.mk.inj (Option.some.inj h)
      exact .picker hk
    · exact absurd h (by simp)
  | pickerFailed k =>
    simp only [step] at h
    split at h
    · rename_i slot n hk
      obtain ⟨rfl, rfl⟩ := Prod.mk.inj (Option.some.inj h)
      exact .pickerFailed hk
    · exact absurd h (by simp)
  | picked k =>
    simp only [step] at h
    split at h
    · rename_i slot n returned hk
      obtain ⟨rfl, rfl⟩ := Prod.mk.inj (Option.some.inj h)
      exact .picked hk
    · exact absurd h (by simp)
  | putFile k ok =>
    simp only [step] at h
    split at h
    · rename_i slot texts hk
      obtain ⟨rfl, rfl⟩ := Prod.mk.inj (Option.some.inj h)
      cases ok with
      | true => exact .put hk
      | false => exact .putFailed hk
    · exact absurd h (by simp)
  | url k url =>
    simp only [step] at h
    split at h
    · rename_i slot texts hk
      obtain ⟨rfl, rfl⟩ := Prod.mk.inj (Option.some.inj h)
      cases url with
      | some url => exact .url hk
      | none => exact .urlFailed hk
    · exact absurd h (by simp)
  | updated k ok =>
    simp only [step] at h
    split at h
    · rename_i update hk
      obtain ⟨rfl, rfl⟩ := Prod.mk.inj (Option.some.inj h)
      exact .updated hk
    · exact absurd h (by simp)
  | userData model =>
    obtain ⟨rfl, rfl⟩ := Prod.mk.inj (Option.some.inj h)
    exact .userData
  | homeState =>
    obtain ⟨rfl, rfl⟩ := Prod.mk.inj (Option.some.inj h)
    exact .homeState
  | frame =>
    simp only [step] at h
    split at h
    · rename_i hmounted
      obtain ⟨rfl, rfl⟩ := Prod.mk.inj (Option.some.inj h)
      exact .frame hmounted
    · exact absurd h (by simp)
  | leave =>
    simp only [step] at h
    split at h
    · rename_i hmounted
      obtain ⟨rfl, rfl⟩ := Prod.mk.inj (Option.some.inj h)
      exact .leave hmounted
    · exact absurd h (by simp)
  | user uId =>
    obtain ⟨rfl, rfl⟩ := Prod.mk.inj (Option.some.inj h)
    exact .user

theorem updateThen_file (update : Uploads.Update) (ok : Bool) (s : EditProfile) :
    (s.updateThen update ok).1.file = s.file := by
  unfold updateThen
  split <;> rfl

theorem updateThen_controllers (update : Uploads.Update) (ok : Bool) (s : EditProfile) :
    (s.updateThen update ok).1.controllers = s.controllers := by
  unfold updateThen
  split <;> rfl

theorem frame_file (s : EditProfile) : s.frame.file = s.file := by
  unfold frame
  split
  · rfl
  · split <;> rfl

end EditProfile
end SocialApp
