import SocialApp.ChatScreen.Cubit

/-! # Steps of a ChatScreen -/

namespace SocialApp
namespace ChatScreen

/-- What a step can do: the callback that was there to run, and what that leaves. -/
inductive Did (s : ChatScreen) : Event → ChatScreen → List Effect → Prop
  | build {userModel : Option LoginModel} {receiverId : String} :
      Did s (.build userModel receiverId) (s.build userModel receiverId) []
  | sendButton {message receiverId now₁ now₂ : String} :
      Did s (.sendButton message receiverId now₁ now₂)
        (s.sendButton message receiverId now₁ now₂).1 (s.sendButton message receiverId now₁ now₂).2
  | pickMessageImage {camera : Bool} {receiverId : String} :
      Did s (.pickMessageImage camera receiverId) (s.pickMessageImage camera receiverId).1
        [.picked receiverId]
  | granted {k n : Nat} {camera : Bool} {receiverId : String}
      (request : s.inFlight[k]? = some (.permission n camera receiverId)) :
      Did s (.permission k true) ((s.landed k).await [.picker n receiverId]) [.pickImage camera]
  | denied {k n : Nat} {camera : Bool} {receiverId : String}
      (request : s.inFlight[k]? = some (.permission n camera receiverId)) :
      Did s (.permission k false) (s.landed k) [.ended n .denied]
  | picker {k n : Nat} {receiverId : String} {file : XFile}
      (request : s.inFlight[k]? = some (.picker n receiverId)) :
      Did s (.picker k (some file)) ((s.landed k).pickerThen n receiverId (some file)).1
        ((s.landed k).pickerThen n receiverId (some file)).2
  | cancelled {k n : Nat} {receiverId : String}
      (request : s.inFlight[k]? = some (.picker n receiverId)) :
      Did s (.picker k none) ((s.landed k).pickerThen n receiverId none).1 [.ended n .cancelled]
  | pickerFailed {k n : Nat} {receiverId : String}
      (request : s.inFlight[k]? = some (.picker n receiverId)) :
      Did s (.pickerFailed k) (s.landed k) [.ended n .pickerFailed]
  | put {k n : Nat} {receiverId : String}
      (request : s.inFlight[k]? = some (.putFile n receiverId)) :
      Did s (.putFile k true) ((s.landed k).putFileThen n receiverId).1 []
  | putFailed {k n : Nat} {receiverId : String}
      (request : s.inFlight[k]? = some (.putFile n receiverId)) :
      Did s (.putFile k false) (s.landed k) [.ended n .uploadFailed]
  | url {k n : Nat} {receiverId url now₁ now₂ : String}
      (request : s.inFlight[k]? = some (.downloadURL n receiverId)) :
      Did s (.url k (some url) now₁ now₂) ((s.landed k).urlThen n receiverId url now₁ now₂).1
        ((s.landed k).urlThen n receiverId url now₁ now₂).2
  | urlFailed {k n : Nat} {receiverId now₁ now₂ : String}
      (request : s.inFlight[k]? = some (.downloadURL n receiverId)) :
      Did s (.url k none now₁ now₂) (s.landed k) [.ended n .urlFailed]
  | token {k : Nat} {receiverUid : String} {value : Option (Option String)}
      (request : s.inFlight[k]? = some (.token receiverUid)) :
      Did s (.token k value) ((s.landed k).tokenThen value) []
  | settled {k : Nat} {call : Call} {sent ok : Bool}
      (request : s.inFlight[k]? = some (.write call sent)) :
      Did s (.settled k ok) (s.landed k) ((s.landed k).writeThen call sent ok)
  | setDeviceToken {uid : String} {token : Option String} :
      Did s (.setDeviceToken uid token)
        { s with stored := Function.update s.stored uid (some token) } []
  | user {uId : Option String} : Did s (.user uId) { s with uId } []

theorem step_did {s s' : ChatScreen} {e : Event} {o : List Effect}
    (h : s.step e = some (s', o)) : Did s e s' o := by
  cases e with
  | build userModel receiverId =>
    obtain ⟨rfl, rfl⟩ := Prod.mk.inj (Option.some.inj h)
    exact .build
  | sendButton message receiverId now₁ now₂ =>
    obtain ⟨rfl, rfl⟩ := Prod.mk.inj (Option.some.inj h)
    exact .sendButton
  | pickMessageImage camera receiverId =>
    obtain ⟨rfl, rfl⟩ := Prod.mk.inj (Option.some.inj h)
    exact .pickMessageImage
  | permission k granted =>
    simp only [step] at h
    split at h
    · rename_i n camera receiverId hk
      obtain ⟨rfl, rfl⟩ := Prod.mk.inj (Option.some.inj h)
      cases granted with
      | true => exact .granted hk
      | false => exact .denied hk
    · exact absurd h (by simp)
  | picker k image =>
    simp only [step] at h
    split at h
    · rename_i n receiverId hk
      obtain ⟨rfl, rfl⟩ := Prod.mk.inj (Option.some.inj h)
      cases image with
      | none => exact .cancelled hk
      | some file => exact .picker hk
    · exact absurd h (by simp)
  | pickerFailed k =>
    simp only [step] at h
    split at h
    · rename_i n receiverId hk
      obtain ⟨rfl, rfl⟩ := Prod.mk.inj (Option.some.inj h)
      exact .pickerFailed hk
    · exact absurd h (by simp)
  | putFile k ok =>
    simp only [step] at h
    split at h
    · rename_i n receiverId hk
      obtain ⟨rfl, rfl⟩ := Prod.mk.inj (Option.some.inj h)
      cases ok with
      | true => exact .put hk
      | false => exact .putFailed hk
    · exact absurd h (by simp)
  | url k url now₁ now₂ =>
    simp only [step] at h
    split at h
    · rename_i n receiverId hk
      obtain ⟨rfl, rfl⟩ := Prod.mk.inj (Option.some.inj h)
      cases url with
      | none => exact .urlFailed hk
      | some url => exact .url hk
    · exact absurd h (by simp)
  | token k value =>
    simp only [step] at h
    split at h
    · rename_i receiverUid hk
      obtain ⟨rfl, rfl⟩ := Prod.mk.inj (Option.some.inj h)
      exact .token hk
    · exact absurd h (by simp)
  | settled k ok =>
    simp only [step] at h
    split at h
    · rename_i call sent hk
      obtain ⟨rfl, rfl⟩ := Prod.mk.inj (Option.some.inj h)
      exact .settled hk
    · exact absurd h (by simp)
  | setDeviceToken uid token =>
    obtain ⟨rfl, rfl⟩ := Prod.mk.inj (Option.some.inj h)
    exact .setDeviceToken
  | user uId =>
    obtain ⟨rfl, rfl⟩ := Prod.mk.inj (Option.some.inj h)
    exact .user

end ChatScreen
end SocialApp
