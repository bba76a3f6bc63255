import SocialApp.Push.Registry

/-! # What a tap on a notification does

A tap acts on a payload that some sender has posted.  It opens the chat with that sender
when the payload is for the user who is logged in, and otherwise it logs that user out,
which takes another user who has had the home screen on the same device. -/

namespace SocialApp
namespace Push

variable {fcm : Fcm} {s s' : Push} {o o' : List Effect} {d : Nat} {u : String}

/-- What a tap does: nothing, or it opens the chat with the sender of a genuine payload,
or it logs out a user whom the payload is not for. -/
inductive TapStep (o : List Effect) (d : Nat) (uId : Option String) :
    Option String → List Effect → Prop
  | ignored : TapStep o d uId uId []
  | opened {data : Data} (genuine : Genuine o d data) (receiver : uId = data.receiverUid) :
      TapStep o d uId uId
        [.app d (.navigateTo (.chat data.name data.image data.uid false))]
  | loggedOut {data : Data} (genuine : Genuine o d data) (receiver : uId ≠ data.receiverUid) :
      TapStep o d uId none
        [.app d (.removeData "uid"), .app d (.navigateToAndKill .login)]

theorem step_tap {es : List Event} (hrun : (machine fcm).run init es = some (s, o))
    (hstep : step fcm s (.app d .tap) = some (s', o')) :
    TapStep o d (s.devices d).app.uId (s'.devices d).app.uId o' := by
  obtain ⟨⟨app, x⟩, htap, heq⟩ := Option.map_eq_some_iff.mp hstep
  obtain ⟨rfl, rfl⟩ := Prod.mk.inj heq
  show TapStep o d _ ((s.setDevice d { s.devices d with app }).devices d).app.uId (x.map (.app d))
  rw [setDevice_self]
  simp only [Notifications.step] at htap
  split at htap
  · have htap : (s.devices d).app.tap = (app, x) := Option.some.inj htap
    unfold Notifications.tap at htap
    dsimp only at htap
    split at htap
    · rename_i data hdata
      have hgenuine := payloads_genuine hrun (Or.inl hdata)
      unfold Notifications.openChatScreen at htap
      split at htap
      · rename_i hreceiver
        obtain ⟨rfl, rfl⟩ := Prod.mk.inj htap
        exact .loggedOut hgenuine hreceiver
      · rename_i hreceiver
        obtain ⟨rfl, rfl⟩ := Prod.mk.inj htap
        exact .opened hgenuine (Decidable.not_not.mp hreceiver)
    · obtain ⟨rfl, rfl⟩ := Prod.mk.inj htap
      exact .ignored
  · exact absurd htap (by simp)

/-! ## A device with one user -/

/-- The event logs nobody but `u` in on the device `d`. -/
def OnlyUser (d : Nat) (u : String) : Event → Prop
  | .app d' (.login uid) => d' = d → uid = u
  | .restart d' uId => d' = d → ∀ uid, uId = some uid → uid = u
  | _ => True

/-- Nobody but `u` is logged in on the device, or has had the home screen there. -/
structure UsedBy (d : Nat) (u : String) (s : Push) (o : List Effect) : Prop where
  uId : ∀ v, (s.devices d).app.uId = some v → v = u
  hosted : ∀ v, Hosted o d v → v = u

/-- The effects register nobody. -/
def Unregistered (o : List Effect) : Prop := ∀ d uid token, .registered d uid token ∉ o

theorem Unregistered.not_hosted (h : Unregistered o) (d : Nat) (u v : String)
    (hv : Hosted o d v) : v = u := by
  obtain ⟨token, hmem⟩ := hv
  exact absurd hmem (h d (some v) token)

theorem UsedBy.step (hs : UsedBy d u s o) (huId : ∀ v, (s'.devices d).app.uId = some v → v = u)
    (ho : ∀ v, Hosted o' d v → v = u) : UsedBy d u s' (o ++ o') := by
  refine ⟨huId, fun v hv => ?_⟩
  obtain ⟨token, hmem⟩ := hv
  rcases List.mem_append.mp hmem with hmem | hmem
  · exact hs.hosted v ⟨token, hmem⟩
  · exact ho v ⟨token, hmem⟩

/-- A step that changes no device and registers nobody. -/
theorem UsedBy.beside (hs : UsedBy d u s o) (hdevices : s'.devices = s.devices)
    (ho : Unregistered o') : UsedBy d u s' (o ++ o') := by
  refine hs.step (fun v hv => ?_) (ho.not_hosted d u)
  rw [hdevices] at hv
  exact hs.uId v hv

/-- A step that changes one device and registers nobody. -/
theorem UsedBy.setDevice (hs : UsedBy d u s o) {d' : Nat} {x : Device}
    (hx : d' = d → ∀ v, x.app.uId = some v → v = u) (ho : Unregistered o') :
    UsedBy d u (s.setDevice d' x) (o ++ o') := by
  refine hs.step (fun v hv => ?_) (ho.not_hosted d u)
  by_cases hd : d' = d
  · rw [← hd, setDevice_self] at hv
    exact hx hd v hv
  · rw [setDevice_ne (Ne.symm hd)] at hv
    exact hs.uId v hv

theorem unregistered_nil : Unregistered [] := fun _ _ _ h => absurd h List.not_mem_nil

theorem unregistered_app (d : Nat) (x : List Notifications.Effect) :
    Unregistered (x.map (.app d)) := by
  intro d' uid token h
  obtain ⟨y, -, heq⟩ := List.mem_map.mp h
  exact absurd heq (by simp)

theorem sendNotification_unregistered (chat : Chat) (image text : String) (s : Push) :
    (s.sendNotification chat image text).1.devices = s.devices ∧
      Unregistered (s.sendNotification chat image text).2 := by
  unfold Push.sendNotification
  dsimp only
  split
  · exact ⟨rfl, fun _ _ _ h => absurd h (by simp)⟩
  · exact ⟨rfl, fun _ _ _ h => absurd h (by simp)⟩

theorem step_usedBy {e : Event} (he : OnlyUser d u e) (hs : UsedBy d u s o)
    (h : step fcm s e = some (s', o')) : UsedBy d u s' (o ++ o') := by
  have hbeside : ∀ {r : Push × List Effect}, some r = some (s', o') → r.1.devices = s.devices →
      Unregistered r.2 → UsedBy d u s' (o ++ o') := by
    intro r hr hdevices ho
    rw [Option.some.inj hr] at hdevices ho
    exact hs.beside hdevices ho
  cases e with
  | app d' e =>
    simp only [step] at h
    split at h
    · rename_i happ
      obtain ⟨⟨app, x⟩, hstep, heq⟩ := Option.map_eq_some_iff.mp h
      obtain ⟨rfl, rfl⟩ := Prod.mk.inj heq
      refine hs.setDevice (fun hd v hv => ?_) (unregistered_app d' x)
      rcases (step_quiet happ hstep).uId with huId | huId | ⟨uid, rfl, huId⟩
      · rw [hd] at huId
        exact hs.uId v (huId.symm.trans hv)
      · exact absurd (huId.symm.trans hv) (by simp)
      · rw [← Option.some.inj (huId.symm.trans hv)]
        exact he hd
    · exact absurd h (by simp)
  | restart d' uId =>
    obtain ⟨rfl, rfl⟩ := Prod.mk.inj (Option.some.inj h)
    exact hs.setDevice (fun hd v hv => he hd v hv) unregistered_nil
  | getToken d' value =>
    simp only [step] at h
    split at h
    · obtain ⟨rfl, rfl⟩ := Prod.mk.inj (Option.some.inj h)
      exact hs.setDevice (fun hd v hv => hs.uId v (hd ▸ hv)) unregistered_nil
    · exact absurd h (by simp)
  | buildHome d' =>
    obtain ⟨rfl, rfl⟩ := Prod.mk.inj (Option.some.inj h)
    refine hs.step hs.uId fun v hv => ?_
    -- whoever is registered here is logged in here
    obtain ⟨token, hmem⟩ := hv
    obtain ⟨rfl, huId, -⟩ := Effect.registered.inj (List.mem_singleton.mp hmem)
    exact hs.uId v huId.symm
  | openChat d' =>
    obtain ⟨t, ht, heq⟩ := Option.map_eq_some_iff.mp h
    refine hbeside (congrArg some heq) ?_ unregistered_nil
    unfold Push.openChat at ht
    split at ht
    · rw [← Option.some.inj ht]
    · exact absurd ht (by simp)
  | buildChat c model =>
    obtain ⟨chat, hchat, heq⟩ := Option.map_eq_some_iff.mp h
    exact hbeside (congrArg some heq) rfl unregistered_nil
  | sendText c text =>
    simp only [step] at h
    split at h
    · exact absurd h (by simp)
    · obtain ⟨chat, hchat, heq⟩ := Option.map_eq_some_iff.mp h
      obtain ⟨hdevices, ho⟩ := sendNotification_unregistered chat "" text s
      exact hbeside (congrArg some heq) hdevices ho
  | sendImage c image =>
    obtain ⟨chat, hchat, heq⟩ := Option.map_eq_some_iff.mp h
    obtain ⟨hdevices, ho⟩ := sendNotification_unregistered chat image "" s
    exact hbeside (congrArg some heq) hdevices ho
  | stored k =>
    simp only [step] at h
    split at h
    · rename_i uid token hk
      refine hbeside h ?_ unregistered_nil
      cases uid <;> rfl
    · exact absurd h (by simp)
  | read k =>
    simp only [step] at h
    split at h
    · obtain ⟨chat, hc, heq⟩ := Option.map_eq_some_iff.mp h
      exact hbeside (congrArg some heq) rfl unregistered_nil
    · exact absurd h (by simp)
  | found k =>
    simp only [step] at h
    split at h
    · rename_i c read hk
      obtain ⟨chat, hchat, heq⟩ := Option.map_eq_some_iff.mp h
      refine hbeside (congrArg some heq) ?_ unregistered_nil
      cases read <;> rfl
    · exact absurd h (by simp)
  | delivered k background shared =>
    simp only [step] at h
    split at h
    · rename_i body hk
      obtain ⟨d', hd', heq⟩ := Option.map_eq_some_iff.mp h
      obtain ⟨rfl, rfl⟩ := Prod.mk.inj heq
      have huId := (deliver_received background shared body (s.devices d').app).uId
      have hlanded : UsedBy d u (s.landed k) o := ⟨hs.uId, hs.hosted⟩
      refine hlanded.setDevice (fun hd v hv => ?_) (unregistered_app d' _)
      subst hd
      exact hs.uId v (huId.symm.trans hv)
    · exact absurd h (by simp)
  | lost k =>
    simp only [step] at h
    split at h
    · exact hbeside h rfl unregistered_nil
    · exact absurd h (by simp)

theorem init_usedBy (d : Nat) (u : String) : UsedBy d u init [] :=
  ⟨fun v h => absurd h (by simp [init, Notifications.init]), unregistered_nil.not_hosted d u⟩

theorem run_usedBy {es : List Event} (honly : ∀ e ∈ es, OnlyUser d u e)
    (hrun : (machine fcm).run init es = some (s, o)) : UsedBy d u s o := by
  have hevery : (machine fcm).Every (fun _ e _ _ => OnlyUser d u e) init es :=
    Reactive.Machine.every_of_forall (fun _ _ _ _ h => h) honly init
  exact Reactive.Machine.run_invariant (I := UsedBy d u) (a := [])
    (fun s e s' o a hs h he => step_usedBy he hs h) (init_usedBy d u) hevery hrun

/-- On a device on which only one user ever logs in, a tap on a notification never ends
the session: it opens the chat with the sender of a message to that user. -/
theorem tap_keeps_session {es : List Event} (honly : ∀ e ∈ es, OnlyUser d u e)
    (hrun : (machine fcm).run init es = some (s, o)) (huId : (s.devices d).app.uId = some u)
    (hstep : step fcm s (.app d .tap) = some (s', o')) :
    (s'.devices d).app.uId = some u ∧
      (o' = [] ∨ ∃ data, Genuine o d data ∧ data.receiverUid = some u ∧
        o' = [.app d (.navigateTo (.chat data.name data.image data.uid false))]) := by
  have hused := run_usedBy honly hrun
  have htap := step_tap hrun hstep
  rw [huId] at htap
  generalize (s'.devices d).app.uId = after at htap ⊢
  cases htap with
  | ignored => exact ⟨rfl, Or.inl rfl⟩
  | opened genuine receiver => exact ⟨rfl, Or.inr ⟨_, genuine, receiver.symm, rfl⟩⟩
  | loggedOut genuine receiver =>
    obtain ⟨v, hv, hhosted⟩ := genuine.2
    rw [hv, hused.hosted v hhosted] at receiver
    exact absurd rfl receiver

theorem hiFromBob_onlyUser : ∀ e ∈ hiFromBob, OnlyUser 0 "ann" e := by
  simp [hiFromBob, OnlyUser]

theorem tap_keeps_session_hiFromBob :
    ∃ s o s' o', (machine twoDevices).run init hiFromBob = some (s, o) ∧
      step twoDevices s (.app 0 .tap) = some (s', o') ∧
      (s'.devices 0).app.uId = some "ann" :=
  ⟨_, _, _, _, rfl, rfl,
    (@tap_keeps_session twoDevices _ _ _ _ 0 "ann" hiFromBob hiFromBob_onlyUser rfl rfl rfl).1⟩

end Push
end SocialApp
