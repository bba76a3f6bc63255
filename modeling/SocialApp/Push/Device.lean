import SocialApp.Push.System

/-! # What an app holds

The payloads that an app holds are those of the messages it has received.  Without a
message it gets no new one, displays none, and its user changes by a login or to nobody. -/

namespace SocialApp
namespace Push

open Notifications (RemoteMessage)

/-- The payloads that an app holds: `Notifications.data`, and those of the notifications
that are displayed or about to be. -/
def Holds (app : Notifications) (data : Data) : Prop :=
  app.data = some data ∨ (∃ content ∈ app.creating, content.payload = data) ∨
    ∃ content, app.displayed = some content ∧ content.payload = data

/-- The payload of a notification that is created. -/
def createdOf : Notifications.Effect → Option Data
  | .createNotification content => some content.payload
  | _ => none

def created (x : List Notifications.Effect) : List Data := x.filterMap createdOf

/-- What an event other than a message does. -/
structure Quiet (app : Notifications) (e : Notifications.Event) (app' : Notifications)
    (x : List Notifications.Effect) : Prop where
  holds : ∀ data, Holds app' data → Holds app data
  uId : app'.uId = app.uId ∨ app'.uId = none ∨ ∃ uid, e = .login uid ∧ app'.uId = some uid
  created : created x = []

/-- What a message with the payload does. -/
structure Received (payload : Data) (app app' : Notifications)
    (x : List Notifications.Effect) : Prop where
  holds : ∀ data, Holds app' data → Holds app data ∨ data = payload
  uId : app'.uId = app.uId
  created : created x = [] ∨ created x = [payload]

/-- The payloads are left alone. -/
structure Same (app app' : Notifications) : Prop where
  data : app'.data = app.data
  creating : app'.creating = app.creating
  displayed : app'.displayed = app.displayed

theorem Same.holds {app app' : Notifications} (h : Same app app') {data : Data}
    (hdata : Holds app' data) : Holds app data := by
  rw [Holds, h.data, h.creating, h.displayed] at hdata
  exact hdata

/-- The notification that was on display is gone. -/
theorem cleared_holds {app : Notifications} {data : Data}
    (h : Holds { app with displayed := none } data) : Holds app data := by
  rcases h with h | h | ⟨content, h, -⟩
  · exact Or.inl h
  · exact Or.inr (Or.inl h)
  · exact absurd h (by simp)

theorem back_same (app : Notifications) :
    Same app app.back.1 ∧ app.back.1.uId = app.uId ∧ created app.back.2 = [] := by
  unfold Notifications.back
  split <;> exact ⟨⟨rfl, rfl, rfl⟩, rfl, rfl⟩

theorem rebuild_same (app : Notifications) :
    Same app app.rebuild.1 ∧ app.rebuild.1.uId = app.uId ∧ created app.rebuild.2 = [] := by
  unfold Notifications.rebuild
  split <;> exact ⟨⟨rfl, rfl, rfl⟩, rfl, rfl⟩

theorem openChatScreen_same (data : Data) (app : Notifications) :
    Same app (app.openChatScreen data).1 ∧
      ((app.openChatScreen data).1.uId = app.uId ∨ (app.openChatScreen data).1.uId = none) ∧
      created (app.openChatScreen data).2 = [] := by
  unfold Notifications.openChatScreen
  split
  · exact ⟨⟨rfl, rfl, rfl⟩, Or.inr rfl, rfl⟩
  · exact ⟨⟨rfl, rfl, rfl⟩, Or.inl rfl, rfl⟩

theorem tap_quiet (app : Notifications) : Quiet app .tap app.tap.1 app.tap.2 := by
  unfold Notifications.tap
  split
  · rename_i data _
    obtain ⟨hsame, huId, hcreated⟩ := openChatScreen_same data { app with displayed := none }
    refine ⟨fun d hd => cleared_holds (hsame.holds hd), ?_, hcreated⟩
    rcases huId with huId | huId
    · exact Or.inl huId
    · exact Or.inr (Or.inl huId)
  · exact ⟨fun d hd => cleared_holds hd, Or.inl rfl, rfl⟩

theorem step_quiet {app app' : Notifications} {e : Notifications.Event}
    {x : List Notifications.Effect} (he : ofApp e = true)
    (h : Notifications.step false app e = some (app', x)) : Quiet app e app' x := by
  have hsame : ∀ {r : Notifications × List Notifications.Effect}, some r = some (app', x) →
      Same app r.1 ∧ r.1.uId = app.uId ∧ created r.2 = [] → Quiet app e app' x := by
    rintro r hr ⟨hsame, huId, hcreated⟩
    rw [Option.some.inj hr] at hsame huId hcreated
    exact ⟨fun data hdata => hsame.holds hdata, Or.inl huId, hcreated⟩
  cases e with
  | openFromUsers name image uid =>
    simp only [Notifications.step, Notifications.openFromUsers] at h
    split at h
    · exact hsame h ⟨⟨rfl, rfl, rfl⟩, rfl, rfl⟩
    · exact absurd h (by simp)
  | openPage => exact hsame h ⟨⟨rfl, rfl, rfl⟩, rfl, rfl⟩
  | setSheet sheet =>
    simp only [Notifications.step, Notifications.setSheet] at h
    split at h
    · exact hsame h ⟨⟨rfl, rfl, rfl⟩, rfl, rfl⟩
    · exact absurd h (by simp)
  | back => exact hsame h (back_same app)
  | gone =>
    simp only [Notifications.step] at h
    split at h
    · exact hsame h ⟨⟨rfl, rfl, rfl⟩, rfl, rfl⟩
    · exact absurd h (by simp)
  | rebuild => exact hsame h (rebuild_same app)
  | login uid =>
    obtain ⟨rfl, rfl⟩ := Prod.mk.inj (Option.some.inj h)
    exact ⟨fun data hdata => hdata, Or.inr (Or.inr ⟨uid, rfl, rfl⟩), rfl⟩
  | logout =>
    obtain ⟨rfl, rfl⟩ := Prod.mk.inj (Option.some.inj h)
    exact ⟨fun data hdata => hdata, Or.inr (Or.inl rfl), rfl⟩
  | onMessage m => exact absurd he (by simp [ofApp])
  | onBackgroundMessage m => exact absurd he (by simp [ofApp])
  | displayed k =>
    obtain ⟨content, hk, heq⟩ := Option.map_eq_some_iff.mp h
    obtain ⟨rfl, rfl⟩ := Prod.mk.inj heq
    refine ⟨fun data hdata => ?_, Or.inl rfl, rfl⟩
    rcases hdata with hdata | ⟨c, hc, hdata⟩ | ⟨c, hc, hdata⟩
    · exact Or.inl hdata
    · exact Or.inr (Or.inl ⟨c, List.mem_of_mem_eraseIdx hc, hdata⟩)
    · rw [← Option.some.inj hc] at hdata
      exact Or.inr (Or.inl ⟨content, List.mem_of_getElem? hk, hdata⟩)
  | notDisplayed k =>
    obtain ⟨content, hk, heq⟩ := Option.map_eq_some_iff.mp h
    obtain ⟨rfl, rfl⟩ := Prod.mk.inj heq
    refine ⟨fun data hdata => ?_, Or.inl rfl, rfl⟩
    rcases hdata with hdata | ⟨c, hc, hdata⟩ | hdata
    · exact Or.inl hdata
    · exact Or.inr (Or.inl ⟨c, List.mem_of_mem_eraseIdx hc, hdata⟩)
    · exact Or.inr (Or.inr hdata)
  | dismissed =>
    obtain ⟨rfl, rfl⟩ := Prod.mk.inj (Option.some.inj h)
    exact ⟨fun data hdata => cleared_holds hdata, Or.inl rfl, rfl⟩
  | tap =>
    simp only [Notifications.step] at h
    split at h
    · have hquiet := tap_quiet app
      rwa [Option.some.inj h] at hquiet
    · exact absurd h (by simp)

/-! ## Messages -/

theorem Received.refl (payload : Data) (app : Notifications) : Received payload app app [] :=
  ⟨fun _ h => Or.inl h, rfl, Or.inl rfl⟩

/-- `Notifications.data` is set before anything else. -/
theorem Received.setData {payload : Data} {app app' : Notifications}
    {x : List Notifications.Effect}
    (h : Received payload { app with data := some payload } app' x) :
    Received payload app app' x := by
  refine ⟨fun data hdata => ?_, h.uId, h.created⟩
  rcases h.holds data hdata with hdata | hdata
  · rcases hdata with hdata | hdata
    · exact Or.inr (Option.some.inj hdata).symm
    · exact Or.inl (Or.inr hdata)
  · exact Or.inr hdata

theorem notify_received (m : RemoteMessage) (payload : Data) (app : Notifications) :
    Received payload app (app.notify m payload).1 (app.notify m payload).2 := by
  unfold Notifications.notify
  split
  · refine ⟨fun data hdata => ?_, rfl, Or.inr rfl⟩
    rcases hdata with hdata | ⟨c, hc, hdata⟩ | hdata
    · exact Or.inl (Or.inl hdata)
    · rcases List.mem_append.mp hc with hc | hc
      · exact Or.inl (Or.inr (Or.inl ⟨c, hc, hdata⟩))
      · rw [List.mem_singleton.mp hc] at hdata
        exact Or.inr hdata.symm
    · exact Or.inl (Or.inr (Or.inr hdata))
  · exact Received.refl payload app

theorem onMessage_received (m : RemoteMessage) (app : Notifications) :
    Received (Data.fromJson m.data) app (app.onMessage m).1 (app.onMessage m).2 := by
  unfold Notifications.onMessage
  dsimp only
  split
  · exact (notify_received m _ _).setData
  · split
    · exact (notify_received m _ _).setData
    · exact (Received.refl _ _).setData

theorem backHandler_received (shared : Bool) (m : RemoteMessage) (app : Notifications) :
    Received (Data.fromJson m.data) app (app.backHandler shared m).1
      (app.backHandler shared m).2 := by
  unfold Notifications.backHandler
  split
  · cases shared with
    | false => exact notify_received m _ _
    | true => exact (notify_received m _ _).setData
  · exact Received.refl _ app

theorem deliver_received (background shared : Bool) (body : Body) (app : Notifications) :
    Received (Data.fromJson body.message.data) app
      (if background then app.backHandler shared body.message
        else app.onMessage body.message).1
      (if background then app.backHandler shared body.message
        else app.onMessage body.message).2 := by
  split
  · exact backHandler_received shared _ app
  · exact onMessage_received _ app

end Push
end SocialApp
