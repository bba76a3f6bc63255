import SocialApp.Notifications.App
import Mathlib.Data.List.Induction

/-! # The payload of a tap

A tap acts on `Notifications.data`, the payload of the last message that the isolate of
the app has received, whether or not that message was displayed. -/

namespace SocialApp
namespace Notifications

/-- The payload that an event assigns to `Notifications.data` in the app. -/
def received (shared : Bool) : Event → Option Data
  | .onMessage m => some (Data.fromJson m.data)
  | .onBackgroundMessage m =>
    if m.notification.isSome && shared then some (Data.fromJson m.data) else none
  | _ => none

/-- The payload of the last message that the app has received. -/
def lastReceived (shared : Bool) (es : List Event) : Option Data :=
  (es.filterMap (received shared)).getLast?

theorem notify_data (m : RemoteMessage) (data : Data) (s : Notifications) :
    (s.notify m data).1.data = s.data := by
  unfold notify
  cases m.notification with
  | none => rfl
  | some n => rfl

theorem back_data (s : Notifications) : s.back.1.data = s.data := by
  unfold back
  split
  · rfl
  · rfl
  · rfl
  · rfl
  · rfl

theorem openChatScreen_data (data : Data) (s : Notifications) :
    (s.openChatScreen data).1.data = s.data := by
  unfold openChatScreen
  split
  · rfl
  · rfl

theorem rebuild_data (s : Notifications) : s.rebuild.1.data = s.data := by
  unfold rebuild
  split
  · rfl
  · rfl

theorem onMessage_data (m : RemoteMessage) (s : Notifications) :
    (s.onMessage m).1.data = some (Data.fromJson m.data) := by
  unfold onMessage
  dsimp only
  split
  · exact notify_data _ _ _
  · split
    · exact notify_data _ _ _
    · rfl

theorem backHandler_data (shared : Bool) (m : RemoteMessage) (s : Notifications) :
    (s.backHandler shared m).1.data = (received shared (.onBackgroundMessage m)).or s.data := by
  have hreceived : received shared (.onBackgroundMessage m) =
      if m.notification.isSome && shared then some (Data.fromJson m.data) else none := rfl
  rw [hreceived]
  unfold backHandler
  cases m.notification.isSome with
  | false => rfl
  | true =>
    cases shared with
    | false => exact notify_data _ _ _
    | true => exact notify_data _ _ _

theorem tap_data (s : Notifications) : s.tap.1.data = s.data := by
  unfold tap
  split
  · exact openChatScreen_data _ _
  · rfl

/-- An event assigns the payload of its message, if it has one that reaches the app. -/
theorem step_data {shared : Bool} {s s' : Notifications} {e : Event} {o : List Effect}
    (h : step shared s e = some (s', o)) : s'.data = (received shared e).or s.data := by
  have hstep : ∀ {r : Notifications × List Effect}, some r = some (s', o) →
      s'.data = r.1.data := by
    intro r hr
    rw [Option.some.inj hr]
  cases e with
  | openFromUsers name image uid =>
    simp only [step, openFromUsers] at h
    split at h
    · exact hstep h
    · exact absurd h (by simp)
  | openPage => exact hstep h
  | setSheet sheet =>
    simp only [step, setSheet] at h
    split at h
    · exact hstep h
    · exact absurd h (by simp)
  | back => exact (hstep h).trans (back_data s)
  | gone =>
    simp only [step] at h
    split at h
    · exact hstep h
    · exact absurd h (by simp)
  | rebuild => exact (hstep h).trans (rebuild_data s)
  | login uid => exact hstep h
  | logout => exact hstep h
  | onMessage m => exact (hstep h).trans (onMessage_data m s)
  | onBackgroundMessage m => exact (hstep h).trans (backHandler_data shared m s)
  | displayed k =>
    obtain ⟨content, -, heq⟩ := Option.map_eq_some_iff.mp h
    rw [← (Prod.mk.inj heq).1]
    rfl
  | notDisplayed k =>
    obtain ⟨content, -, heq⟩ := Option.map_eq_some_iff.mp h
    rw [← (Prod.mk.inj heq).1]
    rfl
  | dismissed => exact hstep h
  | tap =>
    simp only [step] at h
    split at h
    · exact (hstep h).trans (tap_data s)
    · exact absurd h (by simp)

theorem lastReceived_concat (shared : Bool) (es : List Event) (e : Event) :
    lastReceived shared (es ++ [e]) = (received shared e).or (lastReceived shared es) := by
  unfold lastReceived
  rw [List.filterMap_append, List.getLast?_append]
  cases h : received shared e with
  | none => simp [h]
  | some data => simp [h]

theorem run_data {shared : Bool} {uId : Option String} {es : List Event} {s : Notifications}
    {o : List Effect} (hrun : (machine shared).run (init uId) es = some (s, o)) :
    s.data = lastReceived shared es := by
  induction es using List.reverseRecOn generalizing s o with
  | nil =>
    obtain ⟨rfl, rfl⟩ := Prod.mk.inj (Option.some.inj hrun)
    rfl
  | append_singleton es e ih =>
    obtain ⟨s₁, o₁, o₂, hes, he, rfl⟩ := Reactive.Machine.run_append.mp hrun
    obtain ⟨s₂, o₃, o₄, hstep, hnil, rfl⟩ := Reactive.Machine.run_cons.mp he
    obtain ⟨rfl, rfl⟩ := Prod.mk.inj (Option.some.inj hnil)
    rw [lastReceived_concat, ← ih hes]
    exact step_data hstep

/-! ## Taps -/

/-- The tap opens the chat with the sender if the payload is addressed to the current
user, and otherwise logs out and goes to the login screen. -/
def ActsOn (data : Data) (s s' : Notifications) (o : List Effect) : Prop :=
  if data.receiverUid = s.uId then
    s'.uId = s.uId ∧ s'.routes = .chat data.name data.image data.uid false :: s.routes ∧
      o = [.navigateTo (.chat data.name data.image data.uid false)]
  else
    s'.uId = none ∧ s'.routes = [.login] ∧ o = [.removeData "uid", .navigateToAndKill .login]

/-- Two payloads lead to the same screen. -/
def Alike (uId : Option String) (data data' : Data) : Prop :=
  if data.receiverUid = uId then
    data'.receiverUid = uId ∧ data'.name = data.name ∧ data'.image = data.image ∧
      data'.uid = data.uid
  else data'.receiverUid ≠ uId

theorem Alike.refl (uId : Option String) (data : Data) : Alike uId data data := by
  unfold Alike
  split
  · rename_i h
    exact ⟨h, rfl, rfl, rfl⟩
  · rename_i h
    exact h

theorem openChatScreen_actsOn_iff (data data' : Data) (s : Notifications) :
    ActsOn data s (openChatScreen data' { s with displayed := none }).1
      (openChatScreen data' { s with displayed := none }).2 ↔ Alike s.uId data data' := by
  unfold ActsOn Alike openChatScreen
  by_cases huId : data.receiverUid = s.uId
  · rw [if_pos huId, if_pos huId]
    by_cases huId' : s.uId ≠ data'.receiverUid
    · rw [if_pos huId']
      constructor
      · intro ⟨_, _, heffects⟩
        exact absurd heffects (by simp)
      · intro h
        exact absurd h.1.symm huId'
    · rw [if_neg huId']
      have hreceiver := (not_not.mp huId').symm
      constructor
      · intro ⟨_, hroutes, _⟩
        have hroute := (List.cons.inj hroutes).1
        simp only [Route.chat.injEq] at hroute
        exact ⟨hreceiver, hroute.1, hroute.2.1, hroute.2.2.1⟩
      · intro ⟨_, hname, himage, huid⟩
        rw [hname, himage, huid]
        exact ⟨rfl, rfl, rfl⟩
  · rw [if_neg huId, if_neg huId]
    by_cases huId' : s.uId ≠ data'.receiverUid
    · rw [if_pos huId']
      exact iff_of_true ⟨rfl, rfl, rfl⟩ huId'.symm
    · rw [if_neg huId']
      constructor
      · intro ⟨_, _, heffects⟩
        exact absurd (List.cons.inj heffects).1 (by simp)
      · intro h
        exact absurd (not_not.mp huId').symm h

/-- A tap acts on the payload of the notification that is displayed exactly when the last
message that the app has received leads to the same screen. -/
theorem tap_acts_iff {shared : Bool} {uId : Option String} {es : List Event}
    {s s' : Notifications} {o o' : List Effect} {content : NotificationContent}
    (hrun : (machine shared).run (init uId) es = some (s, o))
    (hdisplayed : s.displayed = some content) (htap : step shared s .tap = some (s', o')) :
    ActsOn content.payload s s' o' ↔
      ∃ data, lastReceived shared es = some data ∧ Alike s.uId content.payload data := by
  have hstep : s.tap = (s', o') := by
    simp only [step, hdisplayed, Option.isSome_some, if_true] at htap
    exact Option.some.inj htap
  rw [← run_data hrun]
  cases hdata : s.data with
  | none =>
    have hthrown : s.tap = ({ s with displayed := none }, []) := by simp only [tap, hdata]
    obtain ⟨-, rfl⟩ := Prod.mk.inj (hstep.symm.trans hthrown)
    refine iff_of_false ?_ (by simp)
    unfold ActsOn
    split
    · exact fun h => absurd h.2.2 (by simp)
    · exact fun h => absurd h.2.2 (by simp)
  | some data =>
    have hopened : s.tap = openChatScreen data { s with displayed := none } := by
      simp only [tap, hdata]
    have hacts := openChatScreen_actsOn_iff content.payload data s
    rw [← hopened, hstep] at hacts
    rw [hacts]
    constructor
    · exact fun h => ⟨data, rfl, h⟩
    · intro ⟨data', heq, h⟩
      rwa [Option.some.inj heq]

/-- A message from `uid` to Ann. -/
def messageFrom (uid : String) : RemoteMessage :=
  { notification := some { title := some "message", body := some "hello" }
    data := Data.toJson
      { uid := some uid, receiverUid := some "ann", image := some "image", name := some uid,
        notificationImage := some "" } }

theorem tap_acts_iff_messageFrom :
    ∃ s o s' o' content, (machine false).run (init (some "ann"))
        [.onMessage (messageFrom "bob"), .displayed 0] = some (s, o) ∧
      step false s .tap = some (s', o') ∧ s.displayed = some content ∧
      ActsOn content.payload s s' o' := by
  have hrun : ∃ s o s' o' content, (machine false).run (init (some "ann"))
        [.onMessage (messageFrom "bob"), .displayed 0] = some (s, o) ∧
      step false s .tap = some (s', o') ∧ s.displayed = some content ∧
      lastReceived false [.onMessage (messageFrom "bob"), .displayed 0] = some content.payload :=
    ⟨_, _, _, _, _, rfl, rfl, rfl, rfl⟩
  obtain ⟨s, o, s', o', content, hrun, htap, hdisplayed, hlast⟩ := hrun
  exact ⟨s, o, s', o', content, hrun, htap, hdisplayed,
    (tap_acts_iff hrun hdisplayed htap).mpr ⟨_, hlast, Alike.refl _ _⟩⟩

/-- A message of Bob is displayed, Ann opens the chat with Carl, and a message of Dan
arrives, whose notification is suppressed. -/
def suppressed : List Event :=
  [.onMessage (messageFrom "bob"), .displayed 0,
    .openFromUsers (some "carl") (some "image") (some "carl"), .onMessage (messageFrom "dan")]

/-- The tap on Bob's notification opens the chat with Dan. -/
theorem tap_opens_other_chat :
    ∃ s o s' o' content, (machine false).run (init (some "ann")) suppressed = some (s, o) ∧
      step false s .tap = some (s', o') ∧ s.displayed = some content ∧
      content.payload.uid = some "bob" ∧
      o' = [.navigateTo (.chat (some "dan") (some "image") (some "dan") false)] ∧
      ¬ ActsOn content.payload s s' o' := by
  have hrun : ∃ s o s' o' content, (machine false).run (init (some "ann")) suppressed =
        some (s, o) ∧ step false s .tap = some (s', o') ∧ s.displayed = some content ∧
      content.payload.uid = some "bob" ∧ content.payload.receiverUid = s.uId ∧
      o' = [.navigateTo (.chat (some "dan") (some "image") (some "dan") false)] :=
    ⟨_, _, _, _, _, rfl, rfl, rfl, rfl, rfl, rfl⟩
  obtain ⟨s, o, s', o', content, hrun, htap, hdisplayed, huid, hreceiver, heffects⟩ := hrun
  refine ⟨s, o, s', o', content, hrun, htap, hdisplayed, huid, heffects, fun h => ?_⟩
  unfold ActsOn at h
  rw [if_pos hreceiver, heffects, huid] at h
  exact absurd h.2.2 (by simp)

end Notifications
end SocialApp
