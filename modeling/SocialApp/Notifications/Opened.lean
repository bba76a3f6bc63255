import SocialApp.Notifications.App

/-! # `ChatScreen.isOpened`

One flag stands for the ChatScreens on the stack.  It is set when one is built and
cleared when one is asked to go back, so it is right exactly as long as the other ways
on and off the stack are not taken. -/

namespace SocialApp
namespace Notifications

/-- Some ChatScreen is on the navigation stack. -/
def Open (s : Notifications) : Prop := ∃ route ∈ s.routes, route.isChat = true

/-- The flag is right after the step, and a message to the current user goes without a
notification exactly when a ChatScreen is open. -/
structure FlagRight (s : Notifications) (e : Event) (s' : Notifications) (o : List Effect) :
    Prop where
  flag : s'.isOpened = true ↔ Open s'
  message : ∀ m, e = .onMessage m → (Data.fromJson m.data).receiverUid = s.uId →
    ((∀ content, Effect.createNotification content ∉ o) ↔ Open s)

/-- Which steps keep the flag right. -/
def KeepsFlag (s : Notifications) : Event → Prop
  | .back =>
    match s.routes with
    -- only the sheet is closed
    | .chat _ _ _ true :: _ => False
    -- there is no other ChatScreen below
    | .chat _ _ _ false :: routes => ∀ route ∈ routes, route.isChat = false
    | _ => True
  -- the stack is cleared while no ChatScreen is on it
  | .login _ => ¬ Open s
  | .logout => ¬ Open s
  | .tap => ∀ data, s.data = some data → data.receiverUid ≠ s.uId → ¬ Open s
  -- no ChatScreen is built that has left the stack
  | .rebuild => s.leaving ≠ 0 → Open s
  -- the message has a notification
  | .onMessage m =>
    m.notification = none → (Data.fromJson m.data).receiverUid = s.uId → Open s
  | _ => True

/-- The first route is not a ChatScreen. -/
def Grounded (s : Notifications) : Prop :=
  ∃ routes route, s.routes = routes ++ [route] ∧ route.isChat = false

theorem Grounded.cons {s s' : Notifications} {route : Route} (hs : Grounded s)
    (h : s'.routes = route :: s.routes) : Grounded s' := by
  obtain ⟨routes, first, heq, hfirst⟩ := hs
  exact ⟨route :: routes, first, by rw [h, heq]; rfl, hfirst⟩

theorem open_cons {s s' : Notifications} {route : Route} (h : s'.routes = route :: s.routes) :
    Open s' ↔ route.isChat = true ∨ Open s := by
  unfold Open
  rw [h]
  simp only [List.mem_cons, or_and_right, exists_or, exists_eq_left]

theorem open_congr {s s' : Notifications} (h : s'.routes = s.routes) : Open s' ↔ Open s := by
  unfold Open
  rw [h]

/-- A step that is no message. -/
theorem flagRight_iff_flag {s s' : Notifications} {e : Event} {o : List Effect}
    (h : ∀ m, e ≠ .onMessage m) :
    FlagRight s e s' o ↔ (s'.isOpened = true ↔ Open s') :=
  ⟨fun hright => hright.flag, fun hflag =>
    { flag := hflag, message := fun m hm => absurd hm (h m) }⟩

section Steps

variable {s : Notifications}

theorem navigateTo_flag (hflag : s.isOpened = true ↔ Open s) (route : Route) :
    (s.navigateTo route).1.isOpened = true ↔ Open (s.navigateTo route).1 := by
  rw [open_cons rfl]
  show (s.isOpened || route.isChat) = true ↔ _
  rw [Bool.or_eq_true, hflag]
  exact or_comm

/-- The stack is cleared, and the flag is left as it was. -/
theorem navigateToAndKill_flag (hflag : s.isOpened = true ↔ Open s) {route : Route}
    (hroute : route.isChat = false) :
    ((s.navigateToAndKill route).1.isOpened = true ↔ Open (s.navigateToAndKill route).1) ↔
      ¬ Open s := by
  have hnone : ¬ Open (s.navigateToAndKill route).1 := by
    intro ⟨r, hr, hchat⟩
    rw [List.mem_singleton.mp hr, hroute] at hchat
    exact absurd hchat (by simp)
  show (s.isOpened = true ↔ _) ↔ _
  rw [hflag]
  exact ⟨fun h hopen => hnone (h.mp hopen), fun h => iff_of_false h hnone⟩

theorem grounded_singleton {route : Route} (h : route.isChat = false)
    (hs : s.routes = [route]) : Grounded s := ⟨[], route, hs, h⟩

/-- Closing the route on top, while another one is below. -/
theorem back_flag (hflag : s.isOpened = true ↔ Open s) {top : Route} {routes : List Route}
    (hroutes : s.routes = top :: routes) (hne : routes ≠ []) :
    ((s.back.1.isOpened = true ↔ Open s.back.1) ↔ KeepsFlag s .back) ∧
      (s.back.1.routes = routes ∨ ∃ route, s.back.1.routes = route :: routes) := by
  obtain ⟨route, below, rfl⟩ := List.exists_cons_of_ne_nil hne
  have hother : top.isChat = false → s.back = ({ s with routes := route :: below }, []) →
      (s.back.1.isOpened = true ↔ Open s.back.1) := by
    intro htop hback
    have hopen := @open_cons { s with routes := route :: below } s top hroutes
    rw [htop, or_iff_right (by simp)] at hopen
    rw [hback]
    exact hflag.trans hopen
  cases top with
  | chat name image uid sheet =>
    cases sheet with
    | true =>
      have hback : s.back = ({ s with
          isOpened := false, routes := .chat name image uid false :: route :: below }, []) := by
        simp only [back, hroutes]
      have hkeeps : KeepsFlag s .back ↔ False := by simp only [KeepsFlag, hroutes]
      rw [hkeeps, hback]
      refine ⟨⟨fun h => ?_, False.elim⟩, Or.inr ⟨_, rfl⟩⟩
      exact absurd (h.mpr ⟨_, List.mem_cons_self, rfl⟩) (by simp)
    | false =>
      have hback : s.back = ({ s with
          isOpened := false, routes := route :: below, leaving := s.leaving + 1 }, []) := by
        simp only [back, hroutes]
      have hkeeps : KeepsFlag s .back ↔ ∀ r ∈ route :: below, r.isChat = false := by
        simp only [KeepsFlag, hroutes]
      rw [hkeeps, hback]
      refine ⟨⟨fun h r hr => ?_, fun h => iff_of_false (by simp) ?_⟩, Or.inl rfl⟩
      · by_contra hchat
        exact absurd (h.mpr ⟨r, hr, by simpa using hchat⟩) (by simp)
      · intro ⟨r, hr, hchat⟩
        rw [h r hr] at hchat
        exact absurd hchat (by simp)
  | login | layout | page =>
    have hback : s.back = ({ s with routes := route :: below }, []) := by
      simp only [back, hroutes]
    have hkeeps : KeepsFlag s .back := by simp only [KeepsFlag, hroutes]
    exact ⟨iff_of_true (hother rfl hback) hkeeps, Or.inl (by rw [hback])⟩

/-- Going back at the first route. -/
theorem back_first (hflag : s.isOpened = true ↔ Open s) {route : Route}
    (hroute : route.isChat = false) (hroutes : s.routes = [route]) :
    ((s.back.1.isOpened = true ↔ Open s.back.1) ↔ KeepsFlag s .back) ∧
      s.back.1.routes = [route] := by
  have hback : s.back = (s, []) ∧ KeepsFlag s .back := by
    cases route with
    | chat => exact absurd hroute (by simp [Route.isChat])
    | _ => simp only [back, KeepsFlag, hroutes, and_self]
  rw [hback.1]
  exact ⟨iff_of_true hflag hback.2, hroutes⟩

end Steps

/-- Nothing happens to the stack or to the flag. -/
theorem flag_of_same {s s' : Notifications} (hflag : s.isOpened = true ↔ Open s)
    (hroutes : s'.routes = s.routes) (hisOpened : s'.isOpened = s.isOpened) :
    s'.isOpened = true ↔ Open s' := by
  rw [hisOpened, open_congr hroutes]
  exact hflag

theorem Grounded.congr {s s' : Notifications} (hs : Grounded s) (h : s'.routes = s.routes) :
    Grounded s' := by
  obtain ⟨routes, first, heq, hfirst⟩ := hs
  exact ⟨routes, first, h.trans heq, hfirst⟩

/-- The notification of a message that is shown. -/
theorem notify_same (m : RemoteMessage) (data : Data) (s : Notifications) :
    (s.notify m data).1.routes = s.routes ∧ (s.notify m data).1.isOpened = s.isOpened ∧
      ((∀ content, Effect.createNotification content ∉ (s.notify m data).2) ↔
        m.notification = none) := by
  unfold notify
  cases m.notification with
  | none => simp
  | some n => simp [createNotification]

theorem onMessage_right {s : Notifications} (hflag : s.isOpened = true ↔ Open s)
    (m : RemoteMessage) :
    ((s.onMessage m).1.routes = s.routes ∧ (s.onMessage m).1.isOpened = s.isOpened) ∧
      (FlagRight s (.onMessage m) (s.onMessage m).1 (s.onMessage m).2 ↔
        KeepsFlag s (.onMessage m)) := by
  -- the flag stays, so only the notification counts
  have hright : ∀ {r : Notifications × List Effect},
      r.1.routes = s.routes → r.1.isOpened = s.isOpened →
      (FlagRight s (.onMessage m) r.1 r.2 ↔ ((Data.fromJson m.data).receiverUid = s.uId →
        ((∀ content, Effect.createNotification content ∉ r.2) ↔ Open s))) := by
    intro r hroutes hisOpened
    constructor
    · exact fun h => h.message m rfl
    · intro h
      refine { flag := flag_of_same hflag hroutes hisOpened, message := fun m' hm' => ?_ }
      obtain rfl := Event.onMessage.inj hm'
      exact h
  unfold onMessage
  dsimp only
  by_cases hopened : s.isOpened = true
  · have hopen := hflag.mp hopened
    rw [if_neg (not_not.mpr hopened)]
    by_cases huId : s.uId ≠ (Data.fromJson m.data).receiverUid
    · rw [if_pos huId]
      obtain ⟨hroutes, hisOpened, -⟩ :=
        notify_same m (Data.fromJson m.data) { s with data := some (Data.fromJson m.data) }
      refine ⟨⟨hroutes, hisOpened⟩, (hright hroutes hisOpened).trans ?_⟩
      exact iff_of_true (fun h => absurd h.symm huId) fun _ h => absurd h.symm huId
    · rw [if_neg huId]
      refine ⟨⟨rfl, rfl⟩, (hright rfl rfl).trans ?_⟩
      exact iff_of_true (fun _ => iff_of_true (by simp) hopen) fun _ _ => hopen
  · have hopen : ¬ Open s := fun h => hopened (hflag.mpr h)
    rw [if_pos hopened]
    obtain ⟨hroutes, hisOpened, hnone⟩ :=
      notify_same m (Data.fromJson m.data) { s with data := some (Data.fromJson m.data) }
    refine ⟨⟨hroutes, hisOpened⟩, (hright hroutes hisOpened).trans ?_⟩
    rw [hnone]
    constructor
    · exact fun h hm hreceiver => (h hreceiver).mp hm
    · exact fun h hreceiver => ⟨fun hm => h hm hreceiver, fun hopen' => absurd hopen' hopen⟩

theorem backHandler_same (shared : Bool) (m : RemoteMessage) (s : Notifications) :
    (s.backHandler shared m).1.routes = s.routes ∧
      (s.backHandler shared m).1.isOpened = s.isOpened := by
  unfold backHandler
  by_cases hm : m.notification.isSome = true
  · rw [if_pos hm]
    cases shared with
    | true =>
      obtain ⟨hroutes, hisOpened, -⟩ :=
        notify_same m (Data.fromJson m.data) { s with data := some (Data.fromJson m.data) }
      exact ⟨hroutes, hisOpened⟩
    | false =>
      obtain ⟨hroutes, hisOpened, -⟩ := notify_same m (Data.fromJson m.data) s
      exact ⟨hroutes, hisOpened⟩
  · rw [if_neg hm]
    exact ⟨rfl, rfl⟩

theorem setSheet_flag {s s' : Notifications} {sheet : Bool} {o : List Effect} (hs : Grounded s)
    (hflag : s.isOpened = true ↔ Open s) (h : s.setSheet sheet = some (s', o)) :
    Grounded s' ∧ (s'.isOpened = true ↔ Open s') := by
  unfold setSheet at h
  split at h
  · rename_i name image uid old routes hroutes
    obtain ⟨rfl, rfl⟩ := Prod.mk.inj (Option.some.inj h)
    have hopen : Open s := ⟨.chat name image uid old, by rw [hroutes]; simp, rfl⟩
    obtain ⟨below, first, heq, hfirst⟩ := hs
    rw [hroutes] at heq
    cases below with
    | nil =>
      rw [← (List.cons.inj heq).1] at hfirst
      exact absurd hfirst (by simp [Route.isChat])
    | cons top below =>
      refine ⟨⟨.chat name image uid sheet :: below, first, ?_, hfirst⟩, ?_⟩
      · rw [(List.cons.inj heq).2]
        rfl
      · exact iff_of_true (hflag.mpr hopen) ⟨_, List.mem_cons_self, rfl⟩
  · exact absurd h (by simp)

theorem rebuild_flag {s : Notifications} (hflag : s.isOpened = true ↔ Open s) :
    s.rebuild.1.routes = s.routes ∧
      ((s.rebuild.1.isOpened = true ↔ Open s.rebuild.1) ↔ KeepsFlag s .rebuild) := by
  have hkeeps : KeepsFlag s .rebuild ↔ (s.leaving ≠ 0 → Open s) := Iff.rfl
  have hany : s.routes.any Route.isChat = true ↔ Open s := List.any_eq_true
  rw [hkeeps]
  unfold rebuild
  by_cases hbuilt : (s.routes.any Route.isChat || s.leaving ≠ 0) = true
  · rw [if_pos hbuilt]
    refine ⟨rfl, ?_⟩
    show (true = true ↔ Open s) ↔ _
    rw [Bool.or_eq_true, hany, decide_eq_true_eq] at hbuilt
    constructor
    · exact fun h _ => h.mp rfl
    · exact fun h => iff_of_true rfl (hbuilt.elim id h)
  · rw [if_neg hbuilt]
    rw [Bool.or_eq_true, not_or, decide_eq_true_eq] at hbuilt
    exact ⟨rfl, iff_of_true hflag fun h => absurd h hbuilt.2⟩

theorem tap_flag {s : Notifications} (hs : Grounded s) (hflag : s.isOpened = true ↔ Open s) :
    Grounded s.tap.1 ∧ ((s.tap.1.isOpened = true ↔ Open s.tap.1) ↔ KeepsFlag s .tap) := by
  have hkeeps : KeepsFlag s .tap ↔
      ∀ data, s.data = some data → data.receiverUid ≠ s.uId → ¬ Open s := Iff.rfl
  rw [hkeeps]
  cases hdata : s.data with
  | none =>
    have htap : s.tap = ({ s with displayed := none }, []) := by simp only [tap, hdata]
    rw [htap]
    exact ⟨hs.congr rfl, iff_of_true (flag_of_same hflag rfl rfl) (by simp)⟩
  | some data =>
    have htap : s.tap = openChatScreen data { s with displayed := none } := by
      simp only [tap, hdata]
    rw [htap]
    unfold openChatScreen
    by_cases huId : s.uId ≠ data.receiverUid
    · rw [if_pos huId]
      have hkill := @navigateToAndKill_flag { s with displayed := none, uId := none } hflag .login
        rfl
      refine ⟨grounded_singleton rfl rfl, hkill.trans ?_⟩
      constructor
      · intro h data' _ _
        exact h
      · exact fun h => h data rfl fun heq => huId heq.symm
    · rw [if_neg huId]
      refine ⟨hs.cons rfl, iff_of_true ?_ ?_⟩
      · exact navigateTo_flag (s := { s with displayed := none }) hflag _
      · intro data' hdata' hne
        rw [← Option.some.inj hdata'] at hne
        exact absurd (not_not.mp huId).symm hne

/-- Going back. -/
theorem back_right {s : Notifications} (hs : Grounded s)
    (hflag : s.isOpened = true ↔ Open s) :
    Grounded s.back.1 ∧ ((s.back.1.isOpened = true ↔ Open s.back.1) ↔ KeepsFlag s .back) := by
  obtain ⟨below, first, heq, hfirst⟩ := hs
  cases below with
  | nil =>
    obtain ⟨hkeeps, hroutes⟩ := back_first hflag hfirst heq
    exact ⟨grounded_singleton hfirst hroutes, hkeeps⟩
  | cons top below =>
    obtain ⟨hkeeps, hroutes⟩ := back_flag hflag heq (by simp)
    refine ⟨?_, hkeeps⟩
    rcases hroutes with hroutes | ⟨route, hroutes⟩
    · exact ⟨below, first, hroutes, hfirst⟩
    · exact ⟨route :: below, first, hroutes, hfirst⟩

/-- A step leaves the first route, and keeps the flag right exactly when it is one of
those that do. -/
theorem step_right {shared : Bool} {s s' : Notifications} {e : Event} {o : List Effect}
    (hs : Grounded s) (hflag : s.isOpened = true ↔ Open s)
    (h : step shared s e = some (s', o)) :
    Grounded s' ∧ (FlagRight s e s' o ↔ KeepsFlag s e) := by
  have hsame : (∀ m, e ≠ .onMessage m) → s'.routes = s.routes → s'.isOpened = s.isOpened →
      KeepsFlag s e → Grounded s' ∧ (FlagRight s e s' o ↔ KeepsFlag s e) := by
    intro hm hroutes hisOpened hkeeps
    rw [flagRight_iff_flag hm]
    exact ⟨hs.congr hroutes, iff_of_true (flag_of_same hflag hroutes hisOpened) hkeeps⟩
  cases e with
  | openFromUsers name image uid =>
    simp only [step, openFromUsers] at h
    split at h
    · obtain ⟨rfl, rfl⟩ := Prod.mk.inj (Option.some.inj h)
      rw [flagRight_iff_flag (by simp)]
      exact ⟨hs.cons rfl, iff_of_true (navigateTo_flag hflag _) trivial⟩
    · exact absurd h (by simp)
  | openPage =>
    obtain ⟨rfl, rfl⟩ := Prod.mk.inj (Option.some.inj h)
    rw [flagRight_iff_flag (by simp)]
    exact ⟨hs.cons rfl, iff_of_true (navigateTo_flag hflag .page) trivial⟩
  | setSheet sheet =>
    obtain ⟨hground, hflag'⟩ := setSheet_flag hs hflag h
    rw [flagRight_iff_flag (by simp)]
    exact ⟨hground, iff_of_true hflag' trivial⟩
  | back =>
    obtain ⟨rfl, rfl⟩ := Prod.mk.inj (Option.some.inj h)
    rw [flagRight_iff_flag (by simp)]
    exact back_right hs hflag
  | gone =>
    simp only [step] at h
    split at h
    · obtain ⟨rfl, rfl⟩ := Prod.mk.inj (Option.some.inj h)
      exact hsame (by simp) rfl rfl trivial
    · exact absurd h (by simp)
  | rebuild =>
    obtain ⟨rfl, rfl⟩ := Prod.mk.inj (Option.some.inj h)
    obtain ⟨hroutes, hkeeps⟩ := rebuild_flag hflag
    rw [flagRight_iff_flag (by simp)]
    exact ⟨hs.congr hroutes, hkeeps⟩
  | login uid =>
    obtain ⟨rfl, rfl⟩ := Prod.mk.inj (Option.some.inj h)
    rw [flagRight_iff_flag (by simp)]
    exact ⟨grounded_singleton rfl rfl, navigateToAndKill_flag (s := {
      s with uId := some uid }) hflag rfl⟩
  | logout =>
    obtain ⟨rfl, rfl⟩ := Prod.mk.inj (Option.some.inj h)
    rw [flagRight_iff_flag (by simp)]
    exact ⟨grounded_singleton rfl rfl, navigateToAndKill_flag (s := {
      s with uId := none }) hflag rfl⟩
  | onMessage m =>
    obtain ⟨rfl, rfl⟩ := Prod.mk.inj (Option.some.inj h)
    obtain ⟨⟨hroutes, -⟩, hright⟩ := onMessage_right hflag m
    exact ⟨hs.congr hroutes, hright⟩
  | onBackgroundMessage m =>
    obtain ⟨rfl, rfl⟩ := Prod.mk.inj (Option.some.inj h)
    obtain ⟨hroutes, hisOpened⟩ := backHandler_same shared m s
    exact hsame (by simp) hroutes hisOpened trivial
  | displayed k =>
    obtain ⟨content, -, heq⟩ := Option.map_eq_some_iff.mp h
    obtain ⟨rfl, rfl⟩ := Prod.mk.inj heq
    exact hsame (by simp) rfl rfl trivial
  | notDisplayed k =>
    obtain ⟨content, -, heq⟩ := Option.map_eq_some_iff.mp h
    obtain ⟨rfl, rfl⟩ := Prod.mk.inj heq
    exact hsame (by simp) rfl rfl trivial
  | dismissed =>
    obtain ⟨rfl, rfl⟩ := Prod.mk.inj (Option.some.inj h)
    exact hsame (by simp) rfl rfl trivial
  | tap =>
    simp only [step] at h
    split at h
    · obtain ⟨rfl, rfl⟩ := Prod.mk.inj (Option.some.inj h)
      rw [flagRight_iff_flag (by simp)]
      exact tap_flag hs hflag
    · exact absurd h (by simp)

/-! ## Every run -/

theorem init_right (uId : Option String) :
    Grounded (init uId) ∧ ((init uId).isOpened = true ↔ Open (init uId)) := by
  have hroute : (if uId = none then Route.login else Route.layout).isChat = false := by
    split
    · rfl
    · rfl
  refine ⟨grounded_singleton hroute rfl, iff_of_false Bool.false_ne_true ?_⟩
  intro ⟨route, hr, hchat⟩
  rw [List.mem_singleton.mp hr, hroute] at hchat
  exact absurd hchat Bool.false_ne_true

/-- Along every run, the flag says whether a ChatScreen is open exactly when every step
is one that keeps it right. -/
theorem isOpened_right_iff (shared : Bool) (uId : Option String) (es : List Event) :
    (machine shared).Every FlagRight (init uId) es ↔
      (machine shared).Every (fun s e _ _ => KeepsFlag s e) (init uId) es := by
  refine Reactive.Machine.every_iff (I := fun s => Grounded s ∧ (s.isOpened = true ↔ Open s)) ?_
    (init_right uId)
  intro s e s' o hs h
  obtain ⟨hground, hright⟩ := step_right hs.1 hs.2 h
  exact ⟨hright, fun h => ⟨hground, h.flag⟩⟩

/-- A message from `uid` to `receiverUid`. -/
def messageTo (uid receiverUid : String) : RemoteMessage :=
  { notification := some { title := some "message", body := some "hello" }
    data := Data.toJson
      { uid := some uid, receiverUid := some receiverUid, image := some "image",
        name := some uid, notificationImage := some "" } }

/-- Ann has a chat open when a message for Carl, who used the device before, arrives.  She
taps its notification, is logged out, and Carl logs in. -/
def loggedOut : List Event :=
  [.openFromUsers (some "bob") (some "image") (some "bob"), .onMessage (messageTo "dan" "carl"),
    .displayed 0, .tap, .login "carl"]

/-- No chat is open, and the next message to Carl goes without a notification. -/
theorem flag_left_set :
    ∃ s o, (machine false).run (init (some "ann")) loggedOut = some (s, o) ∧
      s.uId = some "carl" ∧ s.routes = [.layout] ∧ s.isOpened = true ∧
      (s.onMessage (messageTo "dan" "carl")).2 = [] ∧
      ¬ (machine false).Every FlagRight (init (some "ann")) loggedOut := by
  refine ⟨_, _, rfl, rfl, rfl, rfl, rfl, fun h => ?_⟩
  have hlast := ((((h _ _ rfl).2 _ _ rfl).2 _ _ rfl).2 _ _ rfl).2 _ _ rfl
  obtain ⟨route, hroute, hchat⟩ := hlast.1.flag.mp rfl
  rw [List.mem_singleton.mp hroute] at hchat
  exact absurd hchat Bool.false_ne_true

end Notifications
end SocialApp
