import SocialApp.Push.Device

/-! # Where a notification can come to

A device is given only the notifications of users that have had the home screen on it,
and what it is given is what the sender's app has put together.  The account below says
this of every token and of every message, from the token documents to the payloads that
an app holds. -/

namespace SocialApp
namespace Push

open ChatScreen (toText)

variable {fcm : Fcm} {s s' : Push} {o o' : List Effect}

/-- `u` has had the home screen on the device `d`. -/
def Hosted (o : List Effect) (d : Nat) (u : String) : Prop :=
  ∃ token, .registered d (some u) token ∈ o

/-- If the text is a token, then one of a device that has hosted `u`. -/
def TokenOf (fcm : Fcm) (o : List Effect) (u text : String) : Prop :=
  ∀ d, fcm.device text = some d → Hosted o d u

/-- The payload names the sender as the sender's app had it. -/
def From (uid : Option String) (model : LoginModel) (data : Data) : Prop :=
  data.uid = uid ∧ data.name = model.name ∧ data.image = model.image

/-- The payload was posted by some sender, to a receiver whom the device has hosted. -/
def Genuine (o : List Effect) (d : Nat) (data : Data) : Prop :=
  (∃ d' uid model m, .posted d' uid model m ∈ o ∧ m.data = data ∧ From uid model data) ∧
    ∃ u, data.receiverUid = some u ∧ Hosted o d u

def receivers (s : Push) : List (Option String) := s.chats.map Chat.receiverId

/-- What is said of something on its way, where the cubits have the receivers `rs`. -/
def Good (fcm : Fcm) (rs : List (Option String)) (o : List Effect) : Pending → Prop
  | .setToken uid token => ∀ u, uid = some u → TokenOf fcm o u (toText token)
  | .lookup c read => ∀ v, read = some (some v) →
      ∃ u, rs[c]? = some (some u) ∧ TokenOf fcm o u (toText v)
  | .post body => ∃ d uid model m, .posted d uid model m ∈ o ∧ body = m.toJson

/-- A notification is posted to a token of its receiver, or to none. -/
def Addressed (fcm : Fcm) (o : List Effect) : Effect → Prop
  | .posted _ uid model m => From uid model m.data ∧
      ∀ text, m.to_ = some text → ∃ u, m.data.receiverUid = some u ∧ TokenOf fcm o u text
  | _ => True

structure Account (fcm : Fcm) (s : Push) (o : List Effect) : Prop where
  own : ∀ d token, (s.devices d).token = some token → token = "" ∨ fcm.device token = some d
  stored : ∀ u v, s.tokens u = some v → TokenOf fcm o u (toText v)
  inFlight : ∀ p ∈ s.inFlight, Good fcm s.receivers o p
  chats : ∀ chat ∈ s.chats, ∀ text, chat.cubit.receiverDeviceToken = some text →
    ∃ u, chat.receiverId = some u ∧ TokenOf fcm o u text
  posted : ∀ x ∈ o, Addressed fcm o x
  payloads : ∀ d data, Holds (s.devices d).app data → Genuine o d data

theorem Hosted.append {d : Nat} {u : String} (h : Hosted o d u) (o' : List Effect) :
    Hosted (o ++ o') d u := by
  obtain ⟨token, hmem⟩ := h
  exact ⟨token, List.mem_append_left o' hmem⟩

theorem TokenOf.append {u text : String} (h : TokenOf fcm o u text) (o' : List Effect) :
    TokenOf fcm (o ++ o') u text :=
  fun d hd => (h d hd).append o'

theorem Genuine.append {d : Nat} {data : Data} (h : Genuine o d data) (o' : List Effect) :
    Genuine (o ++ o') d data := by
  obtain ⟨⟨d', uid, model, m, hmem, hdata⟩, u, hu, hhosted⟩ := h
  exact ⟨⟨d', uid, model, m, List.mem_append_left o' hmem, hdata⟩, u, hu, hhosted.append o'⟩

theorem Good.append {rs : List (Option String)} {p : Pending} (h : Good fcm rs o p)
    (rs' : List (Option String)) (o' : List Effect) : Good fcm (rs ++ rs') (o ++ o') p := by
  cases p with
  | setToken uid token => exact fun u hu => (h u hu).append o'
  | lookup c read =>
    intro v hv
    obtain ⟨u, hc, htoken⟩ := h v hv
    exact ⟨u, List.getElem?_append_left (List.getElem?_eq_some_iff.mp hc).1 ▸ hc, htoken.append o'⟩
  | post body =>
    obtain ⟨d, uid, model, m, hmem, hbody⟩ := h
    exact ⟨d, uid, model, m, List.mem_append_left o' hmem, hbody⟩

theorem init_account : Account fcm init [] where
  own d token h := Or.inl (Option.some.inj h).symm
  stored u v h := absurd h (by simp [init])
  inFlight p h := absurd h List.not_mem_nil
  chats chat h := absurd h List.not_mem_nil
  posted x h := absurd h List.not_mem_nil
  payloads d data h := by
    rcases h with h | ⟨content, h, -⟩ | ⟨content, h, -⟩
    · exact absurd h (by simp [init, Notifications.init])
    · exact absurd h List.not_mem_nil
    · exact absurd h (by simp [init, Notifications.init])

/-! ## What an operation changes -/

theorem Account.effects (hs : Account fcm s o) (ho : ∀ x ∈ o', Addressed fcm o x) :
    Account fcm s (o ++ o') where
  own := hs.own
  stored u v h := (hs.stored u v h).append o'
  inFlight p h := by
    have hgood := (hs.inFlight p h).append [] o'
    rwa [List.append_nil] at hgood
  chats chat h text htext := by
    obtain ⟨u, hu, htoken⟩ := hs.chats chat h text htext
    exact ⟨u, hu, htoken.append o'⟩
  posted x h := by
    have haddressed : Addressed fcm o x := by
      rcases List.mem_append.mp h with h | h
      · exact hs.posted x h
      · exact ho x h
    cases x with
    | posted d uid model m =>
      refine ⟨haddressed.1, fun text htext => ?_⟩
      obtain ⟨u, hu, htoken⟩ := haddressed.2 text htext
      exact ⟨u, hu, htoken.append o'⟩
    | _ => trivial
  payloads d data h := (hs.payloads d data h).append o'

theorem Account.landed (hs : Account fcm s o) (k : Nat) : Account fcm (s.landed k) o :=
  { hs with inFlight := fun p h => hs.inFlight p (List.mem_of_mem_eraseIdx h) }

theorem Account.await (hs : Account fcm s o) {p : Pending} (hp : Good fcm s.receivers o p) :
    Account fcm (s.await p) o := by
  refine { hs with inFlight := fun q h => ?_ }
  rcases List.mem_append.mp h with h | h
  · exact hs.inFlight q h
  · rw [List.mem_singleton.mp h]
    exact hp

/-- A device changes: it has a token of its own, and holds nothing new that is not
genuine. -/
theorem Account.setDevice (hs : Account fcm s o) {d : Nat} {x : Device}
    (htoken : ∀ token, x.token = some token → token = "" ∨ fcm.device token = some d)
    (hpayloads : ∀ data, Holds x.app data → Holds (s.devices d).app data ∨ Genuine o d data) :
    Account fcm (s.setDevice d x) o := by
  refine { hs with own := fun d' token h => ?_, payloads := fun d' data h => ?_ }
  · by_cases hd : d' = d
    · subst hd
      rw [setDevice_self] at h
      exact htoken token h
    · rw [setDevice_ne hd] at h
      exact hs.own d' token h
  · by_cases hd : d' = d
    · subst hd
      rw [setDevice_self] at h
      rcases hpayloads data h with h | h
      · exact hs.payloads d' data h
      · exact h
    · rw [setDevice_ne hd] at h
      exact hs.payloads d' data h

theorem receivers_setCubit {c : Nat} {chat : Chat} (hc : s.chats[c]? = some chat)
    (cubit : Chats.ChatCubit) : (s.setCubit c chat cubit).receivers = s.receivers := by
  obtain ⟨hlt, -⟩ := List.getElem?_eq_some_iff.mp hc
  show (s.chats.set c { chat with cubit }).map Chat.receiverId = s.chats.map Chat.receiverId
  refine List.ext_getElem? fun i => ?_
  rw [List.getElem?_map, List.getElem?_map]
  by_cases hi : c = i
  · subst hi
    rw [List.getElem?_set_self hlt, hc]
    rfl
  · rw [List.getElem?_set_ne hi]

/-- A cubit gets a token of its receiver, or one that it had. -/
theorem Account.setCubit (hs : Account fcm s o) {c : Nat} {chat : Chat}
    (hc : s.chats[c]? = some chat) {cubit : Chats.ChatCubit}
    (hcubit : ∀ text, cubit.receiverDeviceToken = some text →
      ∃ u, chat.receiverId = some u ∧ TokenOf fcm o u text) :
    Account fcm (s.setCubit c chat cubit) o := by
  refine { hs with
    inFlight := fun p h => by rw [receivers_setCubit hc]; exact hs.inFlight p h
    chats := fun chat' h text htext => ?_ }
  rcases List.mem_or_eq_of_mem_set h with h | rfl
  · exact hs.chats chat' h text htext
  · exact hcubit text htext

/-! ## One step -/

/-- Something happens in an app. -/
theorem Account.app (hs : Account fcm s o) {d : Nat}
    {r : Notifications × List Notifications.Effect}
    (hr : ∀ data, Holds r.1 data → Holds (s.devices d).app data ∨ Genuine o d data) :
    Account fcm (s.setApp d r).1 (o ++ (s.setApp d r).2) := by
  have hdevice : Account fcm (s.setApp d r).1 o :=
    @Account.setDevice fcm s o hs d { s.devices d with app := r.1 } (hs.own d) hr
  refine hdevice.effects fun x hx => ?_
  obtain ⟨y, -, rfl⟩ := List.mem_map.mp hx
  trivial

theorem Account.sendNotification (hs : Account fcm s o) {chat : Chat} (hchat : chat ∈ s.chats)
    (image text : String) :
    Account fcm (s.sendNotification chat image text).1
      (o ++ (s.sendNotification chat image text).2) := by
  unfold Push.sendNotification
  dsimp only
  split
  · rename_i model data hmodel hdata
    -- the notification is put together from the model and the token of the cubit
    rw [Chats.sendNotification, hmodel, Option.bind_some, Option.map_eq_some_iff] at hdata
    obtain ⟨name, hname, rfl⟩ := hdata
    refine Account.await (hs.effects fun x hx => ?_)
      ⟨_, _, _, _, List.mem_append_right o List.mem_cons_self, rfl⟩
    rw [List.mem_singleton.mp hx]
    exact ⟨⟨rfl, hname.symm, rfl⟩, fun text' htext => hs.chats chat hchat text' htext⟩
  · refine hs.effects fun x hx => ?_
    rw [List.mem_singleton.mp hx]
    trivial

/-- A device's own token is one of a device that hosts whoever is registered with it. -/
theorem Account.setDeviceToken (hs : Account fcm s o) (d : Nat) :
    Account fcm (s.setDeviceToken d).1 (o ++ (s.setDeviceToken d).2) := by
  have hregistered : Account fcm s (o ++ (s.setDeviceToken d).2) := by
    refine hs.effects fun x hx => ?_
    rw [List.mem_singleton.mp hx]
    trivial
  refine hregistered.await fun u hu d' hd' => ?_
  have hhosted : Hosted (o ++ (s.setDeviceToken d).2) d u := by
    refine ⟨(s.devices d).token, List.mem_append_right o ?_⟩
    rw [← hu]
    exact List.mem_cons_self
  cases htoken : (s.devices d).token with
  | none =>
    rw [htoken] at hd'
    exact absurd (fcm.null.symm.trans hd') (by simp)
  | some token =>
    rw [htoken] at hd'
    rcases hs.own d token htoken with rfl | hown
    · exact absurd (fcm.empty.symm.trans hd') (by simp)
    · rw [← Option.some.inj (hown.symm.trans hd')]
      exact hhosted

theorem Account.store (hs : Account fcm s o) {uid token : Option String}
    (hgood : ∀ u, uid = some u → TokenOf fcm o u (toText token)) :
    Account fcm (s.store uid token) o := by
  cases uid with
  | none => exact hs
  | some u =>
    refine { hs with stored := fun u' v h => ?_ }
    by_cases hu : u' = u
    · have hv : some token = some v := (if_pos hu).symm.trans h
      rw [← Option.some.inj hv, hu]
      exact hgood u rfl
    · have hv : s.tokens u' = some v := (if_neg hu).symm.trans h
      exact hs.stored u' v hv

theorem Account.openChat (hs : Account fcm s o) {d : Nat} (h : s.openChat d = some s') :
    Account fcm s' o := by
  unfold Push.openChat at h
  split at h
  · rename_i receiverId _ _ _
    obtain rfl := Option.some.inj h
    refine { hs with inFlight := fun p hp => ?_, chats := fun chat hchat text htext => ?_ }
    · have hgood := (hs.inFlight p hp).append [receiverId] []
      rw [List.append_nil] at hgood
      show Good fcm (List.map Chat.receiverId (s.chats ++ _)) o p
      rw [List.map_append]
      exact hgood
    · rcases List.mem_append.mp hchat with hchat | hchat
      · exact hs.chats chat hchat text htext
      · rw [List.mem_singleton.mp hchat] at htext
        exact absurd htext (by simp)
  · exact absurd h (by simp)

theorem running_eq {c : Nat} {chat : Chat} (h : s.running c = some chat) :
    s.chats[c]? = some chat := by
  unfold running at h
  split at h
  · rename_i chat' hc
    split at h
    · rw [hc, Option.some.inj h]
    · exact absurd h (by simp)
  · exact absurd h (by simp)

/-- What a message brings was posted, and its device has hosted the receiver. -/
theorem Account.genuine (hs : Account fcm s o) {k d : Nat} {body : Body}
    (hk : s.inFlight[k]? = some (.post body)) (hd : body.to_.bind fcm.device = some d) :
    Genuine o d (Data.fromJson body.message.data) := by
  obtain ⟨d', uid, model, m, hmem, rfl⟩ := hs.inFlight _ (List.mem_of_getElem? hk)
  have hdata : Data.fromJson m.toJson.message.data = m.data := Data.fromJson_toJson m.data
  rw [hdata]
  obtain ⟨hfrom, hto⟩ := hs.posted _ hmem
  obtain ⟨text, htext, hdevice⟩ := Option.bind_eq_some_iff.mp hd
  obtain ⟨u, hu, htoken⟩ := hto text htext
  exact ⟨⟨d', uid, model, m, hmem, rfl, hfrom⟩, u, hu, htoken d hdevice⟩

theorem step_account {e : Event} (hs : Account fcm s o) (h : step fcm s e = some (s', o')) :
    Account fcm s' (o ++ o') := by
  have hquiet : ∀ {t : Push}, Account fcm t o → some (t, []) = some (s', o') →
      Account fcm s' (o ++ o') := by
    intro t ht heq
    obtain ⟨rfl, rfl⟩ := Prod.mk.inj (Option.some.inj heq)
    rwa [List.append_nil]
  have hpair : ∀ {r : Push × List Effect}, Account fcm r.1 (o ++ r.2) → some r = some (s', o') →
      Account fcm s' (o ++ o') := by
    intro r hr heq
    rwa [Option.some.inj heq] at hr
  cases e with
  | app d e =>
    simp only [step] at h
    split at h
    · rename_i he
      obtain ⟨⟨app, x⟩, hstep, heq⟩ := Option.map_eq_some_iff.mp h
      have hquiet := step_quiet he hstep
      exact hpair (hs.app fun data hdata => Or.inl (hquiet.holds data hdata)) (congrArg some heq)
    · exact absurd h (by simp)
  | restart d uId =>
    refine hquiet (hs.setDevice (fun token htoken => ?_) fun data hdata => ?_) h
    · exact Or.inl (Option.some.inj htoken).symm
    · rcases hdata with hdata | ⟨content, hdata, -⟩ | hdata
      · exact absurd hdata (by simp [Notifications.init])
      · exact absurd hdata List.not_mem_nil
      · exact Or.inl (Or.inr (Or.inr hdata))
  | getToken d value =>
    simp only [step] at h
    split at h
    · rename_i hvalue
      have hdevice : Account fcm (s.setDevice d { s.devices d with token := value }) o := by
        refine hs.setDevice (fun token htoken => ?_) fun data hdata => Or.inl hdata
        have htoken : value = some token := htoken
        rw [htoken] at hvalue
        exact Or.inr (of_decide_eq_true hvalue)
      exact hquiet hdevice h
    · exact absurd h (by simp)
  | buildHome d => exact hpair (hs.setDeviceToken d) h
  | openChat d =>
    obtain ⟨t, ht, heq⟩ := Option.map_eq_some_iff.mp h
    exact hquiet (hs.openChat ht) (congrArg some heq)
  | buildChat c model =>
    obtain ⟨chat, hchat, heq⟩ := Option.map_eq_some_iff.mp h
    have hc := running_eq hchat
    have hcubit : Account fcm (s.setCubit c chat { chat.cubit with model }) o :=
      hs.setCubit hc (hs.chats chat (List.mem_of_getElem? hc))
    have hlookup : Account fcm (s.buildChat c chat model) o :=
      hcubit.await fun v hv => absurd hv (by simp)
    exact hquiet hlookup (congrArg some heq)
  | sendText c text =>
    simp only [step] at h
    split at h
    · exact absurd h (by simp)
    · obtain ⟨chat, hchat, heq⟩ := Option.map_eq_some_iff.mp h
      have hmem := List.mem_of_getElem? (running_eq hchat)
      exact hpair (hs.sendNotification hmem "" text) (congrArg some heq)
  | sendImage c image =>
    obtain ⟨chat, hchat, heq⟩ := Option.map_eq_some_iff.mp h
    have hmem := List.mem_of_getElem? (running_eq hchat)
    exact hpair (hs.sendNotification hmem image "") (congrArg some heq)
  | stored k =>
    simp only [step] at h
    split at h
    · rename_i uid token hk
      exact hquiet ((hs.landed k).store (hs.inFlight _ (List.mem_of_getElem? hk))) h
    · exact absurd h (by simp)
  | read k =>
    simp only [step] at h
    split at h
    · rename_i c hk
      obtain ⟨chat, hc, heq⟩ := Option.map_eq_some_iff.mp h
      have hgood : Good fcm s.receivers o (.lookup c (some (s.document chat.receiverId))) := by
        intro v hv
        obtain ⟨u, hu, hstored⟩ := Option.bind_eq_some_iff.mp (Option.some.inj hv)
        refine ⟨u, ?_, hs.stored u v hstored⟩
        rw [receivers, List.getElem?_map, hc, Option.map_some, hu]
      have hread : Account fcm (s.readDocument k c chat) o := by
        refine { hs with inFlight := fun p hp => ?_ }
        rcases List.mem_or_eq_of_mem_set hp with hp | rfl
        · exact hs.inFlight p hp
        · exact hgood
      exact hquiet hread (congrArg some heq)
    · exact absurd h (by simp)
  | found k =>
    simp only [step] at h
    split at h
    · rename_i c read hk
      obtain ⟨chat, hchat, heq⟩ := Option.map_eq_some_iff.mp h
      have hc := running_eq hchat
      refine hquiet ?_ (congrArg some heq)
      cases hread : read with
      | none => exact hs.landed k
      | some v =>
        refine (hs.landed k).setCubit hc fun text htext => ?_
        obtain ⟨u, hu, htoken⟩ := hs.inFlight _ (List.mem_of_getElem? hk) v (by rw [hread])
        have hreceiver : s.receivers[c]? = some chat.receiverId := by
          rw [receivers, List.getElem?_map, hc, Option.map_some]
        rw [← Option.some.inj htext]
        exact ⟨u, Option.some.inj (hreceiver.symm.trans hu), htoken⟩
    · exact absurd h (by simp)
  | delivered k background shared =>
    simp only [step] at h
    split at h
    · rename_i body hk
      obtain ⟨d, hd, heq⟩ := Option.map_eq_some_iff.mp h
      have hgenuine := hs.genuine hk hd
      refine hpair ((hs.landed k).app fun data hdata => ?_) (congrArg some heq)
      rcases (deliver_received background shared body (s.devices d).app).holds data hdata with
        hheld | rfl
      · exact Or.inl hheld
      · exact Or.inr hgenuine
    · exact absurd h (by simp)
  | lost k =>
    simp only [step] at h
    split at h
    · exact hquiet (hs.landed k) h
    · exact absurd h (by simp)

theorem run_account {es : List Event} (hrun : (machine fcm).run init es = some (s, o)) :
    Account fcm s o :=
  Reactive.Machine.run_preserves (I := Account fcm) (fun _ _ _ _ _ hs h => step_account hs h)
    init_account hrun

/-- Every payload that an app holds, displayed or not, is one that some sender has posted
with the name and picture that the sender's app had, to a receiver who has had the home
screen on this very device. -/
theorem payloads_genuine {es : List Event} (hrun : (machine fcm).run init es = some (s, o))
    {d : Nat} {data : Data} (hdata : Holds (s.devices d).app data) : Genuine o d data :=
  (run_account hrun).payloads d data hdata

/-! ## A message from bob to ann -/

def twoDevices : Fcm :=
  { device := fun text =>
      if text = "token of 0" then some 0 else if text = "token of 1" then some 1 else none
    empty := by decide
    null := by decide }

def bob : LoginModel :=
  { name := some "Bob", phone := none, email := none, uid := some "bob",
    image := some "bob.jpg", cover := none, bio := none, isEmailVarified := none }

/-- ann has the home screen on the first device, and bob writes to her on the second. -/
def hiFromBob : List Event :=
  [.app 0 (.login "ann"), .getToken 0 (some "token of 0"), .buildHome 0, .stored 0,
    .app 1 (.login "bob"), .app 1 (.openFromUsers (some "Ann") (some "ann.jpg") (some "ann")),
    .openChat 1, .buildChat 0 (some bob), .read 0, .found 0, .sendText 0 "hi",
    .delivered 0 false false, .app 0 (.displayed 0)]

def payloadOfBob : Data :=
  { uid := some "bob", receiverUid := some "ann", image := some "bob.jpg", name := some "Bob",
    notificationImage := some "" }

theorem payloads_genuine_hiFromBob :
    ∃ s o, (machine twoDevices).run init hiFromBob = some (s, o) ∧ Genuine o 0 payloadOfBob :=
  ⟨_, _, rfl, @payloads_genuine twoDevices _ _ hiFromBob rfl 0 payloadOfBob (Or.inl rfl)⟩

end Push
end SocialApp
