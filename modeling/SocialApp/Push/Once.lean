import SocialApp.Push.Registry
import SocialApp.Reactive.InFlight

/-! # No notification comes twice

A notification that is posted is on its way until one device has been given it, and the
app of that device displays it at most once. -/

namespace SocialApp
namespace Push

variable {fcm : Fcm} {s s' : Push} {o o' : List Effect}

def postedOf : Effect → Option Data
  | .posted _ _ _ m => some m.data
  | _ => none

/-- The payloads of the notifications that were posted. -/
def posted (o : List Effect) : List Data := o.filterMap postedOf

def displayedOf : Effect → Option Data
  | .app _ x => createdOf x
  | _ => none

/-- The payloads of the notifications that some app has created. -/
def displayed (o : List Effect) : List Data := o.filterMap displayedOf

def messageOf : Pending → Option Data
  | .post body => some (Data.fromJson body.message.data)
  | _ => none

/-- The payloads that FCM has yet to deliver. -/
def underway (s : Push) : List Data := s.inFlight.filterMap messageOf

/-- Each payload was posted as often as it has been displayed or is on its way, or more. -/
def Accounted (s : Push) (o : List Effect) : Prop :=
  ∀ data, (displayed o).count data + (underway s).count data ≤ (posted o).count data

/-- What one step adds to either side. -/
def Covered (s s' : Push) (o : List Effect) : Prop :=
  ∀ data, (displayed o).count data + (underway s').count data ≤
    (underway s).count data + (posted o).count data

theorem Accounted.step (hs : Accounted s o) (h : Covered s s' o') : Accounted s' (o ++ o') := by
  intro data
  have hbefore := hs data
  have hstep := h data
  rw [displayed, List.filterMap_append, List.count_append, posted, List.filterMap_append,
    List.count_append]
  simp only [displayed, posted] at hbefore hstep
  omega

/-- Nothing is posted or displayed, and no message gets on its way. -/
theorem covered_of_sublist (h : (underway s').Sublist (underway s)) : Covered s s' [] := by
  intro data
  have hle := h.count_le data
  show 0 + _ ≤ _ + 0
  omega

theorem landed_covered {t : Push} (k : Nat) (h : t.inFlight = s.inFlight.eraseIdx k) :
    Covered s t [] := by
  refine covered_of_sublist ?_
  rw [underway, h]
  exact (List.eraseIdx_sublist _ _).filterMap messageOf

theorem displayed_app (d : Nat) (x : List Notifications.Effect) :
    displayed (x.map (.app d)) = created x := by
  rw [displayed, List.filterMap_map]
  rfl

theorem posted_app (d : Nat) (x : List Notifications.Effect) : posted (x.map (.app d)) = [] := by
  rw [posted, List.filterMap_map, List.filterMap_eq_nil_iff]
  intro y _
  rfl

theorem sendNotification_covered (chat : Chat) (image text : String) (s : Push) :
    Covered s (s.sendNotification chat image text).1 (s.sendNotification chat image text).2 := by
  unfold Push.sendNotification
  dsimp only
  split
  · rename_i model m _ _
    intro data
    have hdata : Data.fromJson m.toJson.message.data = m.data := Data.fromJson_toJson m.data
    have hunderway : underway (s.await (.post m.toJson)) = underway s ++ [m.data] := by
      rw [underway, await, List.filterMap_append]
      show _ ++ [Data.fromJson m.toJson.message.data] = _
      rw [hdata]
      rfl
    rw [hunderway, List.count_append]
    exact Nat.le_of_eq (Nat.zero_add _)
  · exact covered_of_sublist (List.Sublist.refl _)

theorem deliver_covered {k d : Nat} {body : Body} (background shared : Bool)
    (hk : s.inFlight[k]? = some (.post body)) :
    Covered s ((s.landed k).deliver d body background shared).1
      ((s.landed k).deliver d body background shared).2 := by
  intro data
  have hperm : (Data.fromJson body.message.data :: underway (s.landed k)).Perm (underway s) :=
    Reactive.filterMap_eraseIdx_some hk rfl
  have hcount := hperm.count_eq data
  have hsame : underway ((s.landed k).deliver d body background shared).1 =
      underway (s.landed k) := rfl
  rw [List.count_cons] at hcount
  rw [hsame, deliver, setApp, displayed_app, posted_app]
  rcases (deliver_received background shared body ((s.landed k).devices d).app).created with
    hcreated | hcreated
  · rw [hcreated, List.count_nil]
    omega
  · rw [hcreated, List.count_cons, List.count_nil]
    omega

theorem step_covered {e : Event} (h : step fcm s e = some (s', o')) : Covered s s' o' := by
  have hsame : ∀ {t : Push}, some (t, []) = some (s', o') → underway t = underway s →
      Covered s s' o' := by
    intro t heq hsame
    obtain ⟨rfl, rfl⟩ := Prod.mk.inj (Option.some.inj heq)
    exact covered_of_sublist (hsame ▸ List.Sublist.refl _)
  have hpair : ∀ {r : Push × List Effect}, some r = some (s', o') → Covered s r.1 r.2 →
      Covered s s' o' := by
    intro r heq hr
    rwa [Option.some.inj heq] at hr
  cases e with
  | app d e =>
    simp only [step] at h
    split at h
    · rename_i he
      obtain ⟨⟨app, x⟩, hstep, heq⟩ := Option.map_eq_some_iff.mp h
      refine hpair (congrArg some heq) fun data => ?_
      rw [setApp, displayed_app, posted_app, (step_quiet he hstep).created]
      exact Nat.le_of_eq (Nat.zero_add _)
    · exact absurd h (by simp)
  | restart d uId => exact hsame h rfl
  | getToken d value =>
    simp only [step] at h
    split at h
    · exact hsame h rfl
    · exact absurd h (by simp)
  | buildHome d =>
    refine hpair h fun data => ?_
    have hawait : underway (s.setDeviceToken d).1 = underway s := by
      rw [underway, setDeviceToken, await, List.filterMap_append]
      exact List.append_nil _
    rw [hawait]
    exact Nat.le_of_eq (Nat.zero_add _)
  | openChat d =>
    obtain ⟨t, ht, heq⟩ := Option.map_eq_some_iff.mp h
    refine hsame (congrArg some heq) ?_
    unfold Push.openChat at ht
    split at ht
    · rw [← Option.some.inj ht]
      rfl
    · exact absurd ht (by simp)
  | buildChat c model =>
    obtain ⟨chat, hchat, heq⟩ := Option.map_eq_some_iff.mp h
    refine hsame (congrArg some heq) ?_
    rw [underway, buildChat, await, List.filterMap_append]
    exact List.append_nil _
  | sendText c text =>
    simp only [step] at h
    split at h
    · exact absurd h (by simp)
    · obtain ⟨chat, hchat, heq⟩ := Option.map_eq_some_iff.mp h
      exact hpair (congrArg some heq) (sendNotification_covered chat "" text s)
  | sendImage c image =>
    obtain ⟨chat, hchat, heq⟩ := Option.map_eq_some_iff.mp h
    exact hpair (congrArg some heq) (sendNotification_covered chat image "" s)
  | stored k =>
    simp only [step] at h
    split at h
    · rename_i uid token hk
      refine hpair h (landed_covered k ?_)
      cases uid <;> rfl
    · exact absurd h (by simp)
  | read k =>
    simp only [step] at h
    split at h
    · rename_i c hk
      obtain ⟨chat, hc, heq⟩ := Option.map_eq_some_iff.mp h
      exact hsame (congrArg some heq) (Reactive.filterMap_set hk rfl)
    · exact absurd h (by simp)
  | found k =>
    simp only [step] at h
    split at h
    · rename_i c read hk
      obtain ⟨chat, hchat, heq⟩ := Option.map_eq_some_iff.mp h
      refine hpair (congrArg some heq) (landed_covered k ?_)
      cases read <;> rfl
    · exact absurd h (by simp)
  | delivered k background shared =>
    simp only [step] at h
    split at h
    · rename_i body hk
      obtain ⟨d, hd, heq⟩ := Option.map_eq_some_iff.mp h
      exact hpair (congrArg some heq) (deliver_covered background shared hk)
    · exact absurd h (by simp)
  | lost k =>
    simp only [step] at h
    split at h
    · exact hpair h (landed_covered k rfl)
    · exact absurd h (by simp)

theorem init_accounted : Accounted init [] := fun _ => Nat.le_refl 0

/-- However messages are delayed or lost, and wherever they are delivered, no notification
is displayed more often, on all devices together, than it was posted. -/
theorem displayed_at_most_once {es : List Event}
    (hrun : (machine fcm).run init es = some (s, o)) (data : Data) :
    (displayed o).count data + (underway s).count data ≤ (posted o).count data :=
  Reactive.Machine.run_preserves (I := Accounted)
    (fun _ _ _ _ _ hs h => hs.step (step_covered h)) init_accounted hrun data

theorem displayed_at_most_once_hiFromBob :
    ∃ s o, (machine twoDevices).run init hiFromBob = some (s, o) ∧
      (displayed o).count payloadOfBob + (underway s).count payloadOfBob ≤
        (posted o).count payloadOfBob :=
  ⟨_, _, rfl, @displayed_at_most_once twoDevices _ _ hiFromBob rfl payloadOfBob⟩

end Push
end SocialApp
