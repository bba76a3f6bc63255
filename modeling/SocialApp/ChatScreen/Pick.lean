import SocialApp.ChatScreen.Step
import SocialApp.Reactive.InFlight
import Mathlib.Data.List.Forall2
import Mathlib.Data.List.Nodup

/-! # Images of overlapping picks

The fields `selectedMessageImage`, `fileMessageImage` and `messageImage` are shared by
all picks of a cubit, but each is read only in the step that assigned it.  What a pick
carries from step to step is in its callbacks. -/

namespace SocialApp
namespace ChatScreen

/-! ## The record of a run -/

def receiverOf : Effect → Option String
  | .picked receiverId => some receiverId
  | _ => none

/-- The receivers of the calls of `pickMessageImage`, by their numbers. -/
def receivers (o : List Effect) : List String := o.filterMap receiverOf

def endOf : Effect → Option (Nat × End)
  | .ended n outcome => some (n, outcome)
  | _ => none

/-- The picks that have ended. -/
def ended (o : List Effect) : List (Nat × End) := o.filterMap endOf

def urlOf : Nat × End → Option (Nat × String)
  | (n, .obtained url) => some (n, url)
  | _ => none

/-- The uploads whose download URL was obtained. -/
def obtained (o : List Effect) : List (Nat × String) := (ended o).filterMap urlOf

def imageOf : Effect → Option (String × String)
  | .started call _ => if call.notifies then some (call.image, call.receiverId) else none
  | _ => none

/-- The calls of `sendImageToChat`: the image, and the receiver. -/
def sends (o : List Effect) : List (String × String) := o.filterMap imageOf

/-- A call sends the URL of the upload to the receiver of its pick. -/
def SendsOwn (o : List Effect) (upload : Nat × String) (send : String × String) : Prop :=
  send.1 = upload.2 ∧ (receivers o)[upload.1]? = some send.2

/-- There is one call for each upload whose URL was obtained, and a pick ends once. -/
structure SentOnce (o : List Effect) : Prop where
  sends : List.Forall₂ (SendsOwn o) (obtained o) (sends o)
  once : ((ended o).map Prod.fst).Nodup
  picked : ∀ x ∈ ended o, x.1 < (receivers o).length
  safe : .throws .fileMessageImage ∉ o

def pickOf : Pending → Option (Nat × String)
  | .permission n _ receiverId => some (n, receiverId)
  | .picker n receiverId => some (n, receiverId)
  | .putFile n receiverId => some (n, receiverId)
  | .downloadURL n receiverId => some (n, receiverId)
  | _ => none

/-- The picks under way, with the receiver that their callbacks have captured. -/
def underway (s : ChatScreen) : List (Nat × String) := s.inFlight.filterMap pickOf

/-! ## One step -/

/-- The effects are no part of a pick's record. -/
def Quiet (o : List Effect) : Prop :=
  ∀ x ∈ o, receiverOf x = none ∧ endOf x = none ∧ imageOf x = none ∧
    x ≠ .throws .fileMessageImage

theorem Quiet.receivers {o : List Effect} (h : Quiet o) : receivers o = [] :=
  List.filterMap_eq_nil_iff.mpr fun x hx => (h x hx).1

theorem Quiet.ended {o : List Effect} (h : Quiet o) : ended o = [] :=
  List.filterMap_eq_nil_iff.mpr fun x hx => (h x hx).2.1

theorem Quiet.sends {o : List Effect} (h : Quiet o) : sends o = [] :=
  List.filterMap_eq_nil_iff.mpr fun x hx => (h x hx).2.2.1

theorem Quiet.safe {o : List Effect} (h : Quiet o) : .throws .fileMessageImage ∉ o :=
  fun hmem => (h _ hmem).2.2.2 rfl

/-- What a step does to the picks. -/
inductive PickStep (s s' : ChatScreen) (o : List Effect) : Prop
  | quiet (picks : s'.picks = s.picks) (underway : s'.underway.Perm s.underway) (quiet : Quiet o)
  | picked {receiverId : String} (picks : s'.picks = s.picks + 1)
      (underway : s'.underway = s.underway ++ [(s.picks, receiverId)])
      (effects : o = [.picked receiverId])
  | ended {n : Nat} {receiverId : String} {outcome : End} {rest : List Effect}
      (picks : s'.picks = s.picks) (underway : ((n, receiverId) :: s'.underway).Perm s.underway)
      (effects : o = .ended n outcome :: rest) (receivers : receivers rest = [])
      (ended : ended rest = []) (safe : .throws .fileMessageImage ∉ rest)
      (sends : sends rest = ((urlOf (n, outcome)).map fun x => (x.2, receiverId)).toList)

theorem underway_landed {s : ChatScreen} {k : Nat} {p : Pending} (hk : s.inFlight[k]? = some p) :
    ((pickOf p).toList ++ (s.landed k).underway).Perm s.underway :=
  (Reactive.filterMap_perm_eraseIdx hk pickOf).symm

theorem underway_await (s : ChatScreen) (ps : List Pending) :
    (s.await ps).underway = s.underway ++ ps.filterMap pickOf := List.filterMap_append

/-- A callback of a pick runs, and the next one of the same pick waits. -/
theorem underway_next {s t : ChatScreen} {k n : Nat} {p q : Pending} {receiverId : String}
    (hk : s.inFlight[k]? = some p) (hp : pickOf p = some (n, receiverId))
    (hq : pickOf q = some (n, receiverId)) (ht : t.inFlight = (s.landed k).inFlight ++ [q]) :
    t.underway.Perm s.underway := by
  have hland := underway_landed hk
  rw [hp] at hland
  have heq : t.underway = (s.landed k).underway ++ [(n, receiverId)] := by
    unfold underway
    rw [ht, List.filterMap_append, List.filterMap_cons_some hq, List.filterMap_nil]
  rw [heq]
  exact List.perm_append_comm.trans hland

theorem sendNotification_cases (call : Call) (thrown : Effect) (s : ChatScreen) :
    s.sendNotification call thrown = thrown ∨
      ∃ data, s.sendNotification call thrown = .setData call data := by
  unfold sendNotification
  split
  · exact Or.inr ⟨_, rfl⟩
  · exact Or.inl rfl

theorem sendButton_quiet (message receiverId now₁ now₂ : String) (s : ChatScreen) :
    Quiet (s.sendButton message receiverId now₁ now₂).2 ∧
      (s.sendButton message receiverId now₁ now₂).1.picks = s.picks ∧
      (s.sendButton message receiverId now₁ now₂).1.underway = s.underway := by
  unfold sendButton
  by_cases hm : message = ""
  · rw [if_pos hm]
    exact ⟨fun x hx => absurd hx List.not_mem_nil, rfl, rfl⟩
  · rw [if_neg hm]
    refine ⟨fun x hx => ?_, rfl, ?_⟩
    · rcases List.mem_append.mp hx with hx | hx
      · simp only [sendMessage, send, List.mem_cons, List.not_mem_nil, or_false] at hx
        rcases hx with rfl | rfl | rfl | rfl
        all_goals exact ⟨rfl, rfl, rfl, by simp⟩
      · rw [List.mem_singleton.mp hx]
        rcases sendNotification_cases _ (.throws .model) s with h | ⟨data, h⟩
        all_goals
          rw [h]
          exact ⟨rfl, rfl, rfl, by simp⟩
    · show (await _ _).underway = _
      rw [underway_await]
      exact List.append_nil _

theorem writeThen_quiet (call : Call) (sent ok : Bool) (s : ChatScreen) :
    Quiet (s.writeThen call sent ok) := by
  intro x hx
  unfold writeThen at hx
  rcases List.mem_cons.mp hx with rfl | hx
  · exact ⟨rfl, rfl, rfl, by simp⟩
  · split at hx
    · rw [List.mem_singleton.mp hx]
      exact ⟨rfl, rfl, rfl, by simp⟩
    · exact absurd hx List.not_mem_nil
    · rcases List.mem_cons.mp hx with rfl | hx
      · exact ⟨rfl, rfl, rfl, by simp⟩
      · split at hx
        · rw [List.mem_singleton.mp hx]
          rcases sendNotification_cases call (.emit .sendMessageError) s with h | ⟨data, h⟩
          all_goals
            rw [h]
            exact ⟨rfl, rfl, rfl, by simp⟩
        · exact absurd hx List.not_mem_nil

/-- A pick ends without a URL. -/
theorem pick_ended {s t : ChatScreen} {k n : Nat} {p : Pending} {receiverId : String}
    {outcome : End} (hk : s.inFlight[k]? = some p) (hp : pickOf p = some (n, receiverId))
    (hpicks : t.picks = s.picks) (ht : t.inFlight = (s.landed k).inFlight)
    (hfailed : urlOf (n, outcome) = none) : PickStep s t [.ended n outcome] := by
  have hland := underway_landed hk
  rw [hp] at hland
  have heq : t.underway = (s.landed k).underway := congrArg (List.filterMap pickOf) ht
  refine .ended hpicks (heq ▸ hland) rfl rfl rfl List.not_mem_nil ?_
  rw [hfailed]
  rfl

/-- The URL of a pick has arrived, and its image is sent. -/
theorem urlThen_pick {s : ChatScreen} {k n : Nat} {receiverId url now₁ now₂ : String}
    (hk : s.inFlight[k]? = some (.downloadURL n receiverId)) :
    PickStep s ((s.landed k).urlThen n receiverId url now₁ now₂).1
      ((s.landed k).urlThen n receiverId url now₁ now₂).2 := by
  have hland := underway_landed hk
  have heq : ((s.landed k).urlThen n receiverId url now₁ now₂).1.underway =
      (s.landed k).underway := by
    show (await _ _).underway = _
    rw [underway_await]
    exact List.append_nil _
  have hsafe : Effect.throws .fileMessageImage ∉
      ((s.landed k).sendImageToChat url receiverId now₁ now₂).2 := by
    simp [sendImageToChat, send]
  exact .ended rfl (heq ▸ hland) rfl rfl rfl hsafe rfl

theorem step_pick {s s' : ChatScreen} {e : Event} {o : List Effect}
    (h : s.step e = some (s', o)) : PickStep s s' o := by
  have hnil : Quiet [] := fun x hx => absurd hx List.not_mem_nil
  cases step_did h with
  | build =>
    refine .quiet rfl ?_ hnil
    show (await _ _).underway.Perm _
    rw [underway_await]
    exact .of_eq (List.append_nil _)
  | sendButton =>
    obtain ⟨hquiet, hpicks, hunderway⟩ := sendButton_quiet _ _ _ _ s
    exact .quiet hpicks (.of_eq hunderway) hquiet
  | pickMessageImage =>
    refine .picked rfl ?_ rfl
    show (await _ _).underway = _
    rw [underway_await]
    rfl
  | granted request =>
    exact .quiet rfl (underway_next request rfl rfl rfl)
      (by simp [Quiet, receiverOf, endOf, imageOf])
  | picker request =>
    exact .quiet rfl (underway_next request rfl rfl rfl)
      (by simp [Quiet, receiverOf, endOf, imageOf, pickerThen, uploadMessageImage])
  | put request => exact .quiet rfl (underway_next request rfl rfl rfl) hnil
  | denied request => exact pick_ended request rfl rfl rfl rfl
  | cancelled request => exact pick_ended request rfl rfl rfl rfl
  | pickerFailed request => exact pick_ended request rfl rfl rfl rfl
  | putFailed request => exact pick_ended request rfl rfl rfl rfl
  | urlFailed request => exact pick_ended request rfl rfl rfl rfl
  | url request => exact urlThen_pick request
  | @token k receiverUid value request =>
    have hland := underway_landed request
    cases value with
    | none => exact .quiet rfl hland hnil
    | some v => exact .quiet rfl hland hnil
  | settled request => exact .quiet rfl (underway_landed request) (writeThen_quiet _ _ _ _)
  | setDeviceToken => exact .quiet rfl (.refl _) hnil
  | user => exact .quiet rfl (.refl _) hnil

/-! ## Runs -/

/-- The picks that have ended and those under way are the ones that were begun, and
each callback has the receiver of its own pick. -/
structure Account (s : ChatScreen) (o : List Effect) : Prop where
  picks : (receivers o).length = s.picks
  own : ∀ x ∈ s.underway, (receivers o)[x.1]? = some x.2
  once : (s.underway.map Prod.fst ++ (ended o).map Prod.fst).Perm (List.range s.picks)
  sends : List.Forall₂ (SendsOwn o) (obtained o) (sends o)
  safe : .throws .fileMessageImage ∉ o

theorem receivers_append (o o' : List Effect) :
    receivers (o ++ o') = receivers o ++ receivers o' := List.filterMap_append

theorem ended_append (o o' : List Effect) : ended (o ++ o') = ended o ++ ended o' :=
  List.filterMap_append

theorem obtained_append (o o' : List Effect) :
    obtained (o ++ o') = obtained o ++ obtained o' := by
  unfold obtained
  rw [ended_append, List.filterMap_append]

theorem sends_append (o o' : List Effect) : sends (o ++ o') = sends o ++ sends o' :=
  List.filterMap_append

/-- Later effects do not change which receiver a pick was for. -/
theorem SendsOwn.append {o : List Effect} (o' : List Effect) {upload : Nat × String}
    {send : String × String} (h : SendsOwn o upload send) : SendsOwn (o ++ o') upload send := by
  refine ⟨h.1, ?_⟩
  rw [receivers_append, List.getElem?_append_left (List.getElem?_eq_some_iff.mp h.2).1]
  exact h.2

/-- Nothing happens to a pick. -/
theorem account_quiet {s s' : ChatScreen} {o o' : List Effect} (hs : Account s o)
    (picks : s'.picks = s.picks) (underway : s'.underway.Perm s.underway) (quiet : Quiet o') :
    Account s' (o ++ o') := by
  have hsends := hs.sends.imp fun _ _ hx => hx.append o'
  refine { picks := ?_, own := fun x hx => ?_, once := ?_, sends := ?_, safe := ?_ }
  · rw [receivers_append, quiet.receivers, List.append_nil, picks]
    exact hs.picks
  · rw [receivers_append, quiet.receivers, List.append_nil]
    exact hs.own x (underway.mem_iff.mp hx)
  · rw [ended_append, quiet.ended, List.append_nil, picks]
    exact ((underway.map _).append_right _).trans hs.once
  · rw [obtained_append, sends_append, quiet.sends, List.append_nil]
    unfold obtained at hsends ⊢
    rw [quiet.ended, List.filterMap_nil, List.append_nil]
    exact hsends
  · intro hmem
    exact (List.mem_append.mp hmem).elim hs.safe quiet.safe

/-- A pick begins, with the next number. -/
theorem account_picked {s s' : ChatScreen} {o : List Effect} {receiverId : String}
    (hs : Account s o) (picks : s'.picks = s.picks + 1)
    (underway : s'.underway = s.underway ++ [(s.picks, receiverId)]) :
    Account s' (o ++ [.picked receiverId]) := by
  have hsends := hs.sends.imp fun _ _ hx => hx.append [.picked receiverId]
  refine { picks := ?_, own := fun x hx => ?_, once := ?_, sends := ?_, safe := ?_ }
  · rw [receivers_append, List.length_append, hs.picks, picks]
    rfl
  · rw [receivers_append]
    rw [underway] at hx
    rcases List.mem_append.mp hx with hx | hx
    · have hown := hs.own x hx
      rw [List.getElem?_append_left (List.getElem?_eq_some_iff.mp hown).1]
      exact hown
    · rw [List.mem_singleton.mp hx, ← hs.picks]
      exact List.getElem?_concat_length
  · have hnone : ended [.picked receiverId] = [] := rfl
    rw [underway, ended_append, hnone, List.append_nil, picks, List.range_succ,
      List.map_append, List.append_assoc]
    refine (List.perm_append_comm.append_left _).trans ?_
    rw [← List.append_assoc]
    exact hs.once.append_right _
  · rw [obtained_append, sends_append]
    exact List.rel_append hsends .nil
  · intro hmem
    exact (List.mem_append.mp hmem).elim hs.safe (by simp)

/-- What the end of a pick sends is sent to the receiver of that pick. -/
theorem sendsOwn_of_end {o : List Effect} {n : Nat} {receiverId : String} (outcome : End)
    (hown : (receivers o)[n]? = some receiverId) :
    List.Forall₂ (SendsOwn o) ([(n, outcome)].filterMap urlOf)
      ((urlOf (n, outcome)).map fun x => (x.2, receiverId)).toList := by
  cases outcome with
  | obtained url => exact .cons ⟨rfl, hown⟩ .nil
  | _ => exact .nil

/-- A pick ends, and sends its image when it has a URL. -/
theorem account_ended {s s' : ChatScreen} {o rest : List Effect} {n : Nat} {receiverId : String}
    {outcome : End} (hs : Account s o) (picks : s'.picks = s.picks)
    (underway : ((n, receiverId) :: s'.underway).Perm s.underway)
    (hreceivers : receivers rest = []) (hended : ended rest = [])
    (hsafe : .throws .fileMessageImage ∉ rest)
    (hsent : sends rest = ((urlOf (n, outcome)).map fun x => (x.2, receiverId)).toList) :
    Account s' (o ++ .ended n outcome :: rest) := by
  have hsends := hs.sends.imp fun _ _ hx => hx.append (.ended n outcome :: rest)
  have hnone : receivers (.ended n outcome :: rest) = [] := hreceivers
  have hone : ended (.ended n outcome :: rest) = [(n, outcome)] := by
    show (n, outcome) :: ended rest = _
    rw [hended]
  have hown := hs.own _ (underway.mem_iff.mp List.mem_cons_self)
  refine { picks := ?_, own := fun x hx => ?_, once := ?_, sends := ?_, safe := ?_ }
  · rw [receivers_append, hnone, List.append_nil, picks]
    exact hs.picks
  · rw [receivers_append, hnone, List.append_nil]
    exact hs.own x (underway.mem_iff.mp (List.mem_cons_of_mem _ hx))
  · rw [ended_append, hone, picks, List.map_append]
    refine List.Perm.trans ?_ (((underway.map Prod.fst).append_right _).trans hs.once)
    show (s'.underway.map Prod.fst ++ ((ended o).map Prod.fst ++ [n])).Perm
      (n :: (s'.underway.map Prod.fst ++ (ended o).map Prod.fst))
    rw [← List.append_assoc]
    exact List.perm_append_singleton n _
  · rw [obtained_append, sends_append]
    refine List.rel_append hsends ?_
    show List.Forall₂ _ ((ended (.ended n outcome :: rest)).filterMap urlOf) (sends rest)
    rw [hone, hsent]
    refine sendsOwn_of_end outcome ?_
    rw [receivers_append, hnone, List.append_nil]
    exact hown
  · intro hthrows
    rcases List.mem_append.mp hthrows with hthrows | hthrows
    · exact hs.safe hthrows
    · rcases List.mem_cons.mp hthrows with heq | hthrows
      · exact absurd heq (by simp)
      · exact hsafe hthrows

theorem step_account {s s' : ChatScreen} {e : Event} {o o' : List Effect} (hs : Account s o)
    (h : s.step e = some (s', o')) : Account s' (o ++ o') := by
  cases step_pick h with
  | quiet picks underway quiet => exact account_quiet hs picks underway quiet
  | picked picks underway effects =>
    rw [effects]
    exact account_picked hs picks underway
  | ended picks underway effects hreceivers hended hsafe hsent =>
    rw [effects]
    exact account_ended hs picks underway hreceivers hended hsafe hsent

theorem init_account (uId : Option String) (stored : String → Option (Option String)) :
    Account (init uId stored) [] :=
  { picks := rfl, own := fun _ hx => absurd hx List.not_mem_nil, once := .refl _, sends := .nil
    safe := List.not_mem_nil }

/-- In every run each upload whose download URL is obtained leads to one call of
`sendImageToChat`, with its own URL and the receiver of its own pick, no other pick
leads to one, and `fileMessageImage` is never null where it is read. -/
theorem images_sent_once {uId : Option String} {stored : String → Option (Option String)}
    {es : List Event} {s : ChatScreen} {o : List Effect}
    (hrun : machine.run (init uId stored) es = some (s, o)) : SentOnce o := by
  have hs := Reactive.Machine.run_preserves (M := machine) (I := Account)
    (fun _ _ _ _ _ hs hstep => step_account hs hstep) (init_account uId stored) hrun
  refine { sends := hs.sends, once := ?_, picked := fun x hx => ?_, safe := hs.safe }
  · have hnodup := hs.once.nodup_iff.mpr List.nodup_range
    exact (List.nodup_append.mp hnodup).2.1
  · rw [hs.picks, ← List.mem_range, ← hs.once.mem_iff]
    exact List.mem_append_right _ (List.mem_map_of_mem hx)

/-- Two picks overlap, and the URL of the second arrives first. -/
def twoPicks : List Event :=
  [.pickMessageImage false "bob", .pickMessageImage false "eve", .permission 0 true,
    .permission 0 true, .picker 0 (some ⟨"/tmp/a.jpg", "a.jpg"⟩),
    .picker 0 (some ⟨"/tmp/b.jpg", "b.jpg"⟩), .putFile 1 true, .putFile 0 true,
    .url 0 (some "b") "1" "2", .url 0 (some "a") "3" "4"]

theorem images_sent_once_twoPicks :
    ∃ s o, machine.run (init (some "ann") fun _ => none) twoPicks = some (s, o) ∧
      sends o = [("b", "eve"), ("a", "bob")] ∧ SentOnce o :=
  ⟨_, _, rfl, rfl, @images_sent_once (some "ann") (fun _ => none) twoPicks _ _ rfl⟩

end ChatScreen
end SocialApp
