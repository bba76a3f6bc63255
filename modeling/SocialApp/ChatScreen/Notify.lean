import SocialApp.ChatScreen.Pick
import SocialApp.Chats.Outcome

/-! # The notifications of a chat screen

A text is announced by the tap that sends it, before either of its writes has settled,
and an image when the sender's own copy is written.  Both go to the token that the
last answered lookup has left in the cubit. -/

namespace SocialApp
namespace ChatScreen

/-- A notification is posted for a call. -/
def Posted (o : List Effect) (call : Call) : Prop := ∃ data, .setData call data ∈ o

/-- The write to the receiver's mailbox succeeds. -/
def Delivered (o : List Effect) (call : Call) : Prop :=
  ∃ cubit, .settled call false true cubit ∈ o

/-- Both writes of a call have settled. -/
def Settled (o : List Effect) (call : Call) : Prop :=
  ∀ sent, ∃ ok cubit, .settled call sent ok cubit ∈ o

/-- The calls that have settled are announced exactly when the receiver has their
message. -/
def Matched (o : List Effect) : Prop :=
  ∀ call, Settled o call → (Posted o call ↔ Delivered o call)

/-- The model has a name when the text is tapped, or when the sender's own copy of the
image is written. -/
def Due (o : List Effect) (call : Call) : Prop :=
  if call.notifies then ∃ cubit, .settled call true true cubit ∈ o ∧ cubit.named = true
  else ∃ cubit, .started call cubit ∈ o ∧ cubit.named = true

/-- The notification is due exactly when the write to the receiver's mailbox succeeds. -/
def Agrees (o : List Effect) : Prop :=
  ∀ call, Settled o call → (Due o call ↔ Delivered o call)

/-- What is posted is addressed to the token that is stored for the receiver. -/
def Addressed (s : ChatScreen) (o : List Effect) : Prop :=
  ∀ call data, .setData call data ∈ o →
    ∃ token, data.to_ = some token ∧ s.stored call.receiverId = some (some token)

/-- The event announces a message to `receiverId`. -/
def Announces (s : ChatScreen) (e : Event) (receiverId : String) : Prop :=
  s.cubit.named = true ∧
    match e with
    | .sendButton message r _ _ => message ≠ "" ∧ r = receiverId
    | .settled k ok => ok = true ∧ ∃ call, s.inFlight[k]? = some (.write call true) ∧
        call.notifies = true ∧ call.receiverId = receiverId
    | _ => False

/-- When a message is announced, the last token lookup that found its document has
brought the token that is stored for the receiver. -/
def Fresh (s : ChatScreen) (e : Event) : Prop :=
  ∀ receiverId, Announces s e receiverId →
    ∃ v, s.brought = some v ∧ s.stored receiverId = some (some (toText v))

/-! ## One step -/

theorem sendNotification_named (call : Call) (thrown : Effect) {s : ChatScreen}
    (h : s.cubit.named = true) :
    ∃ data, s.sendNotification call thrown = .setData call data ∧
      data.to_ = s.cubit.receiverDeviceToken := by
  unfold sendNotification
  cases hdata :
      Chats.sendNotification call.image (some call.receiverId) call.text s.uId s.cubit with
  | none =>
    rw [Chats.sendNotification_eq_none, h] at hdata
    exact absurd hdata (by simp)
  | some data =>
    refine ⟨data, rfl, ?_⟩
    unfold Chats.sendNotification at hdata
    obtain ⟨model, _, hname⟩ := Option.bind_eq_some_iff.mp hdata
    obtain ⟨name, _, rfl⟩ := Option.map_eq_some_iff.mp hname
    rfl

theorem sendNotification_unnamed {call : Call} {thrown : Effect} {s : ChatScreen}
    (h : s.cubit.named = false) : s.sendNotification call thrown = thrown := by
  unfold sendNotification
  rw [Chats.sendNotification_eq_none.mpr h]

/-- The token in the cubit is the text of the last value that a lookup has brought. -/
def Held (s : ChatScreen) : Prop := s.cubit.receiverDeviceToken = s.brought.map toText

/-- What a step posts: with the token in the cubit, for the receivers that the event
announces a message to, and for the calls whose notification is due. -/
structure Notifies (s s' : ChatScreen) (e : Event) (o : List Effect) : Prop where
  held : Held s → Held s'
  to_ : ∀ call data, .setData call data ∈ o → data.to_ = s.cubit.receiverDeviceToken
  announces : ∀ receiverId,
    (∃ call, Posted o call ∧ call.receiverId = receiverId) ↔ Announces s e receiverId
  due : ∀ call, Posted o call ↔ Due o call

theorem not_due {o : List Effect} {call : Call}
    (hsettled : ∀ cubit, .settled call true true cubit ∈ o → call.notifies = true →
      cubit.named = false)
    (hstarted : ∀ cubit, .started call cubit ∈ o → call.notifies = false →
      cubit.named = false) : ¬ Due o call := by
  unfold Due
  split
  · rename_i hnotifies
    intro ⟨cubit, hmem, hnamed⟩
    rw [hsettled cubit hmem hnotifies] at hnamed
    exact absurd hnamed (by simp)
  · rename_i hnotifies
    intro ⟨cubit, hmem, hnamed⟩
    rw [hstarted cubit hmem (Bool.eq_false_iff.mpr hnotifies)] at hnamed
    exact absurd hnamed (by simp)

/-- A step that announces nothing. -/
theorem notifies_of_silent {s s' : ChatScreen} {e : Event} {o : List Effect}
    (hheld : Held s → Held s') (hposted : ∀ call data, .setData call data ∉ o)
    (hdue : ∀ call, ¬ Due o call) (he : ∀ receiverId, ¬ Announces s e receiverId) :
    Notifies s s' e o where
  held := hheld
  to_ call data h := absurd h (hposted call data)
  announces _ :=
    ⟨fun ⟨call, ⟨data, h⟩, _⟩ => absurd h (hposted call data), fun h => absurd h (he _)⟩
  due call := ⟨fun ⟨data, h⟩ => absurd h (hposted call data), fun h => absurd h (hdue call)⟩

/-- A step that announces `call`, when the model has a name. -/
theorem notifies_of_one {s s' : ChatScreen} {e : Event} {o : List Effect} {call : Call}
    {data : NotificationChatModel} (hheld : Held s → Held s')
    (hdata : data.to_ = s.cubit.receiverDeviceToken)
    (hposted : ∀ c d, .setData c d ∈ o ↔ c = call ∧ d = data)
    (he : ∀ receiverId, Announces s e receiverId ↔ call.receiverId = receiverId)
    (hdue : ∀ c, Due o c ↔ c = call) : Notifies s s' e o := by
  have hcall : ∀ c, Posted o c ↔ c = call := by
    intro c
    constructor
    · intro ⟨d, h⟩
      exact ((hposted c d).mp h).1
    · intro h
      exact ⟨data, (hposted c data).mpr ⟨h, rfl⟩⟩
  refine { held := hheld, to_ := fun c d h => ?_, announces := fun receiverId => ?_
           due := fun c => ?_ }
  · rw [((hposted c d).mp h).2]
    exact hdata
  · rw [he]
    constructor
    · intro ⟨c, hc, hr⟩
      rw [← (hcall c).mp hc]
      exact hr
    · intro hr
      exact ⟨call, (hcall call).mpr rfl, hr⟩
  · rw [hcall, hdue]

theorem sendButton_notifies (message receiverId now₁ now₂ : String) (s : ChatScreen) :
    Notifies s (s.sendButton message receiverId now₁ now₂).1
      (.sendButton message receiverId now₁ now₂)
      (s.sendButton message receiverId now₁ now₂).2 := by
  unfold sendButton
  by_cases hm : message = ""
  · rw [if_pos hm]
    exact notifies_of_silent id (by simp) (fun _ => not_due (by simp) (by simp))
      (fun r h => h.2.1 hm)
  · rw [if_neg hm]
    dsimp only
    cases hnamed : s.cubit.named with
    | false =>
      rw [sendNotification_unnamed hnamed]
      refine notifies_of_silent id (by simp [sendMessage, send]) (fun _ => not_due ?_ ?_) ?_
      · simp [sendMessage, send]
      · simp [sendMessage, send, hnamed]
      · simp [Announces, hnamed]
    | true =>
      obtain ⟨data, hsend, hdata⟩ := sendNotification_named
        { number := s.calls, uId := s.uId, receiverId, text := message, image := ""
          notifies := false } (.throws .model) hnamed
      rw [hsend]
      refine @notifies_of_one _ _ _ _
        { number := s.calls, uId := s.uId, receiverId, text := message, image := ""
          notifies := false } data id hdata (fun c d => ?_) (fun r => ?_) (fun c => ?_)
      · simp [sendMessage, send]
      · simp [Announces, hnamed, hm]
      · unfold Due
        split
        · rename_i hnotifies
          have hne : c ≠ { number := s.calls, uId := s.uId, receiverId, text := message
                           image := "", notifies := false } := by
            intro heq
            rw [heq] at hnotifies
            exact absurd hnotifies (by simp)
          simp [sendMessage, send, hne]
        · simp [sendMessage, send, hnamed]

/-- Only the success of an image's own copy, with a name in the model, posts anything. -/
theorem writeThen_silent {s : ChatScreen} {call : Call} {sent ok : Bool}
    (h : ¬ (ok = true ∧ sent = true ∧ call.notifies = true ∧ s.cubit.named = true)) :
    ∃ rest, s.writeThen call sent ok = .settled call sent ok s.cubit :: rest ∧
      ∀ x ∈ rest, ∃ state, x = .emit state := by
  unfold writeThen
  refine ⟨_, rfl, fun x hx => ?_⟩
  split at hx
  · exact ⟨_, List.mem_singleton.mp hx⟩
  · exact absurd hx List.not_mem_nil
  · rcases List.mem_cons.mp hx with rfl | hx
    · exact ⟨_, rfl⟩
    · split at hx
      · rename_i hnotifies
        have hnamed : s.cubit.named = false :=
          Bool.eq_false_iff.mpr fun hnamed => h ⟨rfl, rfl, hnotifies, hnamed⟩
        rw [sendNotification_unnamed hnamed] at hx
        exact ⟨_, List.mem_singleton.mp hx⟩
      · exact absurd hx List.not_mem_nil

theorem writeThen_notifies {s : ChatScreen} {k : Nat} {call : Call} {sent ok : Bool}
    (hk : s.inFlight[k]? = some (.write call sent)) :
    Notifies s (s.landed k) (.settled k ok) ((s.landed k).writeThen call sent ok) := by
  by_cases hone : ok = true ∧ sent = true ∧ call.notifies = true ∧ s.cubit.named = true
  · obtain ⟨rfl, rfl, hnotifies, hnamed⟩ := hone
    obtain ⟨data, hsend, hdata⟩ :=
      sendNotification_named call (.emit .sendMessageError) (s := s.landed k) hnamed
    have heff : (s.landed k).writeThen call true true =
        [.settled call true true s.cubit, .emit .sendMessageSuccess, .setData call data] := by
      unfold writeThen
      rw [if_pos hnotifies, hsend]
      rfl
    rw [heff]
    refine @notifies_of_one s _ _ _ call data id hdata (fun c d => ?_) (fun r => ?_) (fun c => ?_)
    · simp
    · simp [Announces, hnamed, hk, hnotifies]
    · unfold Due
      split
      · simp [hnamed]
      · rename_i hc
        have hne : c ≠ call := fun heq => hc (heq ▸ hnotifies)
        simp [hne]
  · obtain ⟨rest, heff, hrest⟩ := writeThen_silent (s := s.landed k) hone
    rw [heff]
    have hnot : ∀ x, (∀ state, x ≠ .emit state) → x ∉ rest := by
      intro x hx hmem
      obtain ⟨state, heq⟩ := hrest x hmem
      exact hx state heq
    refine notifies_of_silent id (fun c d hmem => ?_) (fun c => not_due ?_ ?_) (fun r h => ?_)
    · exact hnot _ (by simp) ((List.mem_cons.mp hmem).resolve_left (by simp))
    · intro cubit hmem hc
      rcases List.mem_cons.mp hmem with heq | hmem
      · obtain ⟨rfl, rfl, rfl, rfl⟩ := Effect.settled.inj heq
        exact Bool.eq_false_iff.mpr fun hnamed => hone ⟨rfl, rfl, hc, hnamed⟩
      · exact absurd hmem (hnot _ (by simp))
    · intro cubit hmem _
      exact absurd ((List.mem_cons.mp hmem).resolve_left (by simp)) (hnot _ (by simp))
    · obtain ⟨hnamed, hok, c, hc, hnotifies, -⟩ := h
      rw [hk, Option.some.injEq, Pending.write.injEq] at hc
      obtain ⟨rfl, rfl⟩ := hc
      exact hone ⟨hok, rfl, hnotifies, hnamed⟩

/-- What every other event leaves behind: nothing but the start of an image's call. -/
def Unrelated (o : List Effect) : Prop :=
  ∀ x ∈ o, (∀ call data, x ≠ .setData call data) ∧
    (∀ call sent ok cubit, x ≠ .settled call sent ok cubit) ∧
    ∀ call cubit, x = .started call cubit → call.notifies = true

theorem Unrelated.notifies {s s' : ChatScreen} {e : Event} {o : List Effect} (h : Unrelated o)
    (hheld : Held s → Held s') (he : ∀ receiverId, ¬ Announces s e receiverId) :
    Notifies s s' e o := by
  refine notifies_of_silent hheld (fun c d hmem => (h _ hmem).1 c d rfl) (fun c => not_due ?_ ?_) he
  · intro cubit hmem
    exact absurd rfl ((h _ hmem).2.1 c true true cubit)
  · intro cubit hmem hc
    rw [(h _ hmem).2.2 c cubit rfl] at hc
    exact absurd hc (by simp)

theorem unrelated_nil : Unrelated [] := fun _ hx => absurd hx List.not_mem_nil

theorem step_notifies {s s' : ChatScreen} {e : Event} {o : List Effect}
    (h : s.step e = some (s', o)) : Notifies s s' e o := by
  cases step_did h with
  | sendButton => exact sendButton_notifies _ _ _ _ s
  | settled request => exact writeThen_notifies request
  | picker _ =>
    refine Unrelated.notifies ?_ id fun _ hr => hr.2
    simp [Unrelated, pickerThen, uploadMessageImage]
  | url _ =>
    refine Unrelated.notifies ?_ id fun _ hr => hr.2
    simp [Unrelated, urlThen, sendImageToChat, send]
  | @token k receiverUid value _ =>
    cases value with
    | none => exact unrelated_nil.notifies id fun _ hr => hr.2
    | some v => exact unrelated_nil.notifies (fun _ => rfl) fun _ hr => hr.2
  | pickMessageImage | granted | denied | cancelled | pickerFailed | putFailed | urlFailed =>
    exact Unrelated.notifies (by simp [Unrelated]) id fun _ hr => hr.2
  | build | put | setDeviceToken | user => exact unrelated_nil.notifies id fun _ hr => hr.2

/-! ## Runs -/

theorem addressed_iff {s s' : ChatScreen} {e : Event} {o : List Effect} (hs : Held s)
    (h : s.step e = some (s', o)) : Addressed s o ↔ Fresh s e := by
  have hn := step_notifies h
  constructor
  · intro ha receiverId hr
    obtain ⟨call, ⟨data, hmem⟩, rfl⟩ := (hn.announces receiverId).mpr hr
    obtain ⟨token, hto, hstored⟩ := ha call data hmem
    rw [hn.to_ call data hmem, hs] at hto
    obtain ⟨v, hv, rfl⟩ := Option.map_eq_some_iff.mp hto
    exact ⟨v, hv, hstored⟩
  · intro hf call data hmem
    obtain ⟨v, hv, hstored⟩ := hf _ ((hn.announces _).mp ⟨call, ⟨data, hmem⟩, rfl⟩)
    refine ⟨toText v, ?_, hstored⟩
    rw [hn.to_ call data hmem, hs, hv]
    rfl

theorem posted_append (o o' : List Effect) (call : Call) :
    Posted (o ++ o') call ↔ Posted o call ∨ Posted o' call := by
  simp only [Posted, List.mem_append, exists_or]

theorem due_append (o o' : List Effect) (call : Call) :
    Due (o ++ o') call ↔ Due o call ∨ Due o' call := by
  unfold Due
  split <;> simp only [List.mem_append, or_and_right, exists_or]

/-- In every run a notification is posted for a call exactly when it is due. -/
theorem run_posted_iff {s s' : ChatScreen} {es : List Event} {o : List Effect}
    (hrun : machine.run s es = some (s', o)) (call : Call) : Posted o call ↔ Due o call := by
  refine Reactive.Machine.run_preserves (M := machine)
    (I := fun _ o => Posted o call ↔ Due o call) (fun s e s' o a hs hstep => ?_) ?_ hrun
  · rw [posted_append, due_append, hs, (step_notifies hstep).due call]
  · exact (unrelated_nil.notifies (s := s) (e := .user none) id fun _ hr => hr.2).due call

/-- Each notification of a run is to the stored token and every settled message is
announced exactly if the receiver has it, exactly when every token is fresh where it is
used and every notification is due for a message that the receiver has. -/
theorem notifications_iff {uId : Option String} {stored : String → Option (Option String)}
    {es : List Event} {s : ChatScreen} {o : List Effect}
    (hrun : machine.run (init uId stored) es = some (s, o)) :
    (machine.Every (fun s _ _ o => Addressed s o) (init uId stored) es ∧ Matched o) ↔
      machine.Every (fun s e _ _ => Fresh s e) (init uId stored) es ∧ Agrees o := by
  have haddressed : machine.Every (fun s _ _ o => Addressed s o) (init uId stored) es ↔
      machine.Every (fun s e _ _ => Fresh s e) (init uId stored) es :=
    Reactive.Machine.every_iff (I := Held)
      (fun s e s' o hs hstep =>
        ⟨addressed_iff hs hstep, fun _ => (step_notifies hstep).held hs⟩) rfl
  have hmatched : Matched o ↔ Agrees o := by
    unfold Matched Agrees
    simp only [run_posted_iff hrun]
  rw [haddressed, hmatched]

/-! ## A text that is not delivered -/

def ann : LoginModel :=
  { name := some "ann", phone := some "1", email := some "ann@x", uid := some "ann"
    image := some "ann.jpg", cover := some "cover.jpg", bio := some ""
    isEmailVarified := some false }

/-- The server with the token of bob's device. -/
def bobsToken (uid : String) : Option (Option String) :=
  if uid = "bob" then some (some "token") else none

/-- ann's screen knows bob's token when she sends a text. -/
def textToBob : List Event :=
  [.build (some ann) "bob", .token 0 (some (some "token")), .sendButton "hi" "bob" "1" "2"]

def hi : Call :=
  { number := 0, uId := some "ann", receiverId := "bob", text := "hi", image := ""
    notifies := false }

def answerOf : Effect → Option (Call × Bool × Bool)
  | .settled call sent ok _ => some (call, sent, ok)
  | _ => none

theorem mem_answers {o : List Effect} {call : Call} {sent ok : Bool} {cubit : Chats.ChatCubit}
    (h : .settled call sent ok cubit ∈ o) : (call, sent, ok) ∈ o.filterMap answerOf :=
  List.mem_filterMap.mpr ⟨_, h, rfl⟩

/-- The write to bob's mailbox fails, and he is notified of the message. -/
theorem notified_without_message :
    ∃ s o, machine.run (init (some "ann") bobsToken)
        (textToBob ++ [.settled 0 false, .settled 0 true]) = some (s, o) ∧ ¬ Matched o := by
  refine ⟨_, _, rfl, fun h => ?_⟩
  have hsettled := h hi fun sent => by
    cases sent with
    | false => exact ⟨false, _, List.mem_of_getElem? (i := 5) rfl⟩
    | true => exact ⟨true, _, List.mem_of_getElem? (i := 7) rfl⟩
  obtain ⟨cubit, hmem⟩ := hsettled.mp ⟨_, List.mem_of_getElem? (i := 4) rfl⟩
  have hanswers : (hi, false, true) ∈ [(hi, false, false), (hi, true, true)] := mem_answers hmem
  exact absurd hanswers (by decide)

theorem notifications_textToBob :
    ∃ s o, machine.run (init (some "ann") bobsToken)
        (textToBob ++ [.settled 0 true, .settled 0 true]) = some (s, o) ∧
      machine.Every (fun s _ _ o => Addressed s o) (init (some "ann") bobsToken)
        (textToBob ++ [.settled 0 true, .settled 0 true]) ∧ Matched o := by
  refine ⟨_, _, rfl, (@notifications_iff (some "ann") bobsToken
    (textToBob ++ [.settled 0 true, .settled 0 true]) _ _ rfl).mpr ⟨?_, ?_⟩⟩
  · refine Reactive.Machine.every_cons rfl (fun r h => h.2.elim)
      (Reactive.Machine.every_cons rfl (fun r h => h.2.elim)
      (Reactive.Machine.every_cons rfl (fun r h => ?_)
      (Reactive.Machine.every_cons rfl (fun r h => ?_)
      (Reactive.Machine.every_cons rfl (fun r h => ?_) trivial))))
    · obtain ⟨-, -, rfl⟩ := h
      exact ⟨some "token", rfl, rfl⟩
    · obtain ⟨-, -, call, hcall, -⟩ := h
      exact absurd (Pending.write.inj (Option.some.inj hcall)).2 (by simp)
    · obtain ⟨-, -, call, hcall, hnotifies, -⟩ := h
      rw [← (Pending.write.inj (Option.some.inj hcall)).1] at hnotifies
      exact absurd hnotifies (by simp)
  · intro call hsettled
    obtain ⟨ok, cubit, hmem⟩ := hsettled false
    have hanswers : (call, false, ok) ∈ [(hi, false, true), (hi, true, true)] := mem_answers hmem
    have hcall : call = hi := by
      simp only [List.mem_cons, Prod.mk.injEq, List.not_mem_nil, or_false] at hanswers
      rcases hanswers with ⟨heq, -⟩ | ⟨heq, -⟩
      · exact heq
      · exact heq
    subst hcall
    constructor
    · intro _
      exact ⟨_, List.mem_of_getElem? (i := 5) rfl⟩
    · intro _
      exact ⟨_, List.mem_of_getElem? (i := 0) rfl, rfl⟩

end ChatScreen
end SocialApp
