import SocialApp.Chats.Account

/-! # The two mailboxes of a conversation

Both copies of a message say who sent it to whom, and when nothing is in flight the
mailboxes `users/a/chats/b` and `users/b/chats/a` hold copies of the same calls. -/

namespace SocialApp
namespace Chats

/-- What both copies of a message have in common. -/
def Copy.content (c : Copy) : Option String × Option String × Option String × Option String :=
  (c.message.senderUid, c.message.receiverUid, c.message.text, c.message.image)

def Send.content (x : Send) : Option String × Option String × Option String × Option String :=
  (some x.uId, some x.receiverId, some x.text, some x.image)

/-- The calls with which one user writes to another. -/
def sentTo (a b : String) (calls : List Call) : List (Nat × Send) :=
  (made calls).filter fun x => a = x.2.uId ∧ b = x.2.receiverId

/-- The message is between the owner of its mailbox and the other user. -/
theorem Copy.between (c : Copy) :
    c.message.senderUid = some c.owner ∧ c.message.receiverUid = some c.peer ∨
      c.message.senderUid = some c.peer ∧ c.message.receiverUid = some c.owner := by
  unfold Copy.owner Copy.peer Send.owner Send.peer
  cases c.sent with
  | false => exact Or.inr ⟨rfl, rfl⟩
  | true => exact Or.inl ⟨rfl, rfl⟩

theorem Account.path {s : Chats} {o : List Effect} (hs : Account s o) {a b : String} {c : Copy}
    (hc : c ∈ s.mailbox a b ++ s.waiting a b) : a = c.owner ∧ b = c.peer := by
  rcases List.mem_append.mp hc with hc | hc
  · rw [hs.mailbox a b, List.mem_filter, decide_eq_true_eq] at hc
    exact hc.2
  · exact (mem_waiting.mp hc).2

theorem Account.between {s : Chats} {o : List Effect} (hs : Account s o) {a b : String} {c : Copy}
    (hc : c ∈ s.mailbox a b) :
    c.message.senderUid = some a ∧ c.message.receiverUid = some b ∨
      c.message.senderUid = some b ∧ c.message.receiverUid = some a := by
  obtain ⟨rfl, rfl⟩ := hs.path (List.mem_append_left _ hc)
  exact c.between

theorem messageSide_sender_iff {a b : String} {m : MessageModel} (hab : a ≠ b)
    (h : m.senderUid = some a ∧ m.receiverUid = some b ∨
      m.senderUid = some b ∧ m.receiverUid = some a) :
    messageSide (some a) m = .sender ↔ m.senderUid = some a := by
  unfold messageSide
  rcases h with ⟨hsender, hreceiver⟩ | ⟨hsender, hreceiver⟩
  · have hne : m.receiverUid ≠ some a := by
      rw [hreceiver]
      exact fun h => hab (Option.some.inj h).symm
    rw [if_pos hne]
    exact ⟨fun _ => hsender, fun _ => rfl⟩
  · have heq : ¬ m.receiverUid ≠ some a := fun h => h hreceiver
    rw [if_neg heq, hsender]
    constructor
    · intro h
      exact absurd h (by simp)
    · intro h
      exact absurd (Option.some.inj h).symm hab

/-! ## What a chat list shows -/

/-- What a chat list shows belongs to its mailbox. -/
def ShowsMailbox (s : Chats) : Prop :=
  ∀ a b, ∀ m ∈ s.chat a b, ∃ c : Copy, (a = c.owner ∧ b = c.peer) ∧ c.message = m

theorem step_showsMailbox {s s' : Chats} {e : Event} {o o' : List Effect} (hacc : Account s o)
    (hs : ShowsMailbox s) (h : s.step e = some (s', o')) : ShowsMailbox s' := by
  intro a b m hm
  cases step_did h with
  | other _ _ chat _ _ _ _ =>
    rcases chat a b m hm with hm | ⟨c, hc, hmessage⟩
    · exact hs a b m hm
    · exact ⟨c, hacc.path hc, hmessage⟩
  | started _ _ _ state _ =>
    rw [state] at hm
    exact hs a b m hm
  | wentOn _ _ _ _ state _ =>
    rw [state] at hm
    exact hs a b m hm
  | applied _ state _ =>
    rw [state] at hm
    exact hs a b m hm
  | settled _ _ state _ =>
    rw [state] at hm
    exact hs a b m hm

theorem run_showsMailbox {es : List Event} {s : Chats} {o : List Effect}
    (hrun : machine.run init es = some (s, o)) : ShowsMailbox s := by
  refine (Reactive.Machine.run_preserves (M := machine)
    (I := fun s o => Account s o ∧ ShowsMailbox s) ?_ ⟨init_account, ?_⟩ hrun).2
  · exact fun s e s' o a hs h => ⟨step_account hs.1 h, step_showsMailbox hs.1 hs.2 h⟩
  · intro a b m hm
    exact absurd hm List.not_mem_nil

/-! ## When nothing is in flight -/

/-- Every write that settled succeeded. -/
def AllOk (o : List Effect) : Prop := ∀ a ∈ answers o, a.2.1 = true

theorem step_allOk {s s' : Chats} {e : Event} {o o' : List Effect} (hs : AllOk o)
    (h : s.step e = some (s', o')) (he : e.succeeds = true) : AllOk (o ++ o') := by
  intro a ha
  rw [answers_append] at ha
  rcases List.mem_append.mp ha with ha | ha
  · exact hs a ha
  cases step_did h with
  | other _ _ _ _ _ _ effects =>
    rcases effects with rfl | rfl
    · exact absurd ha (by simp [answers])
    · exact absurd ha (by simp [answers, settledOf])
  | started _ _ _ _ effects =>
    rw [effects] at ha
    exact absurd ha (by simp [answers, settledOf])
  | wentOn _ _ _ _ _ effects =>
    rw [effects] at ha
    exact absurd ha (by simp [answers, settledOf])
  | applied _ _ effects =>
    rw [effects] at ha
    exact absurd ha (by simp [answers, settledOf])
  | @settled k c ok cubit uId event _ _ effects =>
    rw [effects, (settled_logs c ok cubit uId).2.2, List.mem_singleton] at ha
    rw [ha]
    rw [event] at he
    exact he

theorem run_allOk {es : List Event} {s : Chats} {o : List Effect}
    (hes : ∀ e ∈ es, e.succeeds = true) (hrun : machine.run init es = some (s, o)) : AllOk o := by
  refine Reactive.Machine.run_invariant (M := machine) (I := fun _ o => AllOk o)
    (Q := fun _ e _ _ => e.succeeds = true) (a := []) ?_ (by simp [AllOk, answers]) ?_ hrun
  · intro s e s' o a hs h he
    exact step_allOk hs h he
  · exact Reactive.Machine.every_of_forall (fun _ _ _ _ h => h) hes _

/-- Nothing is in flight and nothing has failed: every copy issued has been added. -/
theorem Account.added_perm {s : Chats} {o : List Effect} (hs : Account s o) (hok : AllOk o)
    (hdone : s.inFlight = []) : (Chats.added o).Perm (Chats.issued o) := by
  have hanswers : (answers o).filter (fun a => a.2.1) = answers o :=
    List.filter_eq_self.mpr hok
  have hadded := hs.added
  have hissued := hs.issued
  rw [hdone, hanswers] at hadded
  rw [hdone] at hissued
  refine Multiset.coe_eq_coe.mp ?_
  rw [hadded, hissued]
  rfl

/-- The copies that the two sides of a call write to one mailbox. -/
theorem filter_path (l : List Copy) (a b : String) :
    (l.filter fun c => a = c.owner ∧ b = c.peer).Perm
      ((l.filter fun c => c.sent).filter (fun c => a = c.call.uId ∧ b = c.call.receiverId) ++
        (l.filter fun c => !c.sent).filter fun c => b = c.call.uId ∧ a = c.call.receiverId) := by
  refine (List.filter_append_perm (fun c => c.sent) _).symm.trans (List.Perm.of_eq ?_)
  simp only [List.filter_filter]
  refine congrArg₂ _ (List.filter_congr fun c _ => ?_) (List.filter_congr fun c _ => ?_)
  · unfold Copy.owner Copy.peer Send.owner Send.peer
    cases c.sent with
    | false => simp
    | true => simp
  · unfold Copy.owner Copy.peer Send.owner Send.peer
    cases c.sent with
    | false => simp [and_comm]
    | true => simp

theorem map_of (l : List Copy) (a b : String) :
    (l.filter fun c => a = c.call.uId ∧ b = c.call.receiverId).map Copy.of =
      (l.map Copy.of).filter fun x => a = x.2.uId ∧ b = x.2.receiverId := by
  rw [List.filter_map]
  rfl

/-- A mailbox holds one copy of each call between its owner and the other user. -/
theorem Account.calls_of {s : Chats} {o : List Effect} (hs : Account s o) (hok : AllOk o)
    (hdone : s.inFlight = []) (a b : String) :
    ((s.mailbox a b).map Copy.of).Perm (sentTo a b s.calls ++ sentTo b a s.calls) := by
  have hseconds : (((Chats.issued o).filter fun c => c.sent).map Copy.of).Perm (made s.calls) := by
    have h := hs.seconds
    rw [hdone] at h
    exact Multiset.coe_eq_coe.mp ((add_zero _).symm.trans h)
  have hadded := (((hs.added_perm hok hdone).filter fun c => a = c.owner ∧ b = c.peer).trans
    (filter_path _ a b)).map Copy.of
  rw [hs.mailbox a b]
  refine hadded.trans ?_
  rw [List.map_append, map_of, map_of, hs.firsts]
  exact (hseconds.filter _).append_right _

/-- Two mailboxes of one conversation hold copies of the same calls. -/
theorem Account.calls_perm {s : Chats} {o : List Effect} (hs : Account s o) (hok : AllOk o)
    (hdone : s.inFlight = []) (a b : String) :
    ((s.mailbox a b).map Copy.of).Perm ((s.mailbox b a).map Copy.of) :=
  (hs.calls_of hok hdone a b).trans
    (List.perm_append_comm.trans (hs.calls_of hok hdone b a).symm)

/-! ## Every run -/

/-- Each message is between the two users of its mailbox, the screen draws on the
sender's side those that its owner sent, and when nothing is in flight the two mailboxes
hold the same messages. -/
theorem mailboxes_agree {es : List Event} {s : Chats} {o : List Effect}
    (hes : ∀ e ∈ es, e.succeeds = true) (hrun : machine.run init es = some (s, o)) :
    (∀ a b, ∀ c ∈ s.mailbox a b,
      (c.message.senderUid = some a ∧ c.message.receiverUid = some b ∨
        c.message.senderUid = some b ∧ c.message.receiverUid = some a) ∧
      (a ≠ b → (messageSide (some a) c.message = .sender ↔ c.message.senderUid = some a))) ∧
    (∀ a b, ∀ m ∈ s.chat a b, a ≠ b →
      (messageSide (some a) m = .sender ↔ m.senderUid = some a)) ∧
    (s.inFlight = [] → ∀ a b,
      ((s.mailbox a b).map Copy.content).Perm ((s.mailbox b a).map Copy.content)) := by
  have hs := run_account hrun
  refine ⟨fun a b c hc => ⟨hs.between hc, fun hab => ?_⟩, fun a b m hm hab => ?_,
    fun hdone a b => ?_⟩
  · exact messageSide_sender_iff hab (hs.between hc)
  · obtain ⟨c, ⟨rfl, rfl⟩, rfl⟩ := run_showsMailbox hrun a b m hm
    exact messageSide_sender_iff hab c.between
  · have hperm := (hs.calls_perm (run_allOk hes hrun) hdone a b).map fun x => x.2.content
    rwa [List.map_map, List.map_map] at hperm

/-- Ann writes to Bob and the two writes are carried out, that of her own copy first. -/
def oneSend : List Event :=
  [.sendMessage "ann" "hello" "bob" 0 "r", .second 1 0 "s", .applied 1, .applied 0,
    .settled 0 true { model := none, receiverDeviceToken := none } (some "ann"),
    .settled 0 true { model := none, receiverDeviceToken := none } (some "ann"),
    .snapshot "ann" "bob" 1 []]

theorem mailboxes_agree_oneSend :
    ∃ s o, machine.run init oneSend = some (s, o) ∧ (s.mailbox "ann" "bob").length = 1 ∧
      ((s.mailbox "ann" "bob").map Copy.content).Perm ((s.mailbox "bob" "ann").map Copy.content) :=
  ⟨_, _, rfl, rfl, (@mailboxes_agree oneSend _ _ (by decide) rfl).2.2 rfl "ann" "bob"⟩

end Chats
end SocialApp
