import SocialApp.Chats.Order

/-! # Replies

A message and its reply share the mailbox of each of the two users, with copies of
opposite sides.  A reply is listed after the message it answers exactly when the
device of the message was ahead of that of the reply, in its UTC offset, by less than
the time between the readings of these copies. -/

namespace SocialApp

open Reactive (orderBy)

namespace Chats

/-- `a` made call `m` to `b` when the message of call `n`, from `b`, had appeared in a
chat list of `a`. -/
structure Reply (s : Chats) (a b : String) (n m : Nat) : Prop where
  other : a ≠ b
  message : ∃ call, s.calls[n]? = some call ∧ call.send.uId = b ∧ call.send.receiverId = a
  reply : ∃ call, s.calls[m]? = some call ∧ call.send.uId = a ∧ call.send.receiverId = b ∧
    n ∈ call.seen

/-- No reply is listed before the message that it answers. -/
def RepliesFollow (s : Chats) : Prop :=
  ∀ a b n m, Reply s a b n m → ∀ p q, p.send = n → q.send = m →
    (p ∈ s.mailbox a b → q ∈ s.mailbox a b →
      [p, q].Sublist (orderBy Copy.key (s.mailbox a b))) ∧
    (p ∈ s.mailbox b a → q ∈ s.mailbox b a →
      [p, q].Sublist (orderBy Copy.key (s.mailbox b a)))

/-- The UTC offset of a message is ahead of that of its reply by less than the time
between the two readings for one mailbox, or by just that time if its id is smaller. -/
def OffsetsFit (s : Chats) (o : List Effect) : Prop :=
  ∀ a b n m, Reply s a b n m → ∀ p ∈ added o, ∀ q ∈ added o, p.send = n → q.send = m →
    p.sent ≠ q.sent →
    toLex (p.reading.zone - q.reading.zone, p.id) <
      toLex ((q.reading.utc : Int) - p.reading.utc, q.id)

theorem key_lt_iff_offset {p q : Copy} :
    p.key < q.key ↔ toLex (p.reading.zone - q.reading.zone, p.id) <
      toLex ((q.reading.utc : Int) - p.reading.utc, q.id) := by
  rw [key_lt_iff, Copy.at, Copy.at, Prod.Lex.toLex_lt_toLex, Prod.Lex.toLex_lt_toLex]
  refine or_congr ?_ (and_congr_left fun _ => ?_)
  · dsimp only
    omega
  · dsimp only
    omega

theorem Account.call_of {s : Chats} {o : List Effect} (hs : Account s o) {c : Copy} {call : Call}
    (hc : c ∈ Chats.added o) (hcall : s.calls[c.send]? = some call) : c.call = call.send := by
  obtain ⟨call', hcall', hsend⟩ := mem_made (hs.of_mem (hs.issued_of_added hc))
  have hcall' : s.calls[c.send]? = some call' := hcall'
  rw [hcall', Option.some.injEq] at hcall
  rw [← hcall, hsend]

section Sides

variable {s : Chats} {o : List Effect} {a b : String} {p : Copy}

/-- The mailbox of a copy of a message from `b` to `a`. -/
theorem Account.mem_receiver_iff (hs : Account s o) (hab : a ≠ b) (hp : p ∈ Chats.added o)
    (huId : p.call.uId = b) (hreceiver : p.call.receiverId = a) :
    (p ∈ s.mailbox a b ↔ p.sent = false) ∧ (p ∈ s.mailbox b a ↔ p.sent = true) := by
  rw [hs.mem_mailbox, hs.mem_mailbox]
  cases hsent : p.sent with
  | false =>
    rw [(Copy.owner_first hsent).1, (Copy.owner_first hsent).2, huId, hreceiver]
    simp [hp, hab.symm]
  | true =>
    rw [(Copy.owner_second hsent).1, (Copy.owner_second hsent).2, huId, hreceiver]
    simp [hp, hab]

/-- The mailboxes of the copies of a message and of its reply. -/
theorem Account.reply_sides (hs : Account s o) {n m : Nat} (hreply : Reply s a b n m) {q : Copy}
    (hp : p ∈ Chats.added o) (hq : q ∈ Chats.added o) (hn : p.send = n) (hm : q.send = m) :
    ((p ∈ s.mailbox a b ↔ p.sent = false) ∧ (p ∈ s.mailbox b a ↔ p.sent = true)) ∧
      (q ∈ s.mailbox b a ↔ q.sent = false) ∧ (q ∈ s.mailbox a b ↔ q.sent = true) := by
  obtain ⟨call, hcall, huId, hreceiver⟩ := hreply.message
  obtain ⟨call', hcall', huId', hreceiver', -⟩ := hreply.reply
  rw [← hn] at hcall
  rw [← hm] at hcall'
  rw [← hs.call_of hp hcall] at huId hreceiver
  rw [← hs.call_of hq hcall'] at huId' hreceiver'
  exact ⟨hs.mem_receiver_iff hreply.other hp huId hreceiver,
    hs.mem_receiver_iff hreply.other.symm hq huId' hreceiver'⟩

end Sides

/-- Every reply is listed after the message it answers exactly when no offset made up
for the time between them. -/
theorem replies_follow_iff {es : List Event} {s : Chats} {o : List Effect}
    (hrun : machine.run init es = some (s, o)) : RepliesFollow s ↔ OffsetsFit s o := by
  have hs := run_account hrun
  constructor
  · intro h a b n m hreply p hp q hq hn hm hne
    obtain ⟨hab, hba⟩ := h a b n m hreply p q hn hm
    obtain ⟨⟨hpab, hpba⟩, hqba, hqab⟩ := hs.reply_sides hreply hp hq hn hm
    rw [← key_lt_iff_offset]
    cases hsent : p.sent with
    | false =>
      have hsent' : q.sent = true := by
        rw [hsent] at hne
        simpa using hne.symm
      exact ((hs.keyed a b).pair_sublist_iff (hpab.mpr hsent) (hqab.mpr hsent')).mp
        (hab (hpab.mpr hsent) (hqab.mpr hsent'))
    | true =>
      have hsent' : q.sent = false := by
        rw [hsent] at hne
        simpa using hne.symm
      exact ((hs.keyed b a).pair_sublist_iff (hpba.mpr hsent) (hqba.mpr hsent')).mp
        (hba (hpba.mpr hsent) (hqba.mpr hsent'))
  · intro h a b n m hreply p q hn hm
    constructor
    · intro hp hq
      have hp' := (hs.mem_mailbox.mp hp).1
      have hq' := (hs.mem_mailbox.mp hq).1
      obtain ⟨⟨hpab, -⟩, -, hqab⟩ := hs.reply_sides hreply hp' hq' hn hm
      rw [(hs.keyed a b).pair_sublist_iff hp hq, key_lt_iff_offset]
      refine h a b n m hreply p hp' q hq' hn hm ?_
      rw [hpab.mp hp, hqab.mp hq]
      exact Bool.false_ne_true
    · intro hp hq
      have hp' := (hs.mem_mailbox.mp hp).1
      have hq' := (hs.mem_mailbox.mp hq).1
      obtain ⟨⟨-, hpba⟩, hqba, -⟩ := hs.reply_sides hreply hp' hq' hn hm
      rw [(hs.keyed b a).pair_sublist_iff hp hq, key_lt_iff_offset]
      refine h a b n m hreply p hp' q hq' hn hm ?_
      rw [hpba.mp hp, hqba.mp hq]
      exact Bool.false_ne_true.symm

/-- Both are at UTC, and Ann replies a minute after she has seen the message. -/
def answered : List Event :=
  [.sendMessage "bob" "hi" "ann" 0 "1", .second 1 0 "2", .applied 0, .applied 1,
    .snapshot "ann" "bob" 1 [], .tick 60000000,
    .sendMessage "ann" "hello" "bob" 0 "3", .second 3 0 "4", .applied 2, .applied 3] ++
  List.replicate 4 (.settled 0 true { model := none, receiverDeviceToken := none } none)

theorem replies_follow_iff_answered :
    ∃ s o, machine.run init answered = some (s, o) ∧ Reply s "ann" "bob" 0 1 ∧
      RepliesFollow s := by
  have hrun : ∃ s o, machine.run init answered = some (s, o) ∧ Reply s "ann" "bob" 0 1 ∧
      s.calls.map Call.seen = [[], [0]] ∧
      ∀ p ∈ added o, ∀ q ∈ added o, p.send = 0 → q.send = 1 → p.sent ≠ q.sent →
        toLex (p.reading.zone - q.reading.zone, p.id) <
          toLex ((q.reading.utc : Int) - p.reading.utc, q.id) :=
    ⟨_, _, rfl, ⟨by decide, ⟨_, rfl, rfl, rfl⟩, ⟨_, rfl, rfl, rfl, by decide⟩⟩, rfl, by decide⟩
  obtain ⟨s, o, hrun, hreply, hseen, hfit⟩ := hrun
  refine ⟨s, o, hrun, hreply, (replies_follow_iff hrun).mpr fun a b n m hreply => ?_⟩
  obtain ⟨call, hcall, -, -, hn⟩ := hreply.reply
  have hmseen : ([[], [0]] : List (List Nat))[m]? = some call.seen := by
    rw [← hseen, List.getElem?_map, hcall]
    rfl
  match m, hmseen with
  | 0, hmseen =>
    rw [← Option.some.inj hmseen] at hn
    exact absurd hn List.not_mem_nil
  | 1, hmseen =>
    rw [← Option.some.inj hmseen] at hn
    rw [List.mem_singleton.mp hn]
    exact hfit
  | m + 2, hmseen => exact absurd hmseen (by simp)

/-- Bob writes with his clock two hours ahead of UTC, and Ann, at UTC, replies a minute
after she has seen the message. -/
def ahead : List Event :=
  [.sendMessage "bob" "hi" "ann" 7200000000 "1", .second 1 7200000000 "2", .applied 0, .applied 1,
    .snapshot "ann" "bob" 1 [], .tick 60000000,
    .sendMessage "ann" "hello" "bob" 0 "3", .second 3 0 "4", .applied 2, .applied 3] ++
  List.replicate 4 (.settled 0 true { model := none, receiverDeviceToken := none } none)

/-- Both users see the reply first. -/
theorem reply_listed_first :
    ∃ s o, machine.run init ahead = some (s, o) ∧ Reply s "ann" "bob" 0 1 ∧ s.inFlight = [] ∧
      (orderBy Copy.key (s.mailbox "ann" "bob")).map Copy.send = [1, 0] ∧
      (orderBy Copy.key (s.mailbox "bob" "ann")).map Copy.send = [1, 0] ∧ ¬ RepliesFollow s := by
  refine ⟨_, _, rfl, ⟨by decide, ⟨_, rfl, rfl, rfl⟩, ⟨_, rfl, rfl, rfl, by decide⟩⟩, rfl, by decide,
    by decide, ?_⟩
  intro h
  have hreply : ([0, 1] : List Nat).Sublist [1, 0] :=
    ((h "ann" "bob" 0 1 ⟨by decide, ⟨_, rfl, rfl, rfl⟩, ⟨_, rfl, rfl, rfl, by decide⟩⟩ _ _ rfl rfl).1
      (List.Mem.head _) (List.Mem.tail _ (List.Mem.head _))).map Copy.send
  exact absurd hreply (by decide)

end Chats
end SocialApp
