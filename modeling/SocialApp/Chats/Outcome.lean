import SocialApp.Chats.Account
import Mathlib.Data.List.Nodup

/-! # What a call comes to

When both writes of a call have settled, the two mailboxes and the last state emitted
for it agree exactly when the writes ended alike and the notification of an image did
not throw. -/

namespace SocialApp
namespace Chats

/-! ## The states of a call -/

def stateOf (n : Nat) : Effect → Option ChatCubitStates
  | .emit (some m) state => if m = n then some state else none
  | _ => none

@[simp] theorem stateOf_emit (n m : Nat) (state : ChatCubitStates) :
    stateOf n (.emit (some m) state) = if m = n then some state else none := rfl

@[simp] theorem stateOf_setData (n : Nat) (data : NotificationChatModel) :
    stateOf n (.setData data) = none := rfl

/-- The states emitted for a call. -/
def states (n : Nat) (o : List Effect) : List ChatCubitStates := o.filterMap (stateOf n)

/-- The cubit has what a notification needs. -/
def ChatCubit.named (cubit : ChatCubit) : Bool := cubit.model.any fun model => model.name.isSome

/-- The states that the handlers of a write emit. -/
def outcome (a : Copy × Bool × ChatCubit) : List ChatCubitStates :=
  match a.2.1, a.1.sent with
  | false, _ => [.sendMessageError]
  | true, false => []
  | true, true =>
    .sendMessageSuccess ::
      if a.1.call.notifies = true ∧ a.2.2.named = false then [.sendMessageError] else []

theorem sendNotification_eq_none {image text : String} {receiverId uId : Option String}
    {cubit : ChatCubit} :
    sendNotification image receiverId text uId cubit = none ↔ cubit.named = false := by
  unfold sendNotification ChatCubit.named
  cases cubit.model with
  | none => simp
  | some model => simp

theorem writeThen_states (n : Nat) (c : Copy) (ok : Bool) (cubit : ChatCubit)
    (uId : Option String) :
    states n (writeThen c ok cubit uId) = if c.send = n then outcome (c, ok, cubit) else [] := by
  unfold writeThen outcome states
  cases ok with
  | false =>
    by_cases hn : c.send = n
    · simp [hn]
    · simp [hn]
  | true =>
    cases c.sent with
    | false => simp
    | true =>
      cases hnotifies : c.call.notifies with
      | false =>
        by_cases hn : c.send = n
        · simp [hn]
        · simp [hn]
      | true =>
        cases hsend : sendNotification c.call.image (some c.call.receiverId) "" uId cubit with
        | none =>
          have hnamed := sendNotification_eq_none.mp hsend
          by_cases hn : c.send = n
          · simp [hn, hnamed]
          · simp [hn]
        | some data =>
          have hnamed : ¬ cubit.named = false := fun h => by
            rw [sendNotification_eq_none.mpr h] at hsend
            exact absurd hsend (by simp)
          by_cases hn : c.send = n
          · simp [hn, hnamed]
          · simp [hn]

/-- The answers to the writes of a call. -/
def answersOf (n : Nat) (o : List Effect) : List (Copy × Bool × ChatCubit) :=
  (answers o).filter fun a => a.1.send = n

/-- A call emits the loading state, and then what its answers make it emit. -/
def Told (s : Chats) (o : List Effect) : Prop :=
  ∀ n, states n o = (if n < s.calls.length then [.sendMessageLoading] else []) ++
    (answersOf n o).flatMap outcome

theorem states_append (n : Nat) (o o' : List Effect) :
    states n (o ++ o') = states n o ++ states n o' := List.filterMap_append

theorem answersOf_append (n : Nat) (o o' : List Effect) :
    answersOf n (o ++ o') = answersOf n o ++ answersOf n o' := by
  unfold answersOf
  rw [answers_append, List.filter_append]

theorem Told.append {s s' : Chats} {o o' : List Effect} (hs : Told s o)
    (hcalls : s'.calls = s.calls)
    (h : ∀ n, states n o' = (answersOf n o').flatMap outcome) : Told s' (o ++ o') := by
  intro n
  rw [states_append, answersOf_append, List.flatMap_append, hs n, h n, hcalls, List.append_assoc]

theorem step_told {s s' : Chats} {e : Event} {o o' : List Effect} (hs : Account s o)
    (ht : Told s o) (h : s.step e = some (s', o')) : Told s' (o ++ o') := by
  cases step_did h with
  | other _ _ _ _ calls _ effects =>
    refine ht.append calls fun n => ?_
    rcases effects with rfl | rfl
    · rfl
    · rfl
  | @started x reading id _ _ _ state effects =>
    intro n
    -- the new call has no answers yet
    have hnone : answersOf s.calls.length o = [] := by
      refine List.filter_eq_nil_iff.mpr fun a ha => ?_
      have hlt := hs.send_lt (hs.answered ha)
      rw [decide_eq_true_eq]
      exact Nat.ne_of_lt hlt
    have hlength : s'.calls.length = s.calls.length + 1 := by
      rw [state]
      exact List.length_append
    have hanswers : answersOf n o' = [] := by rw [effects]; rfl
    have hstates : states n o' = if s.calls.length = n then [.sendMessageLoading] else [] := by
      rw [effects]
      unfold states
      by_cases hn : s.calls.length = n
      · simp [stateOf, hn]
      · simp [stateOf, hn]
    rw [states_append, answersOf_append, hanswers, List.append_nil, ht n, hlength, hstates]
    by_cases hn : s.calls.length = n
    · subst hn
      rw [hnone]
      simp
    · have hiff : n < s.calls.length + 1 ↔ n < s.calls.length := by omega
      simp only [hn, hiff, if_false, List.append_nil]
  | wentOn _ _ _ _ state effects =>
    refine ht.append (by rw [state]) fun n => ?_
    rw [effects]
    rfl
  | applied _ state effects =>
    refine ht.append (by rw [state]; rfl) fun n => ?_
    rw [effects]
    rfl
  | @settled k c ok cubit uId _ _ state effects =>
    refine ht.append (by rw [state]; rfl) fun n => ?_
    have hanswers : answersOf n o' = if c.send = n then [(c, ok, cubit)] else [] := by
      unfold answersOf
      rw [effects, (settled_logs c ok cubit uId).2.2]
      by_cases hn : c.send = n
      · simp [hn]
      · simp [hn]
    have hstates : states n o' = states n (writeThen c ok cubit uId) := by
      rw [effects]
      rfl
    rw [hanswers, hstates, writeThen_states]
    by_cases hn : c.send = n
    · simp [hn]
    · simp [hn]

theorem run_told {es : List Event} {s : Chats} {o : List Effect}
    (hrun : machine.run init es = some (s, o)) : Account s o ∧ Told s o := by
  refine Reactive.Machine.run_preserves (M := machine) (I := fun s o => Account s o ∧ Told s o)
    ?_ ⟨init_account, fun n => rfl⟩ hrun
  intro s e s' o a hs h
  exact ⟨step_account hs.1 h, step_told hs.1 hs.2 h⟩

/-! ## Both writes settled -/

/-- The mailbox that a copy goes to holds it. -/
def Held (s : Chats) (c : Copy) : Prop := c ∈ s.mailbox c.owner c.peer

/-- Both mailboxes hold the message and the last state says so, or neither does. -/
def Consistent (s : Chats) (o : List Effect) (c c' : Copy) : Prop :=
  Held s c ∧ Held s c' ∧ (states c.send o).getLast? = some .sendMessageSuccess ∨
    ¬ Held s c ∧ ¬ Held s c' ∧ (states c.send o).getLast? = some .sendMessageError

theorem Account.held_iff {s : Chats} {o : List Effect} (hs : Account s o) {c : Copy} :
    Held s c ↔ c ∈ Chats.added o := by
  unfold Held
  rw [hs.mailbox, List.mem_filter]
  exact and_iff_left (decide_eq_true ⟨rfl, rfl⟩)

/-- The two writes of a call are answered one after the other. -/
theorem Account.answersOf_eq {s : Chats} {o : List Effect} (hs : Account s o)
    {a a' : Copy × Bool × ChatCubit} (ha : a ∈ answers o) (ha' : a' ∈ answers o)
    (hsend : a.1.send = a'.1.send) (hsent : a.1.sent = false) (hsent' : a'.1.sent = true) :
    answersOf a.1.send o = [a, a'] ∨ answersOf a.1.send o = [a', a] := by
  have hnodup : ((answers o).map Prod.fst).Nodup := by
    have h := Multiset.coe_nodup.mpr hs.issued_nodup
    rw [hs.issued, Multiset.nodup_add] at h
    exact Multiset.coe_nodup.mp h.2.1
  have hne : a ≠ a' := fun h => by
    rw [h, hsent'] at hsent
    exact absurd hsent (by simp)
  have hperm : (answersOf a.1.send o).Perm [a, a'] := by
    refine (List.perm_ext_iff_of_nodup ((List.Nodup.of_map _ hnodup).filter _)
      (by simp [hne])).mpr fun b => ?_
    rw [List.mem_filter, decide_eq_true_eq, List.mem_cons, List.mem_singleton]
    constructor
    · rintro ⟨hb, hbsend⟩
      cases hside : b.1.sent with
      | false =>
        have heq := hs.copy_eq (hs.answered hb) (hs.answered ha) hbsend (hside.trans hsent.symm)
        exact Or.inl (List.inj_on_of_nodup_map hnodup hb ha heq)
      | true =>
        have heq := hs.copy_eq (hs.answered hb) (hs.answered ha') (hbsend.trans hsend)
          (hside.trans hsent'.symm)
        exact Or.inr (List.inj_on_of_nodup_map hnodup hb ha' heq)
    · rintro (rfl | rfl)
      · exact ⟨ha, rfl⟩
      · exact ⟨ha', hsend.symm⟩
  obtain ⟨x, y, hxy⟩ := List.length_eq_two.mp hperm.length_eq
  rw [hxy] at hperm ⊢
  rcases List.mem_cons.mp (hperm.subset List.mem_cons_self) with rfl | hx
  · rw [List.singleton_perm_singleton.mp ((List.perm_cons _).mp hperm)]
    exact Or.inl rfl
  · rw [List.mem_singleton.mp hx] at hperm ⊢
    have hswap := hperm.trans (List.Perm.swap a' a [])
    rw [List.singleton_perm_singleton.mp ((List.perm_cons _).mp hswap)]
    exact Or.inr rfl

/-- The last state of a call whose writes ended alike. -/
theorem last_state {s : Chats} {o : List Effect} (hs : Account s o) (ht : Told s o)
    {a a' : Copy × Bool × ChatCubit} (ha : a ∈ answers o) (ha' : a' ∈ answers o)
    (hsend : a.1.send = a'.1.send) (hsent : a.1.sent = false) (hsent' : a'.1.sent = true)
    (hok : a.2.1 = a'.2.1) :
    (states a.1.send o).getLast? = (outcome a').getLast? := by
  have hstates := ht a.1.send
  rw [if_pos (hs.send_lt (hs.answered ha))] at hstates
  rw [hstates]
  cases hok' : a'.2.1 with
  | false =>
    have hout : outcome a = [.sendMessageError] := by simp only [outcome, hok.trans hok']
    have hout' : outcome a' = [.sendMessageError] := by simp only [outcome, hok']
    rcases hs.answersOf_eq ha ha' hsend hsent hsent' with h | h
    · simp [h, hout, hout']
    · simp [h, hout, hout']
  | true =>
    have hout : outcome a = [] := by simp only [outcome, hok.trans hok', hsent]
    have hne : outcome a' ≠ [] := by simp [outcome, hok', hsent']
    rcases hs.answersOf_eq ha ha' hsend hsent hsent' with h | h
    · simp [h, hout, List.getLast?_cons, List.getLast?_eq_some_getLast hne]
    · simp [h, hout, List.getLast?_cons, List.getLast?_eq_some_getLast hne]

/-- When both writes of a call have settled, the mailboxes and the last state agree
exactly when the writes ended alike, and the notification of an image that was sent had
the name it needs. -/
theorem consistent_iff {es : List Event} {s : Chats} {o : List Effect}
    (hrun : machine.run init es = some (s, o)) {c c' : Copy} {ok ok' : Bool}
    {cubit cubit' : ChatCubit} (ha : (c, ok, cubit) ∈ answers o)
    (ha' : (c', ok', cubit') ∈ answers o) (hsend : c.send = c'.send) (hsent : c.sent = false)
    (hsent' : c'.sent = true) :
    Consistent s o c c' ↔
      ok = ok' ∧ (ok' = true → c'.call.notifies = true → cubit'.named = true) := by
  obtain ⟨hs, ht⟩ := run_told hrun
  unfold Consistent
  rw [hs.held_iff, hs.held_iff, hs.added_iff ha, hs.added_iff ha']
  by_cases hok : ok = ok'
  · have hlast := last_state hs ht ha ha' hsend hsent hsent' hok
    subst hok
    rw [hlast]
    cases ok with
    | false => simp [outcome]
    | true =>
      cases hnotifies : c'.call.notifies with
      | false => simp [outcome, hsent', hnotifies]
      | true =>
        cases hnamed : cubit'.named with
        | false => simp [outcome, hsent', hnotifies, hnamed]
        | true => simp [outcome, hsent', hnamed]
  · cases ok with
    | false =>
      have hok' : ok' = true := by simpa using hok
      simp [hok']
    | true =>
      have hok' : ok' = false := by simpa using hok
      simp [hok']

/-- The two writes of one message to Bob, of which the first fails. -/
def lostCopy : List Event :=
  [.sendMessage "ann" "hello" "bob" 0 "r", .second 1 0 "s",
    .settled 0 false { model := none, receiverDeviceToken := none } (some "ann"), .applied 0,
    .settled 0 true { model := none, receiverDeviceToken := none } (some "ann")]

/-- The last state is success, and Bob never gets the message. -/
theorem receiver_without_copy :
    ∃ s o c c' cubit, machine.run init lostCopy = some (s, o) ∧
      (c, false, cubit) ∈ answers o ∧ (c', true, cubit) ∈ answers o ∧ c.send = c'.send ∧
      c.sent = false ∧ c'.sent = true ∧ s.mailbox "bob" "ann" = [] ∧
      (states 0 o).getLast? = some .sendMessageSuccess ∧ ¬ Consistent s o c c' := by
  refine ⟨_, _, _, _, _, rfl, List.Mem.head _, List.Mem.tail _ (List.Mem.head _), rfl, rfl, rfl,
    rfl, rfl, ?_⟩
  rintro (⟨hheld, -, -⟩ | ⟨-, hheld, -⟩)
  · exact absurd hheld List.not_mem_nil
  · exact hheld (List.Mem.head _)

/-- The same message, with both writes carried out. -/
def bothSent : List Event :=
  [.sendMessage "ann" "hello" "bob" 0 "r", .second 1 0 "s", .applied 1, .applied 0,
    .settled 0 true { model := none, receiverDeviceToken := none } (some "ann"),
    .settled 0 true { model := none, receiverDeviceToken := none } (some "ann")]

theorem consistent_iff_bothSent :
    ∃ s o c c' cubit, machine.run init bothSent = some (s, o) ∧
      (c, true, cubit) ∈ answers o ∧ (c', true, cubit) ∈ answers o ∧ Consistent s o c c' := by
  refine ⟨_, _, _, _, _, rfl, List.Mem.head _, List.Mem.tail _ (List.Mem.head _), ?_⟩
  have hrun : machine.run init bothSent = some _ := rfl
  refine (consistent_iff hrun (List.Mem.head _)
    (List.Mem.tail _ (List.Mem.head _)) rfl rfl rfl).mpr ⟨rfl, fun _ h => ?_⟩
  exact absurd h (by decide)

end Chats
end SocialApp
