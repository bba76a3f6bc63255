import SocialApp.Chats.Mailboxes

/-! # The order of a conversation

Each mailbox is ordered by the local times of its own copies.  With one UTC offset
the two mailboxes of a conversation list its messages in one order exactly when no
send of one user takes place between the two readings of a send of the other, and the
sends of one user are read twice in the same order. -/

namespace SocialApp

open Reactive (orderBy Keyed Alike)

namespace Chats

/-! ## Keys -/

/-- The local time that a copy is ordered by, and its id. -/
def Copy.at (c : Copy) : Int ×ₗ String := toLex (c.reading.utc + c.reading.zone, c.id)

theorem key_lt_iff {c d : Copy} : c.key < d.key ↔ c.at < d.at := by
  have hc := c.reading.local_eq
  have hd := d.reading.local_eq
  rw [Copy.key, Copy.key, Copy.at, Copy.at, Prod.Lex.toLex_lt_toLex, Prod.Lex.toLex_lt_toLex]
  have hlt : c.reading.now.toString < d.reading.now.toString ↔
      (c.reading.utc : Int) + c.reading.zone < d.reading.utc + d.reading.zone := by
    rw [Time.DateTime.toString_lt_iff]
    omega
  have heq : c.reading.now.toString = d.reading.now.toString ↔
      (c.reading.utc : Int) + c.reading.zone = d.reading.utc + d.reading.zone := by
    rw [Time.DateTime.toString_inj]
    constructor
    · intro h
      rw [← hc, ← hd, h]
    · intro h
      exact Time.DateTime.ext_micros (by omega)
  exact or_congr hlt (and_congr_left fun _ => heq)

theorem Account.mem_mailbox {s : Chats} {o : List Effect} (hs : Account s o) {a b : String}
    {c : Copy} : c ∈ s.mailbox a b ↔ c ∈ Chats.added o ∧ a = c.owner ∧ b = c.peer := by
  rw [hs.mailbox, List.mem_filter, decide_eq_true_eq]

/-- What the server has added and what it may still add has been issued. -/
theorem Account.shown_le {s : Chats} {o : List Effect} (hs : Account s o) :
    (Chats.added o : Multiset Copy) + pending unappliedOf s.inFlight ≤ Chats.issued o := by
  have hok : ((((answers o).filter fun a => a.2.1).map Prod.fst : List Copy) : Multiset Copy) ≤
      ((answers o).map Prod.fst : List Copy) :=
    Multiset.coe_le.mpr (List.filter_sublist.map Prod.fst).subperm
  rw [hs.added, hs.issued, add_comm, add_assoc]
  exact Multiset.add_le_add_left (Multiset.add_le_add_left hok)

theorem Account.added_le {s : Chats} {o : List Effect} (hs : Account s o) :
    (Chats.added o : Multiset Copy) ≤ Chats.issued o :=
  (Multiset.le_add_right _ _).trans hs.shown_le

theorem Account.issued_of_added {s : Chats} {o : List Effect} (hs : Account s o) {c : Copy}
    (hc : c ∈ Chats.added o) : c ∈ Chats.issued o :=
  Multiset.mem_coe.mp (Multiset.mem_of_le hs.added_le (Multiset.mem_coe.mpr hc))

/-- Documents that have been issued have different keys. -/
theorem Account.keyed_of {s : Chats} {o : List Effect} (hs : Account s o) {docs : List Copy}
    (h : docs.Subperm (Chats.issued o)) : Keyed Copy.key docs := by
  refine List.Nodup.of_map (fun key => (ofLex key).2) ?_
  have hids : ((Chats.issued o).map Copy.id).Nodup := by
    rw [hs.ids]
    exact hs.fresh
  obtain ⟨l, hperm, hsub⟩ := h
  rw [List.map_map]
  exact (hperm.map Copy.id).nodup_iff.mp ((hsub.map Copy.id).nodup hids)

theorem Account.keyed {s : Chats} {o : List Effect} (hs : Account s o) (a b : String) :
    Keyed Copy.key (s.mailbox a b) := by
  refine hs.keyed_of ?_
  rw [hs.mailbox]
  exact List.filter_sublist.subperm.trans (Multiset.coe_le.mp hs.added_le)

theorem Copy.owner_first {c : Copy} (h : c.sent = false) :
    c.owner = c.call.receiverId ∧ c.peer = c.call.uId := by
  unfold Copy.owner Copy.peer
  rw [h]
  exact ⟨rfl, rfl⟩

theorem Copy.owner_second {c : Copy} (h : c.sent = true) :
    c.owner = c.call.uId ∧ c.peer = c.call.receiverId := by
  unfold Copy.owner Copy.peer
  rw [h]
  exact ⟨rfl, rfl⟩

/-- The copies of one call lie in different mailboxes of different users. -/
theorem Account.named {s : Chats} {o : List Effect} (hs : Account s o) {a b : String}
    (hab : a ≠ b) : ((s.mailbox a b).map Copy.send).Nodup := by
  have hnodup : (s.mailbox a b).Nodup := (List.Nodup.of_map Copy.key (hs.keyed a b))
  refine hnodup.map_on fun c hc d hd hsend => ?_
  obtain ⟨hc, howner, hpeer⟩ := hs.mem_mailbox.mp hc
  obtain ⟨hd, howner', hpeer'⟩ := hs.mem_mailbox.mp hd
  have hc := hs.issued_of_added hc
  have hd := hs.issued_of_added hd
  have hcall := hs.call_eq hc hd hsend
  refine hs.copy_eq hc hd hsend ?_
  cases hsent : c.sent with
  | false =>
    cases hsent' : d.sent with
    | false => rfl
    | true =>
      rw [(Copy.owner_first hsent).2, hcall] at hpeer
      rw [(Copy.owner_second hsent').1] at howner'
      exact absurd (howner'.trans hpeer.symm) hab
  | true =>
    cases hsent' : d.sent with
    | true => rfl
    | false =>
      rw [(Copy.owner_second hsent).1, hcall] at howner
      rw [(Copy.owner_first hsent').2] at hpeer'
      exact absurd (howner.trans hpeer'.symm) hab

/-! ## One UTC offset -/

/-- Every copy issued has been read at the UTC offset `z`. -/
def Zoned (z : Int) (o : List Effect) : Prop := ∀ c ∈ issued o, c.reading.zone = z

theorem step_zoned {z : Int} {s s' : Chats} {e : Event} {o o' : List Effect} (hs : Zoned z o)
    (h : s.step e = some (s', o')) (he : ∀ zone, e.zone = some zone → zone = z) :
    Zoned z (o ++ o') := by
  intro c hc
  rw [issued_append] at hc
  rcases List.mem_append.mp hc with hc | hc
  · exact hs c hc
  cases step_did h with
  | other _ _ _ _ _ _ effects =>
    rcases effects with rfl | rfl
    · exact absurd hc (by simp [issued])
    · exact absurd hc (by simp [issued, issuedOf])
  | started _ _ zone _ effects =>
    rw [effects] at hc
    rw [List.mem_singleton.mp hc]
    exact he _ zone
  | wentOn _ _ _ zone _ effects =>
    rw [effects] at hc
    rw [List.mem_singleton.mp hc]
    exact he _ zone
  | applied _ _ effects =>
    rw [effects] at hc
    exact absurd hc (by simp [issued, issuedOf])
  | @settled k c' ok cubit uId _ _ _ effects =>
    rw [effects, (settled_logs c' ok cubit uId).1] at hc
    exact absurd hc List.not_mem_nil

theorem run_zoned {z : Int} {es : List Event} {s : Chats} {o : List Effect}
    (hes : ∀ e ∈ es, ∀ zone, e.zone = some zone → zone = z)
    (hrun : machine.run init es = some (s, o)) : Zoned z o := by
  refine Reactive.Machine.run_invariant (M := machine) (I := fun _ o => Zoned z o)
    (Q := fun _ e _ _ => ∀ zone, e.zone = some zone → zone = z) (a := []) ?_
    (by simp [Zoned, issued]) ?_ hrun
  · intro s e s' o a hs h he
    exact step_zoned hs h he
  · exact Reactive.Machine.every_of_forall (fun _ _ _ _ h => h) hes _

/-! ## Two mailboxes in one order -/

/-- The two users of a conversation see its messages in the same order. -/
def SameOrder (s : Chats) (a b : String) : Prop :=
  (orderBy Copy.key (s.mailbox a b)).map Copy.send =
    (orderBy Copy.key (s.mailbox b a)).map Copy.send

def Send.between (x : Send) (a b : String) : Prop :=
  x.uId = a ∧ x.receiverId = b ∨ x.uId = b ∧ x.receiverId = a

/-- `c` and `c'` are the two copies of a call of the conversation. -/
structure Pair (o : List Effect) (a b : String) (c c' : Copy) : Prop where
  first : c ∈ issued o
  second : c' ∈ issued o
  send : c.send = c'.send
  first_sent : c.sent = false
  second_sent : c'.sent = true
  between : c.call.between a b

/-- Of two sends of one user the same one is read first both times, and a send of
one user does not begin while one of the other is between its two readings. -/
def Apart (o : List Effect) (a b : String) : Prop :=
  ∀ c c' d d', Pair o a b c c' → Pair o a b d d' →
    (c.call.uId = d.call.uId → (c.at < d.at ↔ c'.at < d'.at)) ∧
    (c.call.uId ≠ d.call.uId →
      c'.reading.utc < d.reading.utc ∨ d'.reading.utc < c.reading.utc)

theorem at_lt_iff {z : Int} {o : List Effect} (hz : Zoned z o) {c d : Copy} (hc : c ∈ issued o)
    (hd : d ∈ issued o) (hne : c.reading.utc ≠ d.reading.utc) :
    c.at < d.at ↔ c.reading.utc < d.reading.utc := by
  rw [Copy.at, Copy.at, Prod.Lex.toLex_lt_toLex, hz c hc, hz d hd]
  dsimp only
  omega

/-- No two readings of different users coincide. -/
def Distinct (o : List Effect) : Prop :=
  ∀ c ∈ issued o, ∀ d ∈ issued o, c.call.uId ≠ d.call.uId → c.reading.utc ≠ d.reading.utc

section Conversation

variable {s : Chats} {o : List Effect} {a b : String} {c c' d d' : Copy}

theorem Pair.call_eq (hs : Account s o) (h : Pair o a b c c') : c.call = c'.call :=
  hs.call_eq h.first h.second h.send

theorem Pair.later (hs : Account s o) (h : Pair o a b c c') : c.reading.utc ≤ c'.reading.utc :=
  hs.later c h.first c' h.second h.send h.first_sent h.second_sent

/-- The mailboxes of the copies of a call, as seen from one of its two users. -/
theorem Pair.mem (hs : Account s o) (hdone : ∀ c ∈ issued o, c ∈ added o)
    (h : Pair o a b c c') :
    c.call.uId = b ∧ c ∈ s.mailbox a b ∧ c' ∈ s.mailbox b a ∨
      c.call.uId = a ∧ c' ∈ s.mailbox a b ∧ c ∈ s.mailbox b a := by
  obtain ⟨howner, hpeer⟩ := Copy.owner_first h.first_sent
  obtain ⟨howner', hpeer'⟩ := Copy.owner_second h.second_sent
  have hc := hdone c h.first
  have hc' := hdone c' h.second
  rw [← h.call_eq hs] at howner' hpeer'
  simp only [hs.mem_mailbox, howner, hpeer, howner', hpeer']
  rcases h.between with ⟨hu, hr⟩ | ⟨hu, hr⟩
  · exact Or.inr ⟨hu, ⟨hc', hu.symm, hr.symm⟩, hc, hr.symm, hu.symm⟩
  · exact Or.inl ⟨hu, ⟨hc, hr.symm, hu.symm⟩, hc', hu.symm, hr.symm⟩

/-- The copies of a call in the two mailboxes are its two copies. -/
theorem Account.sides (hs : Account s o) (hab : a ≠ b) (hc : c ∈ s.mailbox a b)
    (hc' : c' ∈ s.mailbox b a) (hsend : c.send = c'.send) :
    c.call.uId = b ∧ Pair o a b c c' ∨ c.call.uId = a ∧ Pair o a b c' c := by
  obtain ⟨hc, howner, hpeer⟩ := hs.mem_mailbox.mp hc
  obtain ⟨hc', howner', hpeer'⟩ := hs.mem_mailbox.mp hc'
  have hc := hs.issued_of_added hc
  have hc' := hs.issued_of_added hc'
  have hcall := hs.call_eq hc hc' hsend
  cases hsent : c.sent with
  | false =>
    rw [(Copy.owner_first hsent).1] at howner
    rw [(Copy.owner_first hsent).2] at hpeer
    cases hsent' : c'.sent with
    | false =>
      rw [(Copy.owner_first hsent').1, ← hcall] at howner'
      exact absurd (howner.trans howner'.symm) hab
    | true =>
      exact Or.inl ⟨hpeer.symm, { first := hc, second := hc', send := hsend, first_sent := hsent
                                  second_sent := hsent'
                                  between := Or.inr ⟨hpeer.symm, howner.symm⟩ }⟩
  | true =>
    rw [(Copy.owner_second hsent).1] at howner
    rw [(Copy.owner_second hsent).2] at hpeer
    cases hsent' : c'.sent with
    | true =>
      rw [(Copy.owner_second hsent').1, ← hcall] at howner'
      exact absurd (howner.trans howner'.symm) hab
    | false =>
      exact Or.inr ⟨howner.symm, { first := hc', second := hc, send := hsend.symm
                                   first_sent := hsent', second_sent := hsent
                                   between := hcall ▸ Or.inl ⟨howner.symm, hpeer.symm⟩ }⟩

/-- Sends of different users: their copies compare alike in the two mailboxes exactly
when one has made both its readings before the other begins. -/
theorem Pair.compare_iff {z : Int} (hs : Account s o) (hz : Zoned z o) (hdistinct : Distinct o)
    (h : Pair o a b c c') (h' : Pair o a b d d') (hne : c.call.uId ≠ d.call.uId) :
    (c'.at < d.at ↔ c.at < d'.at) ↔
      c'.reading.utc < d.reading.utc ∨ d'.reading.utc < c.reading.utc := by
  have hc := h.later hs
  have hd := h'.later hs
  have hcd : c'.reading.utc ≠ d.reading.utc :=
    hdistinct c' h.second d h'.first (h.call_eq hs ▸ hne)
  have hdc : c.reading.utc ≠ d'.reading.utc :=
    hdistinct c h.first d' h'.second (h'.call_eq hs ▸ hne)
  rw [at_lt_iff hz h.second h'.first hcd, at_lt_iff hz h.first h'.second hdc]
  omega

end Conversation

/-- The keys of the copies compare alike exactly when the sends keep apart. -/
theorem alike_iff {z : Int} {s : Chats} {o : List Effect} {a b : String} (hs : Account s o)
    (hz : Zoned z o) (hdistinct : Distinct o) (hdone : ∀ c ∈ issued o, c ∈ added o)
    (hab : a ≠ b) :
    Alike Copy.key Copy.send (s.mailbox a b) (s.mailbox b a) ↔ Apart o a b := by
  constructor
  · intro h c c' d d' hc hd
    have hcompare := hc.compare_iff hs hz hdistinct hd
    rcases hc.mem hs hdone with ⟨hu, hm, hm'⟩ | ⟨hu, hm, hm'⟩
    · rcases hd.mem hs hdone with ⟨hv, hn, hn'⟩ | ⟨hv, hn, hn'⟩
      · refine ⟨fun _ => ?_, fun hne => absurd (hu.trans hv.symm) hne⟩
        rw [← key_lt_iff, ← key_lt_iff]
        exact h c hm d hn c' hm' d' hn' hc.send hd.send
      · refine ⟨fun heq => absurd (hv.symm.trans (heq.symm.trans hu)) hab, fun hne => ?_⟩
        rw [← hcompare hne, ← key_lt_iff, ← key_lt_iff]
        exact (h c hm d' hn c' hm' d hn' hc.send hd.send.symm).symm
    · rcases hd.mem hs hdone with ⟨hv, hn, hn'⟩ | ⟨hv, hn, hn'⟩
      · refine ⟨fun heq => absurd (hu.symm.trans (heq.trans hv)) hab, fun hne => ?_⟩
        rw [← hcompare hne, ← key_lt_iff, ← key_lt_iff]
        exact h c' hm d hn c hm' d' hn' hc.send.symm hd.send
      · refine ⟨fun _ => ?_, fun hne => absurd (hu.trans hv.symm) hne⟩
        rw [← key_lt_iff, ← key_lt_iff]
        exact (h c' hm d' hn c hm' d hn' hc.send.symm hd.send.symm).symm
  · intro h c hc d hd c' hc' d' hd' hsend hsend'
    rw [key_lt_iff, key_lt_iff]
    rcases hs.sides hab hc hc' hsend with ⟨hu, hp⟩ | ⟨hu, hp⟩
    · rcases hs.sides hab hd hd' hsend' with ⟨hv, hq⟩ | ⟨hv, hq⟩
      · exact (h c c' d d' hp hq).1 (hu.trans hv.symm)
      · have hne : c.call.uId ≠ d'.call.uId := by
          rw [hu, hq.call_eq hs, hv]
          exact hab.symm
        exact ((hp.compare_iff hs hz hdistinct hq hne).mpr ((h c c' d' d hp hq).2 hne)).symm
    · rcases hs.sides hab hd hd' hsend' with ⟨hv, hq⟩ | ⟨hv, hq⟩
      · have hne : c'.call.uId ≠ d.call.uId := by
          rw [hp.call_eq hs, hu, hv]
          exact hab
        exact (hp.compare_iff hs hz hdistinct hq hne).mpr ((h c' c d d' hp hq).2 hne)
      · have heq : c'.call.uId = d'.call.uId := by
          rw [hp.call_eq hs, hq.call_eq hs, hu, hv]
        exact ((h c' c d' d hp hq).1 heq).symm

/-- When nothing is in flight the two users see one order exactly when their sends
kept apart. -/
theorem sameOrder_iff {z : Int} {es : List Event} {s : Chats} {o : List Effect} {a b : String}
    (hok : ∀ e ∈ es, e.succeeds = true)
    (hzone : ∀ e ∈ es, ∀ zone, e.zone = some zone → zone = z)
    (hrun : machine.run init es = some (s, o)) (hdistinct : Distinct o)
    (hdone : s.inFlight = []) :
    SameOrder s a b ↔ (a ≠ b → Apart o a b) := by
  have hs := run_account hrun
  have hallOk := run_allOk hok hrun
  have hadded : ∀ c ∈ issued o, c ∈ added o := fun c hc =>
    (hs.added_perm hallOk hdone).mem_iff.mpr hc
  by_cases hab : a = b
  · rw [hab]
    exact ⟨fun _ h => absurd rfl h, fun _ => rfl⟩
  · have hperm := (hs.calls_perm hallOk hdone a b).map Prod.fst
    rw [List.map_map, List.map_map] at hperm
    rw [SameOrder, Reactive.map_orderBy_eq_iff (hs.keyed a b) (hs.keyed b a) (hs.named hab) hperm,
      alike_iff hs (run_zoned hzone hrun) hdistinct hadded hab]
    exact ⟨fun h _ => h, fun h => h hab⟩

/-- Bob writes after Ann has read the clock twice. -/
def inTurn : List Event :=
  [.sendMessage "ann" "hello" "bob" 0 "1", .second 1 0 "2", .tick 1,
    .sendMessage "bob" "hi" "ann" 0 "3", .second 3 0 "4", .applied 0, .applied 1, .applied 2,
    .applied 3] ++
  List.replicate 4 (.settled 0 true { model := none, receiverDeviceToken := none } none)

theorem sameOrder_iff_inTurn :
    ∃ s o, machine.run init inTurn = some (s, o) ∧ SameOrder s "ann" "bob" ∧
      Apart o "ann" "bob" := by
  have hsame : ∃ s o, machine.run init inTurn = some (s, o) ∧ Distinct o ∧ s.inFlight = [] ∧
      SameOrder s "ann" "bob" := by
    refine ⟨_, _, rfl, ?_, rfl, ?_⟩
    · unfold Distinct
      decide
    · unfold SameOrder
      decide
  obtain ⟨s, o, hrun, hdistinct, hdone, hsame⟩ := hsame
  exact ⟨s, o, hrun, hsame,
    (sameOrder_iff (z := 0) (by decide) (by decide) hrun hdistinct hdone).mp hsame (by decide)⟩

/-- Ann and Bob write to each other at the same time: each reads the clock once more
after the other has read it. -/
def crossed : List Event :=
  [.sendMessage "ann" "hello" "bob" 0 "1", .tick 1, .sendMessage "bob" "hi" "ann" 0 "2", .tick 1,
    .second 1 0 "3", .tick 1, .second 3 0 "4", .applied 0, .applied 1, .applied 2, .applied 3] ++
  List.replicate 4 (.settled 0 true { model := none, receiverDeviceToken := none } none)

/-- Ann sees her message last and Bob sees it first. -/
theorem orders_crossed :
    ∃ s o, machine.run init crossed = some (s, o) ∧ Distinct o ∧ s.inFlight = [] ∧
      (orderBy Copy.key (s.mailbox "ann" "bob")).map Copy.send = [1, 0] ∧
      (orderBy Copy.key (s.mailbox "bob" "ann")).map Copy.send = [0, 1] ∧
      ¬ SameOrder s "ann" "bob" := by
  refine ⟨_, _, rfl, ?_, rfl, ?_, ?_, ?_⟩
  · unfold Distinct
    decide
  · decide
  · decide
  · unfold SameOrder
    decide

end Chats
end SocialApp
