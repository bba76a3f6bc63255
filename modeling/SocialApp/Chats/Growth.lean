import SocialApp.Chats.Order
import SocialApp.Reactive.Query

/-! # How a chat list grows

Each snapshot of a mailbox replaces the whole list.  The server only adds documents to a
mailbox, and a device takes a document of its own back only when the write has failed.  So a
later list has what an earlier one had, but for the messages that failed, in the same order.
A new message may stand above messages that were there before it. -/

namespace SocialApp

open Reactive (orderBy Keyed)

namespace Chats

/-- The copies of the list that a snapshot shows. -/
def listing (s : Chats) (a b : String) (k : Nat) (own : List String) : List Copy :=
  orderBy Copy.key (s.localView a b k own)

/-- The ids of the documents whose writes have failed. -/
def withdrawn (o : List Effect) : List String :=
  ((answers o).filter fun a => !a.2.1).map fun a => a.1.id

/-! ## The documents -/

theorem step_mailbox_grows {s s' : Chats} {e : Event} {o : List Effect}
    (h : s.step e = some (s', o)) (a b : String) : s.mailbox a b <+: s'.mailbox a b := by
  have hkept : s'.mailbox = s.mailbox → s.mailbox a b <+: s'.mailbox a b :=
    fun heq => heq ▸ List.prefix_refl _
  cases step_did h with
  | other _ mailbox _ _ _ _ _ => exact hkept mailbox
  | started _ _ _ state _ => exact hkept (by rw [state])
  | wentOn _ _ _ _ state _ => exact hkept (by rw [state])
  | settled _ _ state _ => exact hkept (by rw [state]; rfl)
  | @applied k c _ state _ =>
    have hmailbox : s'.mailbox a b =
        if a = c.owner ∧ b = c.peer then s.mailbox a b ++ [c] else s.mailbox a b := by
      rw [state]
      rfl
    by_cases hpath : a = c.owner ∧ b = c.peer
    · exact ⟨[c], by rw [hmailbox, if_pos hpath]⟩
    · exact ⟨[], by rw [hmailbox, if_neg hpath, List.append_nil]⟩

theorem run_mailbox_grows {es : List Event} {s s' : Chats} {o : List Effect} (a b : String)
    (hrun : machine.run s es = some (s', o)) : s.mailbox a b <+: s'.mailbox a b :=
  Reactive.Machine.run_state_preserves (I := fun t => s.mailbox a b <+: t.mailbox a b)
    (fun _ _ _ _ hs h => hs.trans (step_mailbox_grows h a b)) (List.prefix_refl _) hrun

section Documents

variable {s s' : Chats} {o o' : List Effect} {a b : String} {k k' : Nat} {own own' : List String}
  {c : Copy}

/-- A document is on the server, on its way, or its write has failed. -/
theorem Account.fate (hs : Account s o) (hc : c ∈ Chats.issued o) :
    c ∈ Chats.added o ∨ c ∈ pending unappliedOf s.inFlight ∨ c.id ∈ withdrawn o := by
  have hc : c ∈ (Chats.issued o : Multiset Copy) := hc
  rw [hs.issued, Multiset.mem_add, Multiset.mem_add] at hc
  rcases hc with (hc | hc) | hc
  · exact .inr (.inl hc)
  · refine .inl (Multiset.mem_coe.mp ?_)
    rw [hs.added]
    exact Multiset.mem_add.mpr (.inl hc)
  · obtain ⟨answer, hanswer, rfl⟩ := List.mem_map.mp (Multiset.mem_coe.mp hc)
    cases hok : answer.2.1 with
    | true =>
      refine .inl (Multiset.mem_coe.mp ?_)
      rw [hs.added]
      exact Multiset.mem_add.mpr (.inr (Multiset.mem_coe.mpr
        (List.mem_map_of_mem (List.mem_filter.mpr ⟨hanswer, hok⟩))))
    | false =>
      have hfailed : answer ∈ (answers o).filter fun a => !a.2.1 :=
        List.mem_filter.mpr ⟨hanswer, by rw [hok]; rfl⟩
      exact .inr (.inr (List.mem_map_of_mem (f := fun a => a.1.id) hfailed))

/-- A document whose write has failed is neither on the server nor on its way. -/
theorem Account.not_withdrawn (hs : Account s o)
    (hc : c ∈ Chats.added o ∨ c ∈ pending unappliedOf s.inFlight) : c.id ∉ withdrawn o := by
  intro hid
  have hids : ((Chats.issued o : Multiset Copy).map Copy.id).Nodup := by
    rw [Multiset.map_coe, hs.ids]
    exact Multiset.coe_nodup.mpr hs.fresh
  -- the answers are of the writes that succeeded, which are added, and of those that failed
  have hsplit : (Chats.issued o : Multiset Copy) =
      (pending unappliedOf s.inFlight + Chats.added o) +
        (((answers o).filter fun a => !a.2.1).map Prod.fst : List Copy) := by
    have hanswers : ((answers o).map Prod.fst : Multiset Copy) =
        (((answers o).filter fun a => a.2.1).map Prod.fst : List Copy) +
          (((answers o).filter fun a => !a.2.1).map Prod.fst : List Copy) := by
      rw [Multiset.coe_add, ← List.map_append]
      exact Multiset.coe_eq_coe.mpr
        ((List.filter_append_perm (fun a => a.2.1) (answers o)).map Prod.fst).symm
    rw [hs.issued, hanswers, hs.added]
    abel
  rw [hsplit, Multiset.map_add] at hids
  have hmem : c.id ∈ (pending unappliedOf s.inFlight + (Chats.added o : Multiset Copy)).map
      Copy.id := by
    refine Multiset.mem_map_of_mem _ (Multiset.mem_add.mpr ?_)
    exact hc.symm.imp_right Multiset.mem_coe.mpr
  refine Multiset.disjoint_left.mp (Multiset.nodup_add.mp hids).2.2 hmem ?_
  rw [Multiset.map_coe, List.map_map]
  exact Multiset.mem_coe.mpr hid

theorem Account.mem_shown (hs : Account s o) : c ∈ s.mailbox a b ++ s.waiting a b ↔
    (c ∈ Chats.added o ∨ c ∈ pending unappliedOf s.inFlight) ∧ a = c.owner ∧ b = c.peer := by
  rw [List.mem_append, hs.mem_mailbox, mem_waiting]
  exact or_and_right.symm

theorem Account.localView_keyed (hs : Account s o) (a b : String) (k : Nat)
    (own : List String) : Keyed Copy.key (s.localView a b k own) := by
  refine hs.keyed_of ?_
  have hsub : (s.localView a b k own).Sublist (s.mailbox a b ++ s.waiting a b) := by
    conv_rhs => rw [← List.take_append_drop k (s.mailbox a b), List.append_assoc]
    exact (List.Sublist.refl _).append List.filter_sublist
  have hshown : (s.mailbox a b ++ s.waiting a b).Sublist
      (Chats.added o ++ s.inFlight.filterMap unappliedOf) := by
    rw [hs.mailbox]
    exact List.filter_sublist.append List.filter_sublist
  refine (hsub.trans hshown).subperm.trans (Multiset.coe_le.mp ?_)
  rw [← Multiset.coe_add]
  exact hs.shown_le

/-- What a device shows it shows until the write has failed. -/
theorem Account.localView_grows (hs : Account s o) (hs' : Account s' (o ++ o'))
    (hmailbox : s.mailbox a b <+: s'.mailbox a b) (hk : k ≤ k') (hown : own ⊆ own')
    (hc : c ∈ s.localView a b k own) (hid : c.id ∉ withdrawn (o ++ o')) :
    c ∈ s'.localView a b k' own' := by
  rw [mem_localView] at hc ⊢
  rcases hc with hc | ⟨hc, hcown⟩
  · obtain ⟨rest, hrest⟩ := hmailbox
    left
    rw [← hrest, List.take_append]
    exact List.mem_append_left _ ((List.take_prefix_take_left hk).subset hc)
  · obtain ⟨hc, hpath⟩ := hs.mem_shown.mp hc
    have hissued : c ∈ Chats.issued o := by
      have hmem : c ∈ (Chats.added o : Multiset Copy) + pending unappliedOf s.inFlight :=
        Multiset.mem_add.mpr (hc.imp_left Multiset.mem_coe.mpr)
      exact Multiset.mem_coe.mp (Multiset.mem_of_le hs.shown_le hmem)
    right
    refine ⟨hs'.mem_shown.mpr ⟨?_, hpath⟩, hown hcown⟩
    have hissued' : c ∈ Chats.issued (o ++ o') := by
      rw [issued_append]
      exact List.mem_append_left _ hissued
    rcases hs'.fate hissued' with hadded | hwaiting | hfailed
    · exact .inl hadded
    · exact .inr hwaiting
    · exact absurd hfailed hid

theorem snapshot_chat (h : s.step (.snapshot a b k own) = some (s', o)) :
    s'.chat a b = (s.listing a b k own).map Copy.message := by
  rw [← (Prod.mk.inj (Option.some.inj h)).1]
  exact if_pos ⟨rfl, rfl⟩

end Documents

/-! ## Two snapshots -/

instance : Std.Asymm fun c d : Copy => c.key < d.key := ⟨fun _ _ => lt_asymm⟩

/-- Two snapshots of a mailbox on one device in any run, the later one of at least as many
of the server's documents and of the device's own.  The list after the later one has the
messages of the list after the earlier one but for those whose writes have failed, in the
same order.  The other messages stand below them all exactly when they have been written at
later local times than each of them, or at the same time and with larger ids. -/
theorem chat_grows {es₁ es₂ : List Event} {s₁ s₂ s₃ s₄ : Chats} {o₁ o₂ o₃ o₄ : List Effect}
    {a b : String} {k k' : Nat} {own own' : List String}
    (h₁ : machine.run init es₁ = some (s₁, o₁))
    (hearlier : machine.step s₁ (.snapshot a b k own) = some (s₂, o₂))
    (h₂ : machine.run s₂ es₂ = some (s₃, o₃))
    (hlater : machine.step s₃ (.snapshot a b k' own') = some (s₄, o₄)) (hk : k ≤ k')
    (hown : own ⊆ own') :
    s₂.chat a b = (s₁.listing a b k own).map Copy.message ∧
      s₄.chat a b = (s₃.listing a b k' own').map Copy.message ∧
      (∀ c ∈ s₃.listing a b k' own', c.id ∉ withdrawn (o₁ ++ (o₂ ++ o₃))) ∧
      ∀ kept, kept = (s₁.listing a b k own).filter
          (fun c => c.id ∉ withdrawn (o₁ ++ (o₂ ++ o₃))) →
        kept.Sublist (s₃.listing a b k' own') ∧
        (kept <+: s₃.listing a b k' own' ↔
          ∀ c ∈ s₃.listing a b k' own', c ∉ kept → ∀ d ∈ kept, d.at < c.at) := by
  have hrun : machine.run init (es₁ ++ .snapshot a b k own :: es₂) =
      some (s₃, o₁ ++ (o₂ ++ o₃)) :=
    Reactive.Machine.run_append.mpr ⟨s₁, o₁, _, h₁,
      Reactive.Machine.run_cons.mpr ⟨s₂, o₂, o₃, hearlier, h₂, rfl⟩, rfl⟩
  have hmailbox : s₁.mailbox a b <+: s₃.mailbox a b :=
    (step_mailbox_grows (e := .snapshot a b k own) hearlier a b).trans (run_mailbox_grows a b h₂)
  have hs₁ := run_account h₁
  have hs₃ := run_account hrun
  refine ⟨snapshot_chat hearlier, snapshot_chat hlater, fun c hc => ?_, fun kept hkept => ?_⟩
  · have hshown := mem_of_mem_localView (Reactive.mem_orderBy.mp hc)
    exact hs₃.not_withdrawn (hs₃.mem_shown.mp hshown).1
  · have hlists₁ := (hs₁.localView_keyed a b k own).lists.filter
      fun c => decide (c.id ∉ withdrawn (o₁ ++ (o₂ ++ o₃)))
    have hlists₃ := (hs₃.localView_keyed a b k' own').lists
    -- what has not failed is still shown
    have hmore : ∀ c, c ∈ s₁.localView a b k own ∧
        decide (c.id ∉ withdrawn (o₁ ++ (o₂ ++ o₃))) = true → c ∈ s₃.localView a b k' own' :=
      fun c hc => hs₁.localView_grows hs₃ hmailbox hk hown hc.1 (of_decide_eq_true hc.2)
    rw [hkept]
    refine ⟨hlists₁.sublist hlists₃ hmore, (hlists₁.prefix_iff hlists₃ hmore).trans ?_⟩
    exact forall₂_congr fun c _ => forall_congr' fun _ => forall₂_congr fun d _ => key_lt_iff

/-- Ann has sent two messages, which her device shows at once. -/
def sentTwo : List Event :=
  [.tick 7200000000, .sendMessage "ann" "one" "bob" 0 "1", .second 1 0 "2",
    .sendMessage "ann" "two" "bob" 0 "3", .second 3 0 "4"]

/-- Her copy of the second one fails, and Bob, one hour to the west, sends one. -/
def oneFails : List Event :=
  [.settled 3 false { model := none, receiverDeviceToken := none } none, .applied 1,
    .sendMessage "bob" "hi" "ann" (-3600000000) "5", .applied 3]

theorem chat_grows_oneFails :
    ∃ s₁ o₁ s₂ o₂ s₃ o₃ s₄ o₄, machine.run init sentTwo = some (s₁, o₁) ∧
      machine.step s₁ (.snapshot "ann" "bob" 0 ["2", "4"]) = some (s₂, o₂) ∧
      machine.run s₂ oneFails = some (s₃, o₃) ∧
      machine.step s₃ (.snapshot "ann" "bob" 2 ["2", "4"]) = some (s₄, o₄) ∧
      ((s₁.listing "ann" "bob" 0 ["2", "4"]).map fun c => c.call.text) = ["one", "two"] ∧
      ((s₃.listing "ann" "bob" 2 ["2", "4"]).map fun c => c.call.text) = ["hi", "one"] ∧
      ((s₁.listing "ann" "bob" 0 ["2", "4"]).filter
          fun c => c.id ∉ withdrawn (o₁ ++ (o₂ ++ o₃))).Sublist
        (s₃.listing "ann" "bob" 2 ["2", "4"]) := by
  refine ⟨_, _, _, _, _, _, _, _, rfl, rfl, rfl, rfl, ?_, ?_, ?_⟩
  · decide
  · decide
  · exact ((@chat_grows sentTwo oneFails _ _ _ _ _ _ _ _ "ann" "bob" 0 2 ["2", "4"] ["2", "4"]
      rfl rfl rfl rfl (by decide) (by simp)).2.2.2 _ rfl).1

end Chats
end SocialApp
