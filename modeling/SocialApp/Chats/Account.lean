import SocialApp.Chats.Cubit
import SocialApp.Reactive.InFlight
import Mathlib.Data.Multiset.AddSub
import Mathlib.Algebra.Order.Group.Multiset
import Mathlib.Tactic.Abel

/-! # The account of the copies

Every copy that was issued is in flight or has settled, a copy is in its mailbox
when the server has carried its write out, and each call issues one copy for the
receiver and then one for the sender. -/

namespace SocialApp

open Reactive (orderBy)

namespace Chats

/-! ## What the effects record -/

def issuedOf : Effect → Option Copy
  | .issue c => some c
  | _ => none

def appliedOf : Effect → Option Copy
  | .applied c => some c
  | _ => none

def settledOf : Effect → Option (Copy × Bool × ChatCubit)
  | .settled c ok cubit => some (c, ok, cubit)
  | _ => none

/-- The copies issued, in the order they were. -/
def issued (o : List Effect) : List Copy := o.filterMap issuedOf

/-- The copies that the server has added, in the order it did. -/
def added (o : List Effect) : List Copy := o.filterMap appliedOf

/-- The writes that settled, with how they did and what their handlers found. -/
def answers (o : List Effect) : List (Copy × Bool × ChatCubit) := o.filterMap settledOf

theorem issued_append (o o' : List Effect) : issued (o ++ o') = issued o ++ issued o' :=
  List.filterMap_append

theorem added_append (o o' : List Effect) : added (o ++ o') = added o ++ added o' :=
  List.filterMap_append

theorem answers_append (o o' : List Effect) : answers (o ++ o') = answers o ++ answers o' :=
  List.filterMap_append

/-! ## The callbacks in flight -/

def carriedOf : Pending → Option Copy
  | .write c true => some c
  | _ => none

def secondOf : Pending → Option (Nat × Send)
  | .second n x => some (n, x)
  | _ => none

/-- The callbacks of one kind. -/
def pending {β : Type} (f : Pending → Option β) (inFlight : List Pending) : Multiset β :=
  (inFlight.filterMap f : List β)

theorem pending_append {β : Type} (f : Pending → Option β) (l l' : List Pending) :
    pending f (l ++ l') = pending f l + pending f l' := by
  rw [pending, List.filterMap_append, ← Multiset.coe_add]
  rfl

theorem pending_eraseIdx {β : Type} {l : List Pending} {k : Nat} {p : Pending}
    (hk : l[k]? = some p) (f : Pending → Option β) :
    pending f l = ((f p).toList : Multiset β) + pending f (l.eraseIdx k) := by
  rw [pending, pending, Multiset.coe_add]
  exact Multiset.coe_eq_coe.mpr (Reactive.filterMap_perm_eraseIdx hk f)

theorem pending_set {β : Type} {l : List Pending} {k : Nat} {p : Pending}
    (hk : l[k]? = some p) (p' : Pending) (f : Pending → Option β) :
    pending f (l.set k p') = ((f p').toList : Multiset β) + pending f (l.eraseIdx k) := by
  rw [pending, pending, Multiset.coe_add]
  exact Multiset.coe_eq_coe.mpr (Reactive.filterMap_set_perm hk f p')

/-! ## What a device shows -/

section View

variable {s : Chats} {owner peer : String} {k : Nat} {own : List String} {c : Copy}

theorem mem_waiting : c ∈ s.waiting owner peer ↔
    c ∈ pending unappliedOf s.inFlight ∧ owner = c.owner ∧ peer = c.peer := by
  rw [waiting, List.mem_filter, decide_eq_true_eq]
  exact Iff.rfl

theorem mem_localView : c ∈ s.localView owner peer k own ↔
    c ∈ (s.mailbox owner peer).take k ∨
      c ∈ s.mailbox owner peer ++ s.waiting owner peer ∧ c.id ∈ own := by
  unfold localView
  rw [List.mem_append, List.mem_filter, decide_eq_true_eq, List.mem_append, List.mem_append]
  constructor
  · rintro (hc | ⟨hc | hc, hown⟩)
    · exact .inl hc
    · exact .inr ⟨.inl (List.mem_of_mem_drop hc), hown⟩
    · exact .inr ⟨.inr hc, hown⟩
  · rintro (hc | ⟨hc | hc, hown⟩)
    · exact .inl hc
    · rw [← List.take_append_drop k (s.mailbox owner peer)] at hc
      rcases List.mem_append.mp hc with hc | hc
      · exact .inl hc
      · exact .inr ⟨.inl hc, hown⟩
    · exact .inr ⟨.inr hc, hown⟩

theorem mem_of_mem_localView (hc : c ∈ s.localView owner peer k own) :
    c ∈ s.mailbox owner peer ++ s.waiting owner peer := by
  rcases mem_localView.mp hc with hc | hc
  · exact List.mem_append_left _ (List.mem_of_mem_take hc)
  · exact hc.1

end View

/-! ## Steps -/

/-- The UTC offset with which an event reads the clock. -/
def Event.zone : Event → Option Int
  | .sendMessage _ _ _ zone _ => some zone
  | .sendImageToChat _ _ _ zone _ => some zone
  | .second _ zone _ => some zone
  | _ => none

/-- No write fails. -/
def Event.succeeds : Event → Bool
  | .settled _ ok _ _ => ok
  | _ => true

/-- What a step can do. -/
inductive Did (s s' : Chats) (o : List Effect) (e : Event) : Prop
  /-- Time passes, or a snapshot arrives. -/
  | other (now : s.now ≤ s'.now) (mailbox : s'.mailbox = s.mailbox)
      (chat : ∀ a b, ∀ m ∈ s'.chat a b,
        m ∈ s.chat a b ∨ ∃ c ∈ s.mailbox a b ++ s.waiting a b, c.message = m)
      (inFlight : s'.inFlight = s.inFlight) (calls : s'.calls = s.calls) (ids : s'.ids = s.ids)
      (effects : o = [] ∨ o = [.emit none .getMessagesSuccess])
  | started {x : Send} {reading : Reading} {id : String} (fresh : id ∉ s.ids)
      (utc : reading.utc = s.now) (zone : e.zone = some reading.zone)
      (state : s' = { s with
        calls := s.calls ++ [{ send := x, seen := s.shown x.uId }], ids := s.ids ++ [id],
        inFlight := s.inFlight ++
          [.write { send := s.calls.length, call := x, sent := false, reading, id } false,
            .second s.calls.length x] })
      (effects : o = [.emit (some s.calls.length) .sendMessageLoading,
        .issue { send := s.calls.length, call := x, sent := false, reading, id }])
  | wentOn {k n : Nat} {x : Send} {reading : Reading} {id : String} (fresh : id ∉ s.ids)
      (request : s.inFlight[k]? = some (.second n x)) (utc : reading.utc = s.now)
      (zone : e.zone = some reading.zone)
      (state : s' = { s with
        ids := s.ids ++ [id],
        inFlight := s.inFlight.set k
          (.write { send := n, call := x, sent := true, reading, id } false) })
      (effects : o = [.issue { send := n, call := x, sent := true, reading, id }])
  | applied {k : Nat} {c : Copy} (request : s.inFlight[k]? = some (.write c false))
      (state : s' = ({ s with inFlight := s.inFlight.set k (.write c true) } : Chats).add c)
      (effects : o = [.applied c])
  | settled {k : Nat} {c : Copy} {ok : Bool} {cubit : ChatCubit} {uId : Option String}
      (event : e = .settled k ok cubit uId) (request : s.inFlight[k]? = some (.write c ok))
      (state : s' = s.landed k)
      (effects : o = .settled c ok cubit :: writeThen c ok cubit uId)

theorem Reading.at_utc {utc : Nat} {zone : Int} {reading : Reading}
    (h : Reading.at utc zone = some reading) : reading.utc = utc ∧ reading.zone = zone := by
  unfold Reading.at at h
  split at h
  · rw [← Option.some.inj h]
    exact ⟨rfl, rfl⟩
  · exact absurd h (by simp)

theorem start_did {s s' : Chats} {x : Send} {zone : Int} {id : String} {o : List Effect}
    {e : Event} (he : e.zone = some zone) (h : s.start x zone id = some (s', o)) :
    Did s s' o e := by
  unfold start at h
  by_cases hid : id ∈ s.ids
  · rw [if_pos hid] at h
    exact absurd h (by simp)
  · rw [if_neg hid, Option.map_eq_some_iff] at h
    obtain ⟨reading, hreading, heq⟩ := h
    obtain ⟨rfl, rfl⟩ := Prod.mk.inj heq
    obtain ⟨hutc, hzone⟩ := Reading.at_utc hreading
    exact .started hid hutc (hzone ▸ he) rfl rfl

theorem step_did {s s' : Chats} {e : Event} {o : List Effect} (h : s.step e = some (s', o)) :
    Did s s' o e := by
  cases e with
  | tick d =>
    obtain ⟨rfl, rfl⟩ := Prod.mk.inj (Option.some.inj h)
    exact .other (Nat.le_add_right _ _) rfl (fun _ _ _ hm => Or.inl hm) rfl rfl rfl (Or.inl rfl)
  | sendMessage uId message receiverId zone id => exact start_did rfl h
  | sendImageToChat uId image receiverId zone id => exact start_did rfl h
  | second k zone id =>
    simp only [step] at h
    split at h
    · rename_i n x hk
      unfold goOn at h
      by_cases hid : id ∈ s.ids
      · rw [if_pos hid] at h
        exact absurd h (by simp)
      · rw [if_neg hid, Option.map_eq_some_iff] at h
        obtain ⟨reading, hreading, heq⟩ := h
        obtain ⟨rfl, rfl⟩ := Prod.mk.inj heq
        obtain ⟨hutc, hzone⟩ := Reading.at_utc hreading
        exact .wentOn hid hk hutc (congrArg some hzone.symm) rfl rfl
    · exact absurd h (by simp)
  | applied k =>
    simp only [step] at h
    split at h
    · rename_i c hk
      obtain ⟨rfl, rfl⟩ := Prod.mk.inj (Option.some.inj h)
      exact .applied hk rfl rfl
    · exact absurd h (by simp)
  | settled k ok cubit uId =>
    simp only [step] at h
    split at h
    · rename_i c carried hk
      split at h
      · rename_i hok
        obtain ⟨rfl, rfl⟩ := Prod.mk.inj (Option.some.inj h)
        exact .settled rfl (hok ▸ hk) rfl rfl
      · exact absurd h (by simp)
    · exact absurd h (by simp)
  | snapshot owner peer k own =>
    obtain ⟨rfl, rfl⟩ := Prod.mk.inj (Option.some.inj h)
    refine .other (Nat.le_refl _) rfl (fun a b m hm => ?_) rfl rfl rfl (Or.inr rfl)
    have hm : m ∈ if a = owner ∧ b = peer
      then (orderBy Copy.key (s.localView owner peer k own)).map Copy.message
      else s.chat a b := hm
    by_cases hpath : a = owner ∧ b = peer
    · rw [if_pos hpath] at hm
      obtain ⟨c, hc, rfl⟩ := List.mem_map.mp hm
      rw [hpath.1, hpath.2]
      exact Or.inr ⟨c, mem_of_mem_localView (Reactive.mem_orderBy.mp hc), rfl⟩
    · rw [if_neg hpath] at hm
      exact Or.inl hm

/-! ## The account -/

/-- The calls made, with their numbers. -/
def made (calls : List Call) : List (Nat × Send) := calls.mapIdx fun n c => (n, c.send)

/-- The number of the call of a copy, and the call. -/
def Copy.of (c : Copy) : Nat × Send := (c.send, c.call)

/-- Every copy issued is in flight or has settled; the mailboxes hold the copies that
the server has added; each call has issued its copy for the receiver, and that for the
sender or has still to issue it. -/
structure Account (s : Chats) (o : List Effect) : Prop where
  issued : (issued o : Multiset Copy) =
    pending unappliedOf s.inFlight + pending carriedOf s.inFlight +
      ((answers o).map Prod.fst : List Copy)
  added : (added o : Multiset Copy) =
    pending carriedOf s.inFlight + (((answers o).filter fun a => a.2.1).map Prod.fst : List Copy)
  mailbox : ∀ a b, s.mailbox a b = (Chats.added o).filter fun c => a = c.owner ∧ b = c.peer
  ids : (Chats.issued o).map Copy.id = s.ids
  fresh : s.ids.Nodup
  firsts : ((Chats.issued o).filter fun c => !c.sent).map Copy.of = made s.calls
  seconds : (((Chats.issued o).filter fun c => c.sent).map Copy.of : Multiset (Nat × Send)) +
    pending secondOf s.inFlight = (made s.calls : Multiset (Nat × Send))
  times : ∀ c ∈ Chats.issued o, c.reading.utc ≤ s.now
  later : ∀ c ∈ Chats.issued o, ∀ c' ∈ Chats.issued o, c.send = c'.send → c.sent = false →
    c'.sent = true → c.reading.utc ≤ c'.reading.utc

theorem init_account : Account init [] :=
  { issued := rfl, added := rfl, mailbox := fun _ _ => rfl
    ids := rfl, fresh := List.nodup_nil
    firsts := rfl, seconds := rfl, times := by simp [Chats.issued], later := by simp [Chats.issued] }

theorem Account.of_mem {s : Chats} {o : List Effect} (hs : Account s o) {c : Copy}
    (hc : c ∈ Chats.issued o) : c.of ∈ made s.calls := by
  cases hsent : c.sent with
  | false =>
    rw [← hs.firsts]
    exact List.mem_map_of_mem (List.mem_filter.mpr ⟨hc, by simp [hsent]⟩)
  | true =>
    rw [← Multiset.mem_coe, ← hs.seconds]
    refine Multiset.mem_add.mpr (Or.inl (Multiset.mem_coe.mpr ?_))
    exact List.mem_map_of_mem (List.mem_filter.mpr ⟨hc, hsent⟩)

theorem mem_made {s : Chats} {n : Nat} {x : Send} (h : (n, x) ∈ made s.calls) :
    ∃ call, s.calls[n]? = some call ∧ call.send = x := by
  obtain ⟨i, hi, heq⟩ := List.mem_mapIdx.mp h
  obtain ⟨rfl, rfl⟩ := Prod.mk.inj heq
  exact ⟨_, List.getElem?_eq_getElem hi, rfl⟩

theorem Account.send_lt {s : Chats} {o : List Effect} (hs : Account s o) {c : Copy}
    (hc : c ∈ Chats.issued o) : c.send < s.calls.length := by
  obtain ⟨call, hcall, _⟩ := mem_made (hs.of_mem hc)
  exact (List.getElem?_eq_some_iff.mp hcall).1

theorem writeThen_issued (c : Copy) (ok : Bool) (cubit : ChatCubit) (uId : Option String) :
    ∀ x ∈ writeThen c ok cubit uId,
      issuedOf x = none ∧ appliedOf x = none ∧ settledOf x = none := by
  have hemit : ∀ call state, issuedOf (.emit call state) = none ∧
      appliedOf (.emit call state) = none ∧ settledOf (.emit call state) = none :=
    fun _ _ => ⟨rfl, rfl, rfl⟩
  intro x hx
  unfold writeThen at hx
  split at hx
  · rw [List.mem_singleton.mp hx]
    exact hemit _ _
  · exact absurd hx (by simp)
  · rcases List.mem_cons.mp hx with rfl | hx
    · exact hemit _ _
    · split at hx
      · split at hx
        · rw [List.mem_singleton.mp hx]
          exact ⟨rfl, rfl, rfl⟩
        · rw [List.mem_singleton.mp hx]
          exact hemit _ _
      · exact absurd hx (by simp)

/-- What the effects of a settled write record is that it has settled. -/
theorem settled_logs (c : Copy) (ok : Bool) (cubit : ChatCubit) (uId : Option String) :
    issued (.settled c ok cubit :: writeThen c ok cubit uId) = [] ∧
      added (.settled c ok cubit :: writeThen c ok cubit uId) = [] ∧
      answers (.settled c ok cubit :: writeThen c ok cubit uId) = [(c, ok, cubit)] := by
  have hlogs := writeThen_issued c ok cubit uId
  refine ⟨?_, ?_, ?_⟩
  · exact List.filterMap_eq_nil_iff.mpr (List.forall_mem_cons.mpr ⟨rfl, fun x hx => (hlogs x hx).1⟩)
  · exact List.filterMap_eq_nil_iff.mpr
      (List.forall_mem_cons.mpr ⟨rfl, fun x hx => (hlogs x hx).2.1⟩)
  · exact congrArg (List.cons _)
      (List.filterMap_eq_nil_iff.mpr fun x hx => (hlogs x hx).2.2)

/-- Nothing is recorded. -/
theorem Account.of_other {s s' : Chats} {o o' : List Effect} (hs : Account s o)
    (now : s.now ≤ s'.now) (mailbox : s'.mailbox = s.mailbox) (inFlight : s'.inFlight = s.inFlight)
    (calls : s'.calls = s.calls) (ids : s'.ids = s.ids)
    (effects : o' = [] ∨ o' = [.emit none .getMessagesSuccess]) : Account s' (o ++ o') := by
  have hlogs : Chats.issued o' = [] ∧ Chats.added o' = [] ∧ answers o' = [] := by
    rcases effects with rfl | rfl
    · exact ⟨rfl, rfl, rfl⟩
    · exact ⟨rfl, rfl, rfl⟩
  have hissued : Chats.issued (o ++ o') = Chats.issued o := by
    rw [issued_append, hlogs.1, List.append_nil]
  have hadded : Chats.added (o ++ o') = Chats.added o := by
    rw [added_append, hlogs.2.1, List.append_nil]
  have hanswers : answers (o ++ o') = answers o := by
    rw [answers_append, hlogs.2.2, List.append_nil]
  exact { issued := by rw [hissued, hanswers, inFlight]; exact hs.issued
          added := by rw [hadded, hanswers, inFlight]; exact hs.added
          mailbox := fun a b => by rw [mailbox, hadded]; exact hs.mailbox a b
          ids := by rw [hissued, ids]; exact hs.ids
          fresh := ids ▸ hs.fresh
          firsts := by rw [hissued, calls]; exact hs.firsts
          seconds := by rw [hissued, inFlight, calls]; exact hs.seconds
          times := fun c hc => Nat.le_trans (hs.times c (hissued ▸ hc)) now
          later := hissued ▸ hs.later }

theorem made_concat (calls : List Call) (call : Call) :
    made (calls ++ [call]) = made calls ++ [(calls.length, call.send)] := by
  simp [made, List.mapIdx_append]

/-- One more copy has an id of its own. -/
theorem Account.ids_concat {s : Chats} {o : List Effect} (hs : Account s o) {id : String}
    (fresh : id ∉ s.ids) : (s.ids ++ [id]).Nodup := by
  refine List.nodup_append.mpr ⟨hs.fresh, List.nodup_singleton _, fun i hi j hj hij => ?_⟩
  rw [List.mem_singleton.mp hj] at hij
  exact fresh (hij ▸ hi)

/-- One more copy has been read by now. -/
theorem Account.times_concat {s : Chats} {o : List Effect} (hs : Account s o) {c : Copy}
    (utc : c.reading.utc = s.now) :
    ∀ d ∈ Chats.issued o ++ [c], d.reading.utc ≤ s.now := by
  intro d hd
  rcases List.mem_append.mp hd with hd | hd
  · exact hs.times d hd
  · rw [List.mem_singleton.mp hd]
    exact Nat.le_of_eq utc

theorem Account.started {s : Chats} {o : List Effect} (hs : Account s o) {x : Send}
    {reading : Reading} {id : String} (fresh : id ∉ s.ids) (utc : reading.utc = s.now) :
    Account
      { s with
        calls := s.calls ++ [{ send := x, seen := s.shown x.uId }], ids := s.ids ++ [id],
        inFlight := s.inFlight ++
          [.write { send := s.calls.length, call := x, sent := false, reading, id } false,
            .second s.calls.length x] }
      (o ++ [.emit (some s.calls.length) .sendMessageLoading,
        .issue { send := s.calls.length, call := x, sent := false, reading, id }]) := by
  have hissued : ∀ c, Chats.issued (o ++ [.emit (some s.calls.length) .sendMessageLoading,
      .issue c]) = Chats.issued o ++ [c] := fun c => issued_append _ _
  have hadded : ∀ c, Chats.added (o ++ [.emit (some s.calls.length) .sendMessageLoading,
      .issue c]) = Chats.added o := fun c => (added_append _ _).trans (List.append_nil _)
  have hanswers : ∀ c, answers (o ++ [.emit (some s.calls.length) .sendMessageLoading,
      .issue c]) = answers o := fun c => (answers_append _ _).trans (List.append_nil _)
  refine { issued := ?_, added := ?_, mailbox := ?_, ids := ?_, fresh := ?_, firsts := ?_
           seconds := ?_, times := ?_, later := ?_ }
  · rw [hissued, hanswers, ← Multiset.coe_add, hs.issued]
    simp only [pending_append]
    simp only [pending, List.filterMap_cons, List.filterMap_nil, unappliedOf, carriedOf,
      Multiset.coe_nil]
    abel
  · rw [hadded, hanswers, hs.added]
    simp only [pending_append]
    simp only [pending, List.filterMap_cons, List.filterMap_nil, carriedOf, Multiset.coe_nil]
    abel
  · intro a b
    rw [hadded]
    exact hs.mailbox a b
  · rw [hissued, List.map_append, hs.ids]
    rfl
  · exact hs.ids_concat fresh
  · dsimp only
    rw [hissued, made_concat, List.filter_append, List.map_append, hs.firsts]
    rfl
  · dsimp only
    rw [hissued, made_concat, List.filter_append, List.map_append, pending_append,
      ← Multiset.coe_add, ← Multiset.coe_add, ← hs.seconds]
    simp only [pending, List.filterMap_cons, List.filterMap_nil, secondOf, List.filter_cons,
      List.filter_nil, Multiset.coe_nil, Bool.false_eq_true, if_false, List.map_nil]
    abel
  · rw [hissued]
    exact hs.times_concat utc
  · intro c hc c' hc' hsend hfirst hsecond
    rw [hissued] at hc hc'
    have hc' : c' ∈ Chats.issued o := by
      rcases List.mem_append.mp hc' with hc' | hc'
      · exact hc'
      · rw [List.mem_singleton.mp hc'] at hsecond
        exact absurd hsecond (by simp)
    rcases List.mem_append.mp hc with hc | hc
    · exact hs.later c hc c' hc' hsend hfirst hsecond
    · -- the number of the new call is not that of an older copy
      have hlt := hs.send_lt hc'
      rw [List.mem_singleton.mp hc] at hsend
      exact absurd hsend (Nat.ne_of_gt hlt)

theorem Account.wentOn {s : Chats} {o : List Effect} (hs : Account s o) {k n : Nat} {x : Send}
    {reading : Reading} {id : String} (fresh : id ∉ s.ids)
    (request : s.inFlight[k]? = some (.second n x)) (utc : reading.utc = s.now) :
    Account
      { s with
        ids := s.ids ++ [id],
        inFlight := s.inFlight.set k
          (.write { send := n, call := x, sent := true, reading, id } false) }
      (o ++ [.issue { send := n, call := x, sent := true, reading, id }]) := by
  have hissued : ∀ c, Chats.issued (o ++ [.issue c]) = Chats.issued o ++ [c] :=
    fun c => issued_append _ _
  have hadded : ∀ c, Chats.added (o ++ [.issue c]) = Chats.added o :=
    fun c => (added_append _ _).trans (List.append_nil _)
  have hanswers : ∀ c, answers (o ++ [.issue c]) = answers o :=
    fun c => (answers_append _ _).trans (List.append_nil _)
  refine { issued := ?_, added := ?_, mailbox := ?_, ids := ?_, fresh := ?_, firsts := ?_
           seconds := ?_, times := ?_, later := ?_ }
  · dsimp only
    rw [hissued, hanswers, ← Multiset.coe_add, hs.issued, pending_set request, pending_set request,
      pending_eraseIdx request unappliedOf, pending_eraseIdx request carriedOf]
    simp only [unappliedOf, carriedOf, Option.toList, Multiset.coe_nil]
    abel
  · dsimp only
    rw [hadded, hanswers, hs.added, pending_set request, pending_eraseIdx request carriedOf]
    rfl
  · intro a b
    rw [hadded]
    exact hs.mailbox a b
  · rw [hissued, List.map_append, hs.ids]
    rfl
  · exact hs.ids_concat fresh
  · rw [hissued, List.filter_append, List.map_append, hs.firsts]
    exact List.append_nil _
  · dsimp only
    rw [hissued, List.filter_append, List.map_append, ← Multiset.coe_add, ← hs.seconds,
      pending_set request, pending_eraseIdx request secondOf]
    simp only [secondOf, Option.toList, Multiset.coe_nil, List.filter_cons, List.filter_nil,
      if_true, List.map_cons, List.map_nil, Copy.of]
    abel
  · rw [hissued]
    exact hs.times_concat utc
  · intro c hc c' hc' hsend hfirst hsecond
    rw [hissued] at hc hc'
    have hc : c ∈ Chats.issued o := by
      rcases List.mem_append.mp hc with hc | hc
      · exact hc
      · rw [List.mem_singleton.mp hc] at hfirst
        exact absurd hfirst (by simp)
    rcases List.mem_append.mp hc' with hc' | hc'
    · exact hs.later c hc c' hc' hsend hfirst hsecond
    · rw [List.mem_singleton.mp hc']
      exact utc ▸ hs.times c hc

theorem Account.applied {s : Chats} {o : List Effect} (hs : Account s o) {k : Nat} {c : Copy}
    (request : s.inFlight[k]? = some (.write c false)) :
    Account (({ s with inFlight := s.inFlight.set k (.write c true) } : Chats).add c)
      (o ++ [.applied c]) := by
  have hissued : Chats.issued (o ++ [.applied c]) = Chats.issued o :=
    (issued_append _ _).trans (List.append_nil _)
  have hadded : Chats.added (o ++ [.applied c]) = Chats.added o ++ [c] := added_append _ _
  have hanswers : answers (o ++ [.applied c]) = answers o :=
    (answers_append _ _).trans (List.append_nil _)
  refine { issued := ?_, added := ?_, mailbox := ?_, ids := hissued ▸ hs.ids, fresh := hs.fresh
           firsts := hissued ▸ hs.firsts, seconds := ?_, times := hissued ▸ hs.times
           later := hissued ▸ hs.later }
  · dsimp only [add]
    rw [hissued, hanswers, hs.issued, pending_set request, pending_set request,
      pending_eraseIdx request unappliedOf, pending_eraseIdx request carriedOf]
    simp only [unappliedOf, carriedOf, Option.toList, Multiset.coe_nil]
    abel
  · dsimp only [add]
    rw [hadded, hanswers, ← Multiset.coe_add, hs.added, pending_set request,
      pending_eraseIdx request carriedOf]
    simp only [carriedOf, Option.toList, Multiset.coe_nil]
    abel
  · intro a b
    show (if a = c.owner ∧ b = c.peer then s.mailbox a b ++ [c] else s.mailbox a b) = _
    rw [hadded, List.filter_append, hs.mailbox a b]
    by_cases hpath : a = c.owner ∧ b = c.peer
    · rw [if_pos hpath, List.filter_cons_of_pos (by simpa using hpath), List.filter_nil]
    · rw [if_neg hpath, List.filter_cons_of_neg (by simpa using hpath), List.filter_nil,
        List.append_nil]
  · dsimp only [add]
    rw [hissued, pending_set request]
    have hseconds := hs.seconds
    rw [pending_eraseIdx request secondOf] at hseconds
    exact hseconds

theorem Account.settled {s : Chats} {o : List Effect} (hs : Account s o) {k : Nat} {c : Copy}
    {ok : Bool} (request : s.inFlight[k]? = some (.write c ok)) (cubit : ChatCubit)
    (uId : Option String) :
    Account (s.landed k) (o ++ .settled c ok cubit :: writeThen c ok cubit uId) := by
  obtain ⟨hi, ha, hw⟩ := settled_logs c ok cubit uId
  have hissued : Chats.issued (o ++ .settled c ok cubit :: writeThen c ok cubit uId) =
      Chats.issued o := by rw [issued_append, hi, List.append_nil]
  have hadded : Chats.added (o ++ .settled c ok cubit :: writeThen c ok cubit uId) =
      Chats.added o := by rw [added_append, ha, List.append_nil]
  have hanswers : answers (o ++ .settled c ok cubit :: writeThen c ok cubit uId) =
      answers o ++ [(c, ok, cubit)] := by rw [answers_append, hw]
  have hseconds := hs.seconds
  rw [pending_eraseIdx request secondOf] at hseconds
  refine { issued := ?_, added := ?_, mailbox := fun a b => hadded ▸ hs.mailbox a b
           ids := hissued ▸ hs.ids, fresh := hs.fresh
           firsts := hissued ▸ hs.firsts, seconds := hissued ▸ hseconds
           times := hissued ▸ hs.times, later := hissued ▸ hs.later }
  · dsimp only [landed]
    rw [hissued, hanswers, hs.issued, pending_eraseIdx request unappliedOf,
      pending_eraseIdx request carriedOf, List.map_append, ← Multiset.coe_add]
    cases ok with
    | false =>
      simp only [unappliedOf, carriedOf, Option.toList, Multiset.coe_nil, List.map_cons,
        List.map_nil]
      abel
    | true =>
      simp only [unappliedOf, carriedOf, Option.toList, Multiset.coe_nil, List.map_cons,
        List.map_nil]
      abel
  · dsimp only [landed]
    rw [hadded, hanswers, hs.added, pending_eraseIdx request carriedOf, List.filter_append,
      List.map_append, ← Multiset.coe_add]
    cases ok with
    | false =>
      simp only [carriedOf, Option.toList, Multiset.coe_nil, List.filter_cons, List.filter_nil,
        Bool.false_eq_true, if_false, List.map_nil]
      abel
    | true =>
      simp only [carriedOf, Option.toList, List.filter_cons, List.filter_nil, if_true,
        List.map_cons, List.map_nil]
      abel

theorem step_account {s s' : Chats} {e : Event} {o o' : List Effect} (hs : Account s o)
    (h : s.step e = some (s', o')) : Account s' (o ++ o') := by
  cases step_did h with
  | other now mailbox _ inFlight calls ids effects =>
    exact hs.of_other now mailbox inFlight calls ids effects
  | started fresh utc _ state effects =>
    rw [state, effects]
    exact hs.started fresh utc
  | wentOn fresh request utc _ state effects =>
    rw [state, effects]
    exact hs.wentOn fresh request utc
  | applied request state effects =>
    rw [state, effects]
    exact hs.applied request
  | settled _ request state effects =>
    rw [state, effects]
    exact hs.settled request _ _

theorem run_account {es : List Event} {s : Chats} {o : List Effect}
    (hrun : machine.run init es = some (s, o)) : Account s o := by
  refine Reactive.Machine.run_preserves (M := machine) ?_ init_account hrun
  intro s e s' o a hs h
  exact step_account hs h

/-! ## What the account says of one copy -/

theorem Account.answered {s : Chats} {o : List Effect} (hs : Account s o)
    {a : Copy × Bool × ChatCubit} (ha : a ∈ answers o) : a.1 ∈ Chats.issued o := by
  rw [← Multiset.mem_coe, hs.issued]
  exact Multiset.mem_add.mpr (Or.inr (Multiset.mem_coe.mpr (List.mem_map_of_mem ha)))

theorem Account.issued_nodup {s : Chats} {o : List Effect} (hs : Account s o) :
    (Chats.issued o).Nodup := by
  refine List.Nodup.of_map Copy.id ?_
  rw [hs.ids]
  exact hs.fresh

theorem made_nodup (calls : List Call) : (made calls).Nodup := by
  refine List.Nodup.of_map Prod.fst ?_
  have hnumbers : (made calls).map Prod.fst = calls.zipIdx.map Prod.snd := by
    rw [made, List.mapIdx_eq_zipIdx_map, List.map_map]
    rfl
  rw [hnumbers, List.zipIdx_map_snd]
  exact List.nodup_range'

/-- Copies of one call are of one message. -/
theorem Account.call_eq {s : Chats} {o : List Effect} (hs : Account s o) {c d : Copy}
    (hc : c ∈ Chats.issued o) (hd : d ∈ Chats.issued o) (h : c.send = d.send) :
    c.call = d.call := by
  obtain ⟨call, hcall, hsend⟩ := mem_made (hs.of_mem hc)
  obtain ⟨call', hcall', hsend'⟩ := mem_made (hs.of_mem hd)
  have hcall : s.calls[c.send]? = some call := hcall
  have hcall' : s.calls[d.send]? = some call' := hcall'
  rw [h, hcall'] at hcall
  rw [← hsend, ← hsend', Option.some.inj hcall]

/-- A call has one copy for each side. -/
theorem Account.copy_eq {s : Chats} {o : List Effect} (hs : Account s o) {c d : Copy}
    (hc : c ∈ Chats.issued o) (hd : d ∈ Chats.issued o) (hsend : c.send = d.send)
    (hsent : c.sent = d.sent) : c = d := by
  have hof : c.of = d.of := Prod.ext hsend (hs.call_eq hc hd hsend)
  cases hside : c.sent with
  | false =>
    have hnodup : (((Chats.issued o).filter fun c => !c.sent).map Copy.of).Nodup := by
      rw [hs.firsts]
      exact made_nodup _
    refine List.inj_on_of_nodup_map hnodup ?_ ?_ hof
    · exact List.mem_filter.mpr ⟨hc, by simp [hside]⟩
    · exact List.mem_filter.mpr ⟨hd, by simp [← hsent, hside]⟩
  | true =>
    have hnodup : (((Chats.issued o).filter fun c => c.sent).map Copy.of).Nodup := by
      have hle : ((((Chats.issued o).filter fun c => c.sent).map Copy.of : List (Nat × Send)) :
          Multiset (Nat × Send)) ≤ (made s.calls : List (Nat × Send)) := by
        rw [← hs.seconds]
        exact Multiset.le_add_right _ _
      exact Multiset.coe_nodup.mp (Multiset.nodup_of_le hle (Multiset.coe_nodup.mpr (made_nodup _)))
    refine List.inj_on_of_nodup_map hnodup ?_ ?_ hof
    · exact List.mem_filter.mpr ⟨hc, hside⟩
    · exact List.mem_filter.mpr ⟨hd, hsent ▸ hside⟩

/-- A write that has settled was carried out exactly when it succeeded. -/
theorem Account.added_iff {s : Chats} {o : List Effect} (hs : Account s o) {c : Copy} {ok : Bool}
    {cubit : ChatCubit} (ha : (c, ok, cubit) ∈ answers o) : c ∈ Chats.added o ↔ ok = true := by
  have hnodup := Multiset.coe_nodup.mpr hs.issued_nodup
  rw [hs.issued, Multiset.nodup_add, Multiset.nodup_add] at hnodup
  obtain ⟨⟨-, -, -⟩, hanswers, hdisjoint⟩ := hnodup
  have hmem : c ∈ (answers o).map Prod.fst := List.mem_map_of_mem ha
  rw [← Multiset.mem_coe, hs.added, Multiset.mem_add, Multiset.mem_coe]
  constructor
  · rintro (hcarried | hok)
    · exact absurd (Multiset.mem_coe.mpr hmem) (Multiset.disjoint_left.mp hdisjoint
        (Multiset.mem_add.mpr (Or.inr hcarried)))
    · obtain ⟨a, hfilter, heq⟩ := List.mem_map.mp hok
      obtain ⟨ha', hok'⟩ := List.mem_filter.mp hfilter
      have := List.inj_on_of_nodup_map (Multiset.coe_nodup.mp hanswers) ha' ha heq
      rw [this] at hok'
      exact hok'
  · intro hok
    exact Or.inr (List.mem_map_of_mem (f := Prod.fst) (List.mem_filter.mpr ⟨ha, hok⟩))

end Chats
end SocialApp
