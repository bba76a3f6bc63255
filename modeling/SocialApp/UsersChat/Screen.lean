import SocialApp.Uploads.Accounts
import SocialApp.Notifications.App
import SocialApp.Reactive.Query
import SocialApp.Utf8

/-! # UsersChatScreen and ChatUsersCubit

The list of the users to chat with.  It is read once from the documents of all users, and
leaves out those whose field `uid` is that of the user; a tap on a row opens the chat with
the `uid` of the row. -/

namespace SocialApp

structure UsersChatModel where
  name : Option String
  uid : Option String
  image : Option String
deriving DecidableEq

namespace UsersChatModel

def fromJson (json : Json) : UsersChatModel :=
  { name := json.string "name", uid := json.string "uid", image := json.string "image" }

def toMap (m : UsersChatModel) : Json := fun key =>
  if key = "name" then m.name.map .string
  else if key = "uid" then m.uid.map .string
  else if key = "image" then m.image.map .string
  else none

theorem fromJson_toMap (m : UsersChatModel) : fromJson m.toMap = m := by
  cases m
  simp only [fromJson]
  congr 1
  all_goals exact Json.string_map (by simp [toMap])

end UsersChatModel

namespace ChatUsers

inductive ChatUsersStates
  | getUsersChatLoading
  | getUsersChatSuccess
  | getUsersChatError
deriving DecidableEq

end ChatUsers

/-- The fields of ChatUsersCubit. -/
structure ChatUsers where
  users : List UsersChatModel

namespace ChatUsers

def getUsersChat (_ : ChatUsers) : ChatUsers × List ChatUsersStates :=
  ({ users := [] }, [.getUsersChatLoading])

/-- The handlers of `getUsersChat`, with the `uId` of this moment; a read that failed has
no answer. -/
def getUsersChatThen (answer : Option QuerySnapshot) (uId : Option String) (s : ChatUsers) :
    ChatUsers × List ChatUsersStates :=
  match answer with
  | some value =>
    ({ users := s.users ++
        (value.docs.map fun element => UsersChatModel.fromJson element.data).filter
          fun model => model.uid ≠ uId }, [.getUsersChatSuccess])
  | none => (s, [.getUsersChatError])

/-- A tap on row `index`. -/
def tap (index : Nat) (s : ChatUsers) : Option Notifications.Event :=
  s.users[index]?.map fun model => .openFromUsers model.name model.image model.uid

end ChatUsers

namespace Uploads

/-- `event` answers `collection('users')`, which is ordered by id. -/
def AllUsers (s : Uploads) (event : QuerySnapshot) : Prop :=
  Reactive.Lists (fun a b => Utf8.bytes a.id < Utf8.bytes b.id)
    (fun doc => s.users doc.id = some doc.data) event.docs

variable {account : AccountOf} {s : Uploads} {event : QuerySnapshot}

/-- Each document names its own user. -/
theorem Accounts.uid (hs : Accounts account s) (hevent : s.AllUsers event) {doc : QueryDoc}
    (h : doc ∈ event.docs) : doc.data.string "uid" = some doc.id := by
  obtain ⟨m, hm⟩ : ∃ m, LoginModel.fromJson (s.users doc.id) = some m :=
    ⟨_, congrArg LoginModel.fromJson ((hevent.mem_iff doc).mp h)⟩
  have huid := (hs.users doc.id m hm).1
  rw [(hevent.mem_iff doc).mp h] at hm
  rw [← huid, ← Option.some.inj hm]

/-- The documents of the other users. -/
def others (uId : Option String) (event : QuerySnapshot) : List QueryDoc :=
  event.docs.filter fun doc => some doc.id ≠ uId

theorem Accounts.users_eq (hs : Accounts account s) (hevent : s.AllUsers event)
    (uId : Option String) (cubit : ChatUsers) :
    (cubit.getUsersChat.1.getUsersChatThen (some event) uId).1.users =
      (others uId event).map fun doc => UsersChatModel.fromJson doc.data := by
  show (event.docs.map fun doc => UsersChatModel.fromJson doc.data).filter
    (fun model => model.uid ≠ uId) = _
  rw [others, List.filter_map]
  refine congrArg _ (List.filter_congr fun doc hdoc => ?_)
  have huid : (UsersChatModel.fromJson doc.data).uid = some doc.id := hs.uid hevent hdoc
  rw [Function.comp_apply, huid]

theorem mem_others {uId : Option String} {doc : QueryDoc} (hevent : s.AllUsers event) :
    doc ∈ others uId event ↔ s.users doc.id = some doc.data ∧ uId ≠ some doc.id := by
  rw [others, List.mem_filter, hevent.mem_iff, decide_eq_true_eq, ne_comm]

/-- In every state of every run in which the updates are issued from the model of the user
who is logged in: the list has exactly one row for every account that has a document, other
than the user's own, with the name and the image of that document, and a tap on the row
opens the chat with that account. -/
theorem users_listed {s₀ : Uploads} {es : List Event} {o : List Effect} (cubit : ChatUsers)
    (h₀ : Accounts account s₀) (hes : ∀ e ∈ es, e.registers account)
    (hupdates : machine.Every (fun s e _ _ => e.updates s → ModelIsUser s) s₀ es)
    (hrun : machine.run s₀ es = some (s, o)) (hevent : s.AllUsers event) :
    let r := (cubit.getUsersChat.1.getUsersChatThen (some event) s.uId).1
    (r.users.map UsersChatModel.uid).Nodup ∧
      (∀ u, some u ∈ r.users.map UsersChatModel.uid ↔ s.users u ≠ none ∧ s.uId ≠ some u) ∧
      ∀ index e, r.tap index = some e → ∃ u doc, s.users u = some doc ∧ s.uId ≠ some u ∧
        e = .openFromUsers (doc.string "name") (doc.string "image") (some u) := by
  intro r
  have hs := run_accounts h₀ hes hupdates hrun
  have husers : r.users = (others s.uId event).map fun doc => UsersChatModel.fromJson doc.data :=
    hs.users_eq hevent s.uId cubit
  have huids : r.users.map UsersChatModel.uid =
      (others s.uId event).map fun doc => some doc.id := by
    rw [husers, List.map_map]
    refine List.map_congr_left fun doc hdoc => ?_
    exact hs.uid hevent (List.mem_of_mem_filter hdoc)
  refine ⟨?_, fun u => ?_, fun index e htap => ?_⟩
  · rw [huids]
    have hids : ((others s.uId event).map QueryDoc.id).Nodup :=
      (List.filter_sublist.map QueryDoc.id).nodup event.nodup
    have hsome := hids.map (Option.some_injective String)
    rwa [List.map_map] at hsome
  · rw [huids, List.mem_map]
    constructor
    · rintro ⟨doc, hdoc, hu⟩
      obtain ⟨hheld, hother⟩ := (mem_others hevent).mp hdoc
      rw [← Option.some.inj hu]
      exact ⟨by rw [hheld]; simp, hother⟩
    · rintro ⟨hheld, hother⟩
      obtain ⟨data, hdata⟩ := Option.ne_none_iff_exists'.mp hheld
      exact ⟨{ id := u, data }, (mem_others hevent).mpr ⟨hdata, hother⟩, rfl⟩
  · obtain ⟨model, hmodel, rfl⟩ := Option.map_eq_some_iff.mp htap
    rw [husers] at hmodel
    obtain ⟨doc, hdoc, rfl⟩ := List.mem_map.mp (List.mem_of_getElem? hmodel)
    obtain ⟨hheld, hother⟩ := (mem_others hevent).mp hdoc
    have huid : (UsersChatModel.fromJson doc.data).uid = some doc.id :=
      hs.uid hevent (List.mem_of_mem_filter hdoc)
    exact ⟨doc.id, doc.data, hheld, hother, by rw [huid]; rfl⟩

/-- bob registers on the device of ann. -/
def bobRegisters : List Event :=
  [.logout, .register "bob" (Home.userOf "bob"), .applied 0]

/-- The two accounts. -/
def twoUsers : QuerySnapshot :=
  { docs := [{ id := "ann", data := (Home.userOf "ann").toMap },
      { id := "bob", data := (Home.userOf "bob").toMap }]
    nodup := by decide }

theorem bobRegisters_holds {s : Uploads} {o : List Effect}
    (hrun : machine.run annLoaded bobRegisters = some (s, o)) (doc : QueryDoc) :
    doc ∈ twoUsers.docs ↔ s.users doc.id = some doc.data := by
  obtain ⟨rfl, rfl⟩ := Prod.mk.inj (Option.some.inj hrun)
  constructor
  · intro h
    rcases List.mem_cons.mp h with rfl | h
    · rfl
    · rw [List.mem_singleton.mp h]
      rfl
  · intro h
    obtain ⟨id, data⟩ := doc
    by_cases hbob : id = "bob"
    · subst hbob
      obtain rfl := Option.some.inj h
      exact List.mem_cons_of_mem _ (List.mem_singleton.mpr rfl)
    · have h : Function.update annLoaded.users "bob" _ id = some data := h
      rw [Function.update_of_ne hbob] at h
      by_cases hann : id = "ann"
      · subst hann
        obtain rfl := Option.some.inj h
        exact List.mem_cons_self
      · have hnone : annLoaded.users id = none := if_neg hann
        rw [hnone] at h
        exact absurd h (by simp)

/-- bob finds ann's row alone, and a tap on it opens the chat with her. -/
theorem users_listed_bobRegisters :
    ∃ s o r, machine.run annLoaded bobRegisters = some (s, o) ∧
      r = ((({ users := [] } : ChatUsers).getUsersChatThen (some twoUsers) s.uId).1) ∧
      (r.users.map UsersChatModel.uid).Nodup ∧ some "ann" ∈ r.users.map UsersChatModel.uid ∧
      some "bob" ∉ r.users.map UsersChatModel.uid ∧
      ∃ e, r.tap 0 = some e ∧ ∃ u doc, s.users u = some doc ∧ s.uId ≠ some u ∧
        e = .openFromUsers (doc.string "name") (doc.string "image") (some u) := by
  have hlt : Utf8.bytes "ann" < Utf8.bytes "bob" := Utf8.bytes_lt_iff.mpr (by decide)
  have hes : ∀ e ∈ bobRegisters, e.registers userAccount := by
    intro e he
    simp only [bobRegisters, List.mem_cons, List.not_mem_nil, or_false] at he
    rcases he with rfl | rfl | rfl
    · trivial
    · exact ⟨rfl, rfl⟩
    · trivial
  obtain ⟨hnodup, hlisted, htap⟩ := @users_listed userAccount _ twoUsers annLoaded bobRegisters _
    { users := [] } annLoaded_accounts hes
    (Reactive.Machine.every_cons rfl (fun h => h.elim) (Reactive.Machine.every_cons rfl
      (fun h => h.elim) (Reactive.Machine.every_cons rfl (fun h => h.elim) trivial))) rfl
    { mem_iff := bobRegisters_holds rfl, sorted := List.pairwise_pair.mpr hlt }
  refine ⟨_, _, _, rfl, rfl, hnodup, (hlisted "ann").mpr ⟨by decide, by decide⟩,
    fun hbob => ((hlisted "bob").mp hbob).2 rfl, _, rfl, htap 0 _ rfl⟩

end Uploads
end SocialApp
