import SocialApp.Uploads.Starter
import SocialApp.Uploads.Profile

/-! # What an update must not change

A user document has fields of the account, its `uid`, `email` and `isEmailVarified`, which
no screen edits.  Each update writes them all the same, from the model of SocialHomeCubit,
into the document of `uId`.  They stay those of the account as long as the model is that
of the user who is logged in. -/

namespace SocialApp
namespace Uploads

/-- The fields that registration sets for good, next to the `uid`. -/
abbrev AccountOf := String → Option String × Option Bool

variable {account : AccountOf} {s s' : Uploads} {o : List Effect}

/-- The model has the fields of the account of `u`. -/
def OwnFields (account : AccountOf) (u : String) (m : LoginModel) : Prop :=
  m.uid = some u ∧ (m.email, m.isEmailVarified) = account u

def Write.KeepsAccount (account : AccountOf) : Write → Prop
  | .saveUser uid user => OwnFields account uid user
  | .updateUser uid _ user => ∀ u, uid = some u → OwnFields account u user
  | _ => True

/-- A write keeps the fields of its user's account, and an answer has those of some
account. -/
def Pending.KeepsAccount (account : AccountOf) : Pending → Prop
  | .write w _ => w.KeepsAccount account
  | .userData data => ∀ m, LoginModel.fromJson data = some m → ∃ u, OwnFields account u m
  | _ => True

/-- The documents of the users have the fields of their own accounts, and so will they
have after the writes that are on their way. -/
structure Accounts (account : AccountOf) (s : Uploads) : Prop where
  users : ∀ u m, LoginModel.fromJson (s.users u) = some m → OwnFields account u m
  model : ∀ m, s.model = some m → ∃ u, OwnFields account u m
  inFlight : ∀ p ∈ s.inFlight, p.KeepsAccount account

/-- The model is that of the user who is logged in. -/
def ModelIsUser (s : Uploads) : Prop :=
  ∀ m u, s.model = some m → s.uId = some u → m.uid = some u

/-- The event issues an update of a user document, when there is a model. -/
def Event.updates (s : Uploads) : Event → Prop
  | .updateUserData _ _ _ => True
  | .url k _ _ => ∃ flow starter, s.inFlight[k]? = some (.getDownloadURL flow starter) ∧
      flow.readsModel = true
  | _ => False

/-- A registration sets the fields of the account. -/
def Event.registers (account : AccountOf) : Event → Prop
  | .register uid user => OwnFields account uid user
  | _ => True

/-! ## Operations -/

/-- What an operation leaves alone, and what it adds. -/
theorem Accounts.keep (hs : Accounts account s) (users : s'.users = s.users)
    (model : s'.model = s.model)
    (inFlight : ∀ p ∈ s'.inFlight, p ∈ s.inFlight ∨ p.KeepsAccount account) :
    Accounts account s' := by
  refine { users := ?_, model := ?_, inFlight := fun p hp => ?_ }
  · rw [users]
    exact hs.users
  · rw [model]
    exact hs.model
  · rcases inFlight p hp with hp | hp
    · exact hs.inFlight p hp
    · exact hp

theorem Accounts.landed (hs : Accounts account s) (k : Nat) : Accounts account (s.landed k) :=
  hs.keep rfl rfl fun _ hp => Or.inl (List.mem_of_mem_eraseIdx hp)

theorem Accounts.await (hs : Accounts account s) {p : Pending} (h : p.KeepsAccount account) :
    Accounts account (s.await [p]) := by
  refine hs.keep rfl rfl fun q hq => ?_
  rcases List.mem_append.mp hq with hq | hq
  · exact Or.inl hq
  · rw [List.mem_singleton.mp hq]
    exact Or.inr h

theorem Accounts.getUserData (hs : Accounts account s) : Accounts account s.getUserData.1 :=
  hs.await trivial

theorem Accounts.getUserDataThen (hs : Accounts account s) {data : Option Json}
    (h : Pending.KeepsAccount account (.userData data)) :
    Accounts account (s.getUserDataThen data).1 := by
  unfold Uploads.getUserDataThen
  split
  · rename_i m hm
    refine { users := hs.users, model := fun m' hm' => ?_, inFlight := hs.inFlight }
    rw [← Option.some.inj hm']
    exact h m hm
  · exact hs

/-- The update keeps the account's fields exactly when they are in the model. -/
theorem Accounts.updateUser_iff (hs : Accounts account s) (update : Update)
    (name phone bio : String) :
    Accounts account (s.updateUser update name phone bio).1 ↔ ModelIsUser s := by
  unfold updateUser
  cases hm : s.model with
  | none =>
    refine iff_of_true hs fun m u hm' => ?_
    exact absurd (hm.symm.trans hm') (by simp)
  | some m =>
    obtain ⟨v, huid, haccount⟩ := hs.model m hm
    dsimp only [issue]
    constructor
    · intro h m' u hm' hu
      rw [← Option.some.inj (hm.symm.trans hm')]
      exact (h.inFlight _ (List.mem_append_right _ (List.mem_singleton.mpr rfl)) u hu).1
    · intro h
      refine hs.await fun u hu => ?_
      have hv : v = u := Option.some.inj (huid.symm.trans (h m u hm hu))
      exact hv ▸ ⟨huid, haccount⟩

theorem Accounts.writeThen (hs : Accounts account s) (w : Write) (ok : Bool) :
    Accounts account (s.writeThen w ok).1 := by
  unfold Uploads.writeThen
  split
  all_goals first
    | exact hs
    | exact hs.getUserData

theorem Accounts.message (hs : Accounts account s) (image now : String)
    (receiverId : Option String) :
    Accounts account (s.sendImageToChat image now receiverId).1 := by
  refine Accounts.await (Accounts.await hs ?_) ?_
  · trivial
  · trivial

theorem Accounts.urlThen_iff (hs : Accounts account s) (flow : Flow) (url now : String) :
    Accounts account (s.urlThen flow url now).1 ↔ (flow.readsModel = true → ModelIsUser s) := by
  cases flow with
  | cover name phone bio =>
    exact (hs.updateUser_iff (.cover url) name phone bio).trans ⟨fun h _ => h, fun h => h rfl⟩
  | profile name phone bio =>
    exact (hs.updateUser_iff (.profile url) name phone bio).trans ⟨fun h _ => h, fun h => h rfl⟩
  | post text postUserImage postUserName =>
    exact iff_of_true (hs.await trivial) fun h => absurd h (by simp [Flow.readsModel])
  | message receiverId =>
    exact iff_of_true (hs.message url now receiverId) fun h => absurd h (by simp [Flow.readsModel])

/-- All documents have the fields of the accounts of their users. -/
def AllOwn (account : AccountOf) (users : String → Option Json) : Prop :=
  ∀ u m, LoginModel.fromJson (users u) = some m → OwnFields account u m

/-- The server writes what a write carries. -/
theorem AllOwn.serve {w : Write} {users users' : String → Option Json}
    (hs : AllOwn account users) (hw : w.KeepsAccount account)
    (h : Uploads.serve w users = some users') : AllOwn account users' := by
  have hset : ∀ uid (user : LoginModel) doc, OwnFields account uid user →
      LoginModel.fromJson (some doc) = some user →
      AllOwn account (Function.update users uid (some doc)) := by
    intro uid user doc howner hdoc u m hm
    by_cases hu : u = uid
    · rw [hu, Function.update_self, hdoc] at hm
      rw [hu, ← Option.some.inj hm]
      exact howner
    · rw [Function.update_of_ne hu] at hm
      exact hs u m hm
  cases w with
  | saveUser uid user =>
    rw [← Option.some.inj h]
    exact hset uid user _ hw user.fromJson_toMap
  | updateUser uid update user =>
    cases uid with
    | none => exact absurd h (by simp [Uploads.serve])
    | some uid =>
      obtain ⟨doc, hdoc, heq⟩ := Option.map_eq_some_iff.mp h
      rw [← heq]
      exact hset uid user _ (hw uid rfl) (user.fromJson_update doc)
  | setPost id post =>
    rw [← Option.some.inj h]
    exact hs
  | addMessage owner peer sent message =>
    rw [← Option.some.inj h]
    exact hs

theorem Accounts.serve (hs : Accounts account s) {k : Nat} {w : Write}
    {users : String → Option Json} (hk : s.inFlight[k]? = some (.write w false))
    (h : Uploads.serve w s.users = some users) :
    Accounts account { s with users, inFlight := s.inFlight.set k (.write w true) } := by
  have hw : w.KeepsAccount account := hs.inFlight _ (List.mem_of_getElem? hk)
  refine { users := AllOwn.serve hs.users hw h, model := hs.model, inFlight := fun p hp => ?_ }
  rcases List.mem_or_eq_of_mem_set hp with hp | hp
  · exact hs.inFlight p hp
  · rw [hp]
    exact hw

/-- So has what the client sees of them. -/
theorem Accounts.localView (hs : Accounts account s) : AllOwn account s.localView := by
  have hfold : ∀ (ps : List Pending) (users : String → Option Json),
      (∀ p ∈ ps, p.KeepsAccount account) → AllOwn account users →
      AllOwn account (ps.foldl overlay users) := by
    intro ps
    induction ps with
    | nil => exact fun _ _ husers => husers
    | cons p ps ih =>
      intro users hps husers
      refine ih _ (fun q hq => hps q (List.mem_cons_of_mem _ hq)) ?_
      cases p with
      | write w applied =>
        show AllOwn account ((Uploads.serve w users).getD users)
        cases hserve : Uploads.serve w users with
        | none => exact husers
        | some users' => exact husers.serve (hps (.write w applied) List.mem_cons_self) hserve
      | _ => exact husers
  exact hfold s.inFlight s.users hs.inFlight hs.users

/-! ## Runs -/

theorem step_accounts_iff {e : Event} (hs : Accounts account s) (he : e.registers account)
    (h : s.step e = some (s', o)) : Accounts account s' ↔ (e.updates s → ModelIsUser s) := by
  have hkeep : ∀ {r : Uploads × List Effect}, some r = some (s', o) → Accounts account r.1 →
      ¬ e.updates s → (Accounts account s' ↔ (e.updates s → ModelIsUser s)) := by
    intro r hr hacc hno
    rw [Option.some.inj hr] at hacc
    exact iff_of_true hacc fun hup => absurd hup hno
  cases e with
  | login uid =>
    have hlogin : Accounts account { s with uId := some uid } :=
      hs.keep rfl rfl fun _ hp => Or.inl hp
    exact hkeep h hlogin.getUserData id
  | register uid user =>
    have hlogin : Accounts account { s with uId := some uid } :=
      hs.keep rfl rfl fun _ hp => Or.inl hp
    have hsave : Accounts account (({ s with uId := some uid } : Uploads).await
        [.write (.saveUser uid user) false]) := hlogin.await he
    exact hkeep h hsave.getUserData id
  | logout => exact hkeep h (hs.keep rfl rfl fun _ hp => Or.inl hp) id
  | getUserData => exact hkeep h hs.getUserData id
  | updateUserData name phone bio =>
    rw [← (Prod.mk.inj (Option.some.inj h)).1]
    exact (hs.updateUser_iff .data name phone bio).trans ⟨fun h _ => h, fun h => h trivial⟩
  | upload flow =>
    obtain ⟨starter, _, heq⟩ := Option.map_eq_some_iff.mp h
    exact hkeep (congrArg some heq) (hs.await trivial) id
  | uploaded k =>
    simp only [step] at h
    split at h
    · exact hkeep h ((hs.landed k).await trivial) id
    · exact absurd h (by simp)
  | url k url now =>
    obtain ⟨flow, starter, hk, hthen⟩ := step_url h
    have heq : ((s.landed k).urlThen flow url now).1 = s' := congrArg Prod.fst hthen
    rw [← heq, (hs.landed k).urlThen_iff flow url now]
    constructor
    · rintro hmodel ⟨flow', starter', hk', hreads⟩
      rw [hk] at hk'
      rw [← (Pending.getDownloadURL.inj (Option.some.inj hk')).1] at hreads
      exact hmodel hreads
    · exact fun hmodel hreads => hmodel ⟨flow, starter, hk, hreads⟩
  | failed k =>
    simp only [step] at h
    split at h
    · exact hkeep h (hs.landed k) id
    · exact hkeep h (hs.landed k) id
    · exact hkeep h (hs.landed k) id
    · exact absurd h (by simp)
  | applied k =>
    simp only [step] at h
    split at h
    · rename_i w hk
      obtain ⟨users, hserve, heq⟩ := Option.map_eq_some_iff.mp h
      exact hkeep (congrArg some heq) (hs.serve hk hserve) id
    · exact absurd h (by simp)
  | settled k ok =>
    simp only [step] at h
    split at h
    · rename_i w applied _
      split at h
      · exact hkeep h ((hs.landed k).writeThen w ok) id
      · exact absurd h (by simp)
    · exact absurd h (by simp)
  | served k =>
    simp only [step] at h
    split at h
    · rename_i uid _
      refine hkeep h (hs.keep rfl rfl fun p hp => ?_) id
      rcases List.mem_or_eq_of_mem_set hp with hp | hp
      · exact Or.inl hp
      · -- the answer is the document of a user, with the client's writes
        rw [hp]
        refine Or.inr fun m hm => ?_
        cases uid with
        | none => exact absurd hm (by simp [LoginModel.fromJson])
        | some u => exact ⟨u, hs.localView u m hm⟩
    · exact absurd h (by simp)
  | userData k =>
    simp only [step] at h
    split at h
    · rename_i data hk
      exact hkeep h ((hs.landed k).getUserDataThen (hs.inFlight _ (List.mem_of_getElem? hk))) id
    · exact absurd h (by simp)

theorem run_accounts {s₀ : Uploads} {es : List Event} (h₀ : Accounts account s₀)
    (hes : ∀ e ∈ es, e.registers account)
    (hupdates : machine.Every (fun s e _ _ => e.updates s → ModelIsUser s) s₀ es)
    (hrun : machine.run s₀ es = some (s, o)) : Accounts account s := by
  have hregisters : machine.Every (fun _ e _ _ => e.registers account) s₀ es :=
    Reactive.Machine.every_of_forall (fun _ _ _ _ h => h) hes s₀
  refine Reactive.Machine.run_state_invariant (I := Accounts account)
    (fun s e s' o hs h hq => ?_) h₀ (hregisters.and hupdates) hrun
  exact (step_accounts_iff hs hq.1 h).mpr hq.2

/-- Along every run of logins, registrations, logouts, updates and uploads of any users:
the documents of the users, and the updates on their way to them, have the `uid`, the
`email` and `isEmailVarified` of their own accounts in every state exactly when each
update is issued while the model is that of the user who is logged in. -/
theorem accounts_kept_iff {s₀ : Uploads} {es : List Event} (h₀ : Accounts account s₀)
    (hes : ∀ e ∈ es, e.registers account) :
    (∀ es₁ s o, es₁ <+: es → machine.run s₀ es₁ = some (s, o) → Accounts account s) ↔
      machine.Every (fun s e _ _ => e.updates s → ModelIsUser s) s₀ es := by
  refine Reactive.Machine.reached_iff (M := machine) (J := fun _ => True)
    (I := fun s _ => Accounts account s) (a := []) (H := fun _ e _ _ => e.registers account)
    (fun _ _ _ _ _ _ _ => trivial) (fun s e s' o a _ hs h he => step_accounts_iff hs he h)
    trivial h₀ ?_
  exact Reactive.Machine.every_of_forall (fun _ _ _ _ h => h) hes s₀

/-- The accounts of `Home.userOf`. -/
def userAccount : AccountOf := fun u => ((Home.userOf u).email, (Home.userOf u).isEmailVarified)

theorem annLoaded_accounts : Accounts userAccount annLoaded := by
  refine { users := fun u m hm => ?_, model := fun m hm => ?_, inFlight := fun p hp => ?_ }
  · by_cases hu : u = "ann"
    · subst hu
      rw [← Option.some.inj (hm.symm.trans (Home.userOf "ann").fromJson_toMap).symm]
      exact ⟨rfl, rfl⟩
    · have hnone : annLoaded.users u = none := if_neg hu
      rw [hnone] at hm
      exact absurd hm (by simp [LoginModel.fromJson])
  · rw [← Option.some.inj hm]
    exact ⟨"ann", rfl, rfl⟩
  · exact absurd hp List.not_mem_nil

theorem accounts_kept_oneUpdate :
    ∃ s o, machine.run annLoaded [.updateUserData "ann" "0100" "hi", .applied 0] = some (s, o) ∧
      Accounts userAccount s := by
  refine ⟨_, _, rfl, (@accounts_kept_iff userAccount annLoaded
    [.updateUserData "ann" "0100" "hi", .applied 0] annLoaded_accounts ?_).mpr ?_ _ _ _
    List.prefix_rfl rfl⟩
  · intro e he
    rcases List.mem_cons.mp he with rfl | he
    · trivial
    · rw [List.mem_singleton.mp he]
      trivial
  · refine Reactive.Machine.every_cons rfl (fun _ m u hm hu => ?_)
      (Reactive.Machine.every_cons rfl (fun h => h.elim) trivial)
    rw [← Option.some.inj hm, ← Option.some.inj hu]
    rfl

/-- bob logs in before his profile has been read, and his update makes ann's account his. -/
example : ∃ s o, machine.run { annLoaded with users := fun u => some (Home.userOf u).toMap }
    [.logout, .login "bob", .updateUserData "bob" "0101" "hello", .applied 1] = some (s, o) ∧
    (s.users "bob").map (Json.string · "uid") = some (some "ann") :=
  ⟨_, _, rfl, rfl⟩

end Uploads
end SocialApp
