import SocialApp.Reactive.InFlight
import SocialApp.Uploads.Flows

/-! # The document of one user

What a step does to the document of the user who is logged in, to the updates of it
that are in flight, and to the copy of it in SocialHomeCubit. -/

namespace SocialApp
namespace Uploads

/-- The events of one user: all but logins, registrations and logouts. -/
def Event.sameUser : Event → Bool
  | .login _ => false
  | .register _ _ => false
  | .logout => false
  | _ => true

/-- An update of a user document, and whether the server has carried it out. -/
def Pending.update : Pending → Option ((Update × LoginModel) × Bool)
  | .write (.updateUser _ update user) applied => some ((update, user), applied)
  | _ => none

/-- The updates in flight. -/
def updates (s : Uploads) : List ((Update × LoginModel) × Bool) :=
  s.inFlight.filterMap Pending.update

/-- A callback that neither updates a user document nor brings one. -/
def Pending.plain : Pending → Bool
  | .write (.updateUser _ _ _) _ => false
  | .userData _ => false
  | _ => true

theorem plain_update {p : Pending} (h : p.plain = true) : p.update = none := by
  cases p with
  | write w applied =>
    cases w with
    | updateUser uid update user => exact absurd h (by simp [Pending.plain])
    | _ => rfl
  | _ => rfl

/-- An update is issued or carried out. -/
def Effect.update : Effect → Bool
  | .issue (.updateUser _ _ _) => true
  | .applied (.updateUser _ _ _) => true
  | _ => false

def Quiet (o : List Effect) : Prop := ∀ x ∈ o, x.update = false

/-- The update that an event issues, when there is a model. -/
def Event.issues (s : Uploads) : Event → Option Update
  | .updateUserData _ _ _ => some .data
  | .url k x _ =>
    match s.inFlight[k]? with
    | some (.getDownloadURL (.cover _ _ _) _) => some (.cover x)
    | some (.getDownloadURL (.profile _ _ _) _) => some (.profile x)
    | _ => none
  | _ => none

/-- What an event leaves of a list with one entry for each callback in flight. -/
def Event.leave {α : Type} (e : Event) (xs : List α) : List α :=
  match e with
  | .uploaded k => xs.eraseIdx k
  | .url k _ _ => xs.eraseIdx k
  | .failed k => xs.eraseIdx k
  | .settled k _ => xs.eraseIdx k
  | .userData k => xs.eraseIdx k
  | _ => xs

theorem leave_map {α β : Type} (e : Event) (f : α → β) (xs : List α) :
    (e.leave xs).map f = e.leave (xs.map f) := by
  cases e with
  | uploaded k => exact (List.eraseIdx_map f xs k).symm
  | url k url now => exact (List.eraseIdx_map f xs k).symm
  | failed k => exact (List.eraseIdx_map f xs k).symm
  | settled k ok => exact (List.eraseIdx_map f xs k).symm
  | userData k => exact (List.eraseIdx_map f xs k).symm
  | _ => rfl

theorem mem_of_mem_leave {α : Type} {e : Event} {xs : List α} {x : α} (h : x ∈ e.leave xs) :
    x ∈ xs := by
  cases e with
  | uploaded k => exact List.mem_of_mem_eraseIdx h
  | url k url now => exact List.mem_of_mem_eraseIdx h
  | failed k => exact List.mem_of_mem_eraseIdx h
  | settled k ok => exact List.mem_of_mem_eraseIdx h
  | userData k => exact List.mem_of_mem_eraseIdx h
  | _ => exact h

/-! ## The user's writes and reads -/

def Write.own (u : String) : Write → Prop
  | .saveUser _ _ => False
  | .updateUser uid _ _ => uid = some u
  | _ => True

def Pending.own (u : String) : Pending → Prop
  | .write w _ => w.own u
  | .getUserData uid => uid = some u
  | _ => True

/-- `u` is logged in and has a document, and all writes and reads in flight are his. -/
structure OneUser (u : String) (s : Uploads) : Prop where
  uId : s.uId = some u
  users : s.users u ≠ none
  inFlight : ∀ p ∈ s.inFlight, p.own u

/-- What the server does with a write of the user. -/
theorem serve_own {u : String} {w : Write} {users users' : String → Option Json}
    (hw : w.own u) (h : serve w users = some users') :
    users' = users ∧ (∀ applied, (Pending.write w applied).update = none) ∨
      ∃ update user doc, w = .updateUser (some u) update user ∧ users u = some doc ∧
        users' = Function.update users u (some (user.update doc)) := by
  cases w with
  | saveUser uid user => exact absurd hw (by simp [Write.own])
  | updateUser uid update user =>
    have huid : uid = some u := hw
    subst huid
    obtain ⟨doc, hdoc, heq⟩ := Option.map_eq_some_iff.mp h
    exact Or.inr ⟨update, user, doc, rfl, hdoc, heq.symm⟩
  | setPost id post => exact Or.inl ⟨(Option.some.inj h).symm, fun _ => rfl⟩
  | addMessage owner peer sent message => exact Or.inl ⟨(Option.some.inj h).symm, fun _ => rfl⟩

/-! ## Steps -/

/-- What a step of one user does.  `new` are the callbacks that it starts. -/
inductive DocStep (u : String) (s s' : Uploads) (o : List Effect) : Event → Prop
  | beside {e : Event} {new : List Pending}
      (he : ∀ k, e ≠ .applied k ∧ e ≠ .served k ∧ e ≠ .userData k)
      (inFlight : s'.inFlight = e.leave s.inFlight ++ new)
      (plain : ∀ p ∈ new, p.plain = true ∧ p.own u)
      (updates : (e.leave s.inFlight).filterMap Pending.update = s.updates)
      (users : s'.users = s.users) (model : s'.model = s.model) (quiet : Quiet o) :
      DocStep u s s' o e
  | issued {e : Event} {update : Update} {name phone bio : String} {m : LoginModel}
      {before : List Effect} (he : ∀ k, e ≠ .applied k ∧ e ≠ .served k ∧ e ≠ .userData k)
      (issues : e.issues s = some update) (copy : s.model = some m)
      (inFlight : s'.inFlight = e.leave s.inFlight ++
        [.write (.updateUser (some u) update (updatedUser update name phone bio m)) false])
      (updates : (e.leave s.inFlight).filterMap Pending.update = s.updates)
      (users : s'.users = s.users) (model : s'.model = s.model)
      (effects : o = before ++
        [.issue (.updateUser (some u) update (updatedUser update name phone bio m))])
      (quiet : Quiet before) : DocStep u s s' o e
  | carried {k : Nat} {w : Write} (request : s.inFlight[k]? = some (.write w false))
      (plain : ∀ applied, (Pending.write w applied).update = none)
      (inFlight : s'.inFlight = s.inFlight.set k (.write w true))
      (users : s'.users = s.users) (model : s'.model = s.model) (quiet : Quiet o) :
      DocStep u s s' o (.applied k)
  | applied {k : Nat} {update : Update} {user : LoginModel} {doc : Json}
      (request : s.inFlight[k]? = some (.write (.updateUser (some u) update user) false))
      (inFlight : s'.inFlight = s.inFlight.set k (.write (.updateUser (some u) update user) true))
      (before : s.users u = some doc) (users : s'.users u = some (user.update doc))
      (model : s'.model = s.model) (effects : o = [.applied (.updateUser (some u) update user)]) :
      DocStep u s s' o (.applied k)
  | settled {k : Nat} {ok : Bool} {update : Update} {user : LoginModel} {new : List Pending}
      (request : s.inFlight[k]? = some (.write (.updateUser (some u) update user) ok))
      (inFlight : s'.inFlight = s.inFlight.eraseIdx k ++ new)
      (plain : ∀ p ∈ new, p.plain = true ∧ p.own u)
      (users : s'.users = s.users) (model : s'.model = s.model) (quiet : Quiet o) :
      DocStep u s s' o (.settled k ok)
  | served {k : Nat} (request : s.inFlight[k]? = some (.getUserData (some u)))
      (inFlight : s'.inFlight = s.inFlight.set k (.userData (s.localView u)))
      (users : s'.users = s.users) (model : s'.model = s.model) (quiet : Quiet o) :
      DocStep u s s' o (.served k)
  | userData {k : Nat} {data : Option Json} (request : s.inFlight[k]? = some (.userData data))
      (inFlight : s'.inFlight = s.inFlight.eraseIdx k) (users : s'.users = s.users)
      (model : s'.model = (LoginModel.fromJson data).or s.model) (quiet : Quiet o) :
      DocStep u s s' o (.userData k)

/-- Nothing new is started. -/
theorem DocStep.landed {u : String} {s s' : Uploads} {o : List Effect} {e : Event}
    (he : ∀ k, e ≠ .applied k ∧ e ≠ .served k ∧ e ≠ .userData k)
    (inFlight : s'.inFlight = e.leave s.inFlight)
    (updates : (e.leave s.inFlight).filterMap Pending.update = s.updates)
    (users : s'.users = s.users) (model : s'.model = s.model) (quiet : Quiet o) :
    DocStep u s s' o e := by
  have hinFlight : s'.inFlight = e.leave s.inFlight ++ [] := by
    rw [inFlight, List.append_nil]
  exact .beside he hinFlight (by simp) updates users model quiet

/-- The events that leave the other callbacks as they are. -/
theorem ne_of_issues {s : Uploads} {e : Event} {update : Update} (h : e.issues s = some update)
    (k : Nat) : e ≠ .applied k ∧ e ≠ .served k ∧ e ≠ .userData k := by
  cases e with
  | updateUserData name phone bio => simp
  | url k url now => simp
  | _ => exact absurd h (by simp [Event.issues])

theorem quiet_nil : Quiet [] := fun _ h => absurd h List.not_mem_nil

theorem leave_updates {s : Uploads} {k : Nat} {p : Pending} (hk : s.inFlight[k]? = some p)
    (hp : p.update = none) : (s.inFlight.eraseIdx k).filterMap Pending.update = s.updates :=
  Reactive.filterMap_eraseIdx_none hk hp

/-- An update of the profile, after `left` has been left in flight. -/
theorem updateUser_step {u : String} {s t s' : Uploads} {e : Event} {update : Update}
    {name phone bio : String} (before : List Effect) (hs : s.uId = some u)
    (issues : e.issues s = some update) (ht : t.inFlight = e.leave s.inFlight)
    (uId : t.uId = s.uId) (users : t.users = s.users) (model : t.model = s.model)
    (updates : (e.leave s.inFlight).filterMap Pending.update = s.updates) (quiet : Quiet before)
    (h : (t.updateUser update name phone bio).1 = s') :
    DocStep u s s' (before ++ (t.updateUser update name phone bio).2) e ∧ s'.uId = s.uId := by
  unfold updateUser at h ⊢
  cases hm : s.model with
  | none =>
    rw [model, hm] at h ⊢
    dsimp only at h ⊢
    subst h
    refine ⟨.landed (ne_of_issues issues) ht updates users model ?_, uId⟩
    rwa [List.append_nil]
  | some m =>
    rw [model, hm] at h ⊢
    dsimp only at h ⊢
    rw [uId, hs] at h ⊢
    subst h
    refine ⟨.issued (ne_of_issues issues) issues hm ?_ updates users model rfl quiet,
      uId.trans hs⟩
    show t.inFlight ++ _ = _
    rw [ht]

theorem writeThen_step {u : String} {s : Uploads} {k : Nat} {w : Write} {ok : Bool}
    (hs : OneUser u s) (hk : s.inFlight[k]? = some (.write w ok)) :
    DocStep u s ((s.landed k).writeThen w ok).1 ((s.landed k).writeThen w ok).2 (.settled k ok) ∧
      ((s.landed k).writeThen w ok).1.uId = s.uId := by
  have hown : w.own u := hs.inFlight _ (List.mem_of_getElem? hk)
  have hread : ∀ p ∈ [Pending.getUserData s.uId], p.plain = true ∧ p.own u := by
    intro p hp
    rw [List.mem_singleton.mp hp]
    exact ⟨rfl, hs.uId⟩
  have hbeside : ∀ {o}, (∀ applied, (Pending.write w applied).update = none) → Quiet o →
      DocStep u s (s.landed k) o (.settled k ok) := fun hw ho =>
    .landed (fun _ => by simp) rfl (leave_updates hk (hw ok)) rfl rfl ho
  cases w with
  | saveUser uid user => exact absurd hown (by simp [Write.own])
  | updateUser uid update user =>
    have huid : uid = some u := hown
    subst huid
    cases ok with
    | true =>
      cases update with
      | data => exact ⟨.settled hk rfl hread rfl rfl (by simp [writeThen, getUserData, Quiet,
          Effect.update]), rfl⟩
      | cover url => exact ⟨.settled hk rfl hread rfl rfl (by simp [writeThen, getUserData, Quiet,
          Effect.update]), rfl⟩
      | profile url => exact ⟨.settled hk rfl hread rfl rfl (by simp [writeThen, getUserData,
          Quiet, Effect.update]), rfl⟩
    | false =>
      have hnone : (s.landed k).inFlight = s.inFlight.eraseIdx k ++ [] :=
        (List.append_nil _).symm
      cases update with
      | data => exact ⟨.settled hk hnone (by simp) rfl rfl
          (by simp [writeThen, Quiet, Effect.update]), rfl⟩
      | cover url => exact ⟨.settled hk hnone (by simp) rfl rfl quiet_nil, rfl⟩
      | profile url => exact ⟨.settled hk hnone (by simp) rfl rfl quiet_nil, rfl⟩
  | setPost id post =>
    cases ok with
    | true => exact ⟨hbeside (fun _ => rfl) (by simp [writeThen, Quiet, Effect.update]), rfl⟩
    | false => exact ⟨hbeside (fun _ => rfl) (by simp [writeThen, Quiet, Effect.update]), rfl⟩
  | addMessage owner peer sent message =>
    cases ok with
    | true =>
      cases sent with
      | true => exact ⟨hbeside (fun _ => rfl) (by simp [writeThen, Quiet, Effect.update]), rfl⟩
      | false => exact ⟨hbeside (fun _ => rfl) quiet_nil, rfl⟩
    | false =>
      cases sent with
      | true => exact ⟨hbeside (fun _ => rfl) (by simp [writeThen, Quiet, Effect.update]), rfl⟩
      | false => exact ⟨hbeside (fun _ => rfl) (by simp [writeThen, Quiet, Effect.update]), rfl⟩

theorem urlThen_step {u : String} {s : Uploads} {k : Nat} {flow : Flow} {url now : String}
    {starter : String} (hs : OneUser u s)
    (hk : s.inFlight[k]? = some (.getDownloadURL flow starter)) :
    DocStep u s ((s.landed k).urlThen flow url now).1 ((s.landed k).urlThen flow url now).2
        (.url k url now) ∧ ((s.landed k).urlThen flow url now).1.uId = s.uId := by
  have hupdates := leave_updates hk rfl
  cases flow with
  | cover name phone bio =>
    exact updateUser_step (e := .url k url now) [] hs.uId (by simp [Event.issues, hk])
      rfl rfl rfl rfl hupdates quiet_nil rfl
  | profile name phone bio =>
    exact updateUser_step (e := .url k url now) [] hs.uId (by simp [Event.issues, hk])
      rfl rfl rfl rfl hupdates quiet_nil rfl
  | post text postUserImage postUserName =>
    refine ⟨.beside (fun _ => by simp) rfl ?_ hupdates rfl rfl ?_, rfl⟩
    · intro p hp
      rw [List.mem_singleton.mp hp]
      exact ⟨rfl, trivial⟩
    · simp [urlThen, createPost, issue, Quiet, Effect.update]
  | message receiverId =>
    refine ⟨.beside (fun _ => by simp) (List.append_assoc _ _ _) ?_ hupdates rfl rfl ?_, rfl⟩
    · intro p hp
      rcases List.mem_cons.mp hp with rfl | hp
      · exact ⟨rfl, trivial⟩
      · rw [List.mem_singleton.mp hp]
        exact ⟨rfl, trivial⟩
    · simp [urlThen, sendImageToChat, issue, Quiet, Effect.update]

theorem step_applied {s s' : Uploads} {k : Nat} {o : List Effect}
    (h : s.step (.applied k) = some (s', o)) :
    ∃ w users, s.inFlight[k]? = some (.write w false) ∧ serve w s.users = some users ∧
      s' = { s with users, inFlight := s.inFlight.set k (.write w true) } ∧
      o = [.applied w] := by
  simp only [step] at h
  split at h
  · rename_i w hk
    obtain ⟨users, hserve, heq⟩ := Option.map_eq_some_iff.mp h
    obtain ⟨hs, ho⟩ := Prod.mk.inj heq
    exact ⟨w, users, hk, hserve, hs.symm, ho.symm⟩
  · exact absurd h (by simp)

theorem flow_quiet (flow : Flow) : Quiet flow.failed ∧ Quiet [flow.uploading] := by
  cases flow <;> simp [Quiet, Flow.failed, Flow.uploading, Effect.update]

theorem step_doc {u : String} {s s' : Uploads} {e : Event} {o : List Effect} (hs : OneUser u s)
    (h : s.step e = some (s', o)) (he : e.sameUser = true) :
    DocStep u s s' o e ∧ s'.uId = s.uId := by
  have hret : ∀ {r : Uploads × List Effect}, some r = some (s', o) →
      DocStep u s r.1 r.2 e ∧ r.1.uId = s.uId → DocStep u s s' o e ∧ s'.uId = s.uId := by
    intro r hr hstep
    rwa [Option.some.inj hr] at hstep
  have hone : ∀ {p : Pending}, p.plain = true → p.own u →
      ∀ q ∈ [p], q.plain = true ∧ q.own u := by
    intro p hp hown q hq
    rw [List.mem_singleton.mp hq]
    exact ⟨hp, hown⟩
  cases e with
  | login uid => exact absurd he (by simp [Event.sameUser])
  | register uid user => exact absurd he (by simp [Event.sameUser])
  | logout => exact absurd he (by simp [Event.sameUser])
  | getUserData =>
    exact hret h ⟨.beside (fun _ => by simp) rfl (hone rfl hs.uId) rfl rfl rfl
      (by simp [getUserData, Quiet, Effect.update]), rfl⟩
  | updateUserData name phone bio =>
    exact hret h (updateUser_step (e := .updateUserData name phone bio) (t := s)
      [.editProfile .uploadingProfileData] hs.uId rfl rfl rfl rfl rfl rfl
      (by simp [Quiet, Effect.update]) rfl)
  | upload flow =>
    obtain ⟨starter, _, heq⟩ := Option.map_eq_some_iff.mp h
    exact hret (congrArg some heq) ⟨.beside (fun _ => by simp) rfl (hone rfl trivial) rfl rfl rfl
      (flow_quiet flow).2, rfl⟩
  | uploaded k =>
    simp only [step] at h
    split at h
    · rename_i flow starter hk
      exact hret h ⟨.beside (fun _ => by simp) rfl (hone rfl trivial) (leave_updates hk rfl)
        rfl rfl quiet_nil, rfl⟩
    · exact absurd h (by simp)
  | url k url now =>
    simp only [step] at h
    split at h
    · rename_i flow starter hk
      exact hret h (urlThen_step hs hk)
    · exact absurd h (by simp)
  | failed k =>
    have hlanded : ∀ {p : Pending} {o : List Effect}, s.inFlight[k]? = some p → p.update = none →
        Quiet o → DocStep u s (s.landed k) o (.failed k) := fun hk hp ho =>
      .landed (fun _ => by simp) rfl (leave_updates hk hp) rfl rfl ho
    simp only [step] at h
    split at h
    · rename_i flow starter hk
      exact hret h ⟨hlanded hk rfl (flow_quiet flow).1, rfl⟩
    · rename_i flow starter hk
      exact hret h ⟨hlanded hk rfl (flow_quiet flow).1, rfl⟩
    · rename_i uid hk
      exact hret h ⟨hlanded hk rfl (by simp [Quiet, Effect.update]), rfl⟩
    · exact absurd h (by simp)
  | applied k =>
    obtain ⟨w, users, hk, hserve, rfl, rfl⟩ := step_applied h
    have hw : w.own u := hs.inFlight _ (List.mem_of_getElem? hk)
    rcases serve_own hw hserve with ⟨rfl, hplain⟩ | ⟨update, user, doc, rfl, hdoc, rfl⟩
    · refine ⟨.carried hk hplain rfl rfl rfl fun x hx => ?_, rfl⟩
      rw [List.mem_singleton.mp hx]
      cases w with
      | updateUser uid update user => exact absurd (hplain false) (by simp [Pending.update])
      | _ => rfl
    · exact ⟨.applied hk rfl hdoc (Function.update_self _ _ _) rfl rfl, rfl⟩
  | settled k ok =>
    simp only [step] at h
    split at h
    · rename_i w applied hk
      split at h
      · rename_i heq
        subst heq
        exact hret h (writeThen_step hs hk)
      · exact absurd h (by simp)
    · exact absurd h (by simp)
  | served k =>
    simp only [step] at h
    split at h
    · rename_i uid hk
      have huid : uid = some u := hs.inFlight _ (List.mem_of_getElem? hk)
      subst huid
      exact hret h ⟨.served hk rfl rfl rfl quiet_nil, rfl⟩
    · exact absurd h (by simp)
  | userData k =>
    simp only [step] at h
    split at h
    · rename_i data hk
      refine hret h ?_
      unfold getUserDataThen
      cases hm : LoginModel.fromJson data with
      | none =>
        exact ⟨.userData hk rfl rfl (by rw [hm]; rfl) (by simp [Quiet, Effect.update]), rfl⟩
      | some m =>
        exact ⟨.userData hk rfl rfl (by rw [hm]; rfl) (by simp [Quiet, Effect.update]), rfl⟩
    · exact absurd h (by simp)

theorem step_oneUser {u : String} {s s' : Uploads} {e : Event} {o : List Effect}
    (hs : OneUser u s) (h : s.step e = some (s', o)) (he : e.sameUser = true) :
    OneUser u s' := by
  obtain ⟨hstep, huId⟩ := step_doc hs h he
  have huId : s'.uId = some u := huId.trans hs.uId
  have hset : ∀ (k : Nat) (x : Pending), x.own u → ∀ p ∈ s.inFlight.set k x, p.own u := by
    intro k x hx p hp
    rcases List.mem_or_eq_of_mem_set hp with hp | rfl
    · exact hs.inFlight p hp
    · exact hx
  have happend : ∀ {left new : List Pending}, (∀ p ∈ left, p ∈ s.inFlight) →
      (∀ p ∈ new, p.own u) → ∀ p ∈ left ++ new, p.own u := fun hleft hnew p hp =>
    (List.mem_append.mp hp).elim (fun hp => hs.inFlight p (hleft p hp)) (hnew p)
  cases hstep with
  | beside _ inFlight plain _ users _ _ =>
    exact { uId := huId, users := users ▸ hs.users
            inFlight := inFlight ▸ happend (fun _ => mem_of_mem_leave) fun p hp => (plain p hp).2 }
  | issued _ _ _ inFlight _ users _ _ _ =>
    refine { uId := huId, users := users ▸ hs.users
             inFlight := inFlight ▸ happend (fun _ => mem_of_mem_leave) fun p hp => ?_ }
    rw [List.mem_singleton.mp hp]
    rfl
  | @carried k w request _ inFlight users _ _ =>
    have hown : w.own u := hs.inFlight _ (List.mem_of_getElem? request)
    exact { uId := huId, users := users ▸ hs.users
            inFlight := inFlight ▸ hset k (.write w true) hown }
  | @applied k update user doc request inFlight _ users _ _ =>
    exact { uId := huId, users := by rw [users]; simp
            inFlight := inFlight ▸ hset k (.write (.updateUser (some u) update user) true) rfl }
  | settled _ inFlight plain users _ _ =>
    exact { uId := huId, users := users ▸ hs.users
            inFlight := inFlight ▸ happend (fun _ => List.mem_of_mem_eraseIdx)
              fun p hp => (plain p hp).2 }
  | served _ inFlight users _ _ =>
    exact { uId := huId, users := users ▸ hs.users, inFlight := inFlight ▸ hset _ _ trivial }
  | userData _ inFlight users _ _ =>
    exact { uId := huId, users := users ▸ hs.users
            inFlight := inFlight ▸ fun p hp => hs.inFlight p (List.mem_of_mem_eraseIdx hp) }

end Uploads
end SocialApp
