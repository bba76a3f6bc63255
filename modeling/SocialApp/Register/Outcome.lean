import SocialApp.Register.Cubit

/-! # What a registration leaves behind

Once both stages of a call have settled, the user is registered and logged in, or the
session is as it was.  The login is not undone when the profile write fails, and a
screen that was left in the meantime keeps the layout from being shown. -/

namespace SocialApp
namespace Register

/-- An account was made, and the device is logged in to it, with its profile there and
the home layout shown. -/
def Registered (s s' : Register) : Prop :=
  ∃ uid, uid ∉ s.store.accounts ∧ uid ∈ s'.store.accounts ∧ s'.store.users uid ≠ none ∧
    s'.store.uId = some uid ∧ s'.store.cached = some uid ∧ s'.screen = .layout

def Unchanged (s s' : Register) : Prop :=
  s'.store.uId = s.store.uId ∧ s'.store.cached = s.store.cached ∧ s'.screen ≠ .layout

/-- A user who is logged in has a profile. -/
def Profiled (s : Register) : Prop :=
  ∀ uid, s.store.uId = some uid → s.store.users uid ≠ none

/-- All of a call has happened, or nothing, and whoever is logged in, now or after a
restart, has a profile. -/
def AllOrNothing (s s' : Register) : Prop :=
  (Registered s s' ∨ Unchanged s s') ∧ Profiled s' ∧ Profiled s'.restart

/-- The creation succeeds while the screen of the call is shown and the profile write
succeeds, or the creation fails and whoever is logged in has a profile. -/
def Succeeds (s : Register) : Event → Prop
  | .created k _ => ∀ call, s.inFlight[k]? = some (.creation call) →
      s.screen = .register call.context
  | .creationFailed _ _ => Profiled s ∧ Profiled s.restart
  | .saved _ ok => ok = true
  | _ => True

/-- The event is not another call. -/
def NoCall (e : Event) : Prop :=
  ∀ name phone email password, e ≠ .createUserRegister name phone email password

/-! ## One step -/

/-- What a step can do that is not a call. -/
inductive RegisterStep (s s' : Register) : Event → Prop
  | beside {e : Event} (store : s'.store = s.store) (inFlight : s'.inFlight = s.inFlight)
      (screen : s'.screen = .layout ↔ s.screen = .layout) (cond : Succeeds s e) :
      RegisterStep s s' e
  | created {k : Nat} {uid : String} {call : Call}
      (request : s.inFlight[k]? = some (.creation call)) (fresh : uid ∉ s.store.accounts)
      (after : ((s.landed k).creationThen call uid).1 = s') : RegisterStep s s' (.created k uid)
  | failed {k : Nat} {lost : Option String} {call : Call}
      (request : s.inFlight[k]? = some (.creation call))
      (uId : s'.store.uId = s.store.uId) (cached : s'.store.cached = s.store.cached)
      (users : s'.store.users = s.store.users) (screen : s'.screen = s.screen)
      (inFlight : s'.inFlight = s.inFlight.eraseIdx k) : RegisterStep s s' (.creationFailed k lost)
  | saved {k : Nat} {ok : Bool} {uid : String} {data : Json}
      (request : s.inFlight[k]? = some (.save uid data))
      (accounts : s'.store.accounts = s.store.accounts)
      (uId : s'.store.uId = s.store.uId) (cached : s'.store.cached = s.store.cached)
      (users : ok = true → s'.store.users uid = some data)
      (lost : ok = false → s'.store.users = s.store.users) (screen : s'.screen = s.screen)
      (inFlight : s'.inFlight = s.inFlight.eraseIdx k) : RegisterStep s s' (.saved k ok)

theorem step_register {s s' : Register} {e : Event} {o : List Effect} (he : NoCall e)
    (h : s.step e = some (s', o)) : RegisterStep s s' e := by
  cases e with
  | openRegister =>
    simp only [step] at h
    split at h
    · rename_i hlogin
      obtain ⟨rfl, -⟩ := Prod.mk.inj (Option.some.inj h)
      exact .beside rfl rfl (by simp [hlogin]) trivial
    · exact absurd h (by simp)
  | back =>
    simp only [step] at h
    split at h
    · rename_i n hregister
      obtain ⟨rfl, -⟩ := Prod.mk.inj (Option.some.inj h)
      exact .beside rfl rfl (by simp [hregister]) trivial
    · exact absurd h (by simp)
  | setVis =>
    simp only [step] at h
    split at h
    · obtain ⟨rfl, -⟩ := Prod.mk.inj (Option.some.inj h)
      exact .beside rfl rfl Iff.rfl trivial
    · exact absurd h (by simp)
  | createUserRegister name phone email password => exact absurd rfl (he name phone email password)
  | created k uid =>
    simp only [step] at h
    split at h
    · rename_i call request
      split at h
      · rename_i fresh
        exact .created request fresh (congrArg Prod.fst (Option.some.inj h))
      · exact absurd h (by simp)
    · exact absurd h (by simp)
  | creationFailed k lost =>
    simp only [step] at h
    split at h
    · rename_i call request
      split at h
      · obtain ⟨rfl, -⟩ := Prod.mk.inj (Option.some.inj h)
        exact .failed request rfl rfl rfl rfl rfl
      · split at h
        · obtain ⟨rfl, -⟩ := Prod.mk.inj (Option.some.inj h)
          exact .failed request rfl rfl rfl rfl rfl
        · exact absurd h (by simp)
    · exact absurd h (by simp)
  | saved k ok =>
    simp only [step] at h
    split at h
    · rename_i uid data request
      split at h
      · rename_i hok
        obtain ⟨rfl, -⟩ := Prod.mk.inj (Option.some.inj h)
        refine .saved request rfl rfl rfl (fun _ => if_pos rfl) (fun hfail => ?_) rfl rfl
        rw [hok] at hfail
        exact absurd hfail (by simp)
      · rename_i hok
        obtain ⟨rfl, -⟩ := Prod.mk.inj (Option.some.inj h)
        exact .saved request rfl rfl rfl (fun h => absurd h hok) (fun _ => rfl) rfl rfl
    · exact absurd h (by simp)

/-- After the creation the new user is logged in, and the layout is shown when the
screen of the call was. -/
theorem creationThen_spec (s : Register) (call : Call) (uid : String) :
    ∃ data, (s.creationThen call uid).1.inFlight = s.inFlight ++ [.save uid data] ∧
      (s.creationThen call uid).1.store =
        (s.store.create uid).login uid List.mem_cons_self ∧
      (s.screen ≠ .layout → ((s.creationThen call uid).1.screen = .layout ↔
        s.screen = .register call.context)) := by
  unfold creationThen
  by_cases hscreen : s.screen = .register call.context
  · rw [if_pos hscreen]
    exact ⟨_, rfl, rfl, fun _ => ⟨fun _ => hscreen, fun _ => rfl⟩⟩
  · rw [if_neg hscreen]
    exact ⟨_, rfl, rfl, fun hlayout => ⟨fun h => absurd h hlayout, fun h => absurd h hscreen⟩⟩

/-! ## The stages of a call -/

/-- How far the call has come that started in `s` with nothing in flight. -/
inductive Stage (s : Register) (t : Register) : Prop
  | creating {call : Call} (inFlight : t.inFlight = [.creation call]) (store : t.store = s.store)
      (screen : t.screen ≠ .layout)
  | failed (inFlight : t.inFlight = []) (uId : t.store.uId = s.store.uId)
      (cached : t.store.cached = s.store.cached) (screen : t.screen ≠ .layout)
  | saving {uid : String} {data : Json} (fresh : uid ∉ s.store.accounts)
      (inFlight : t.inFlight = [.save uid data]) (account : uid ∈ t.store.accounts)
      (uId : t.store.uId = some uid) (cached : t.store.cached = some uid)
      (users : t.store.users uid = none)
  | saved {uid : String} (fresh : uid ∉ s.store.accounts)
      (inFlight : t.inFlight = []) (account : uid ∈ t.store.accounts)
      (uId : t.store.uId = some uid) (cached : t.store.cached = some uid)

/-- Nothing has gone wrong so far. -/
def Right (s t : Register) : Prop :=
  (Unchanged s t ∧ (t.inFlight = [] → Profiled t ∧ Profiled t.restart)) ∨
    ∃ uid, uid ∉ s.store.accounts ∧ uid ∈ t.store.accounts ∧ t.store.uId = some uid ∧
      t.store.cached = some uid ∧ t.screen = .layout ∧
      (t.inFlight = [] → t.store.users uid ≠ none)

theorem fresh_ne_uId {s t : Register} {uid : String} (fresh : uid ∉ s.store.accounts)
    (h : t.store.uId = some uid) : t.store.uId ≠ s.store.uId :=
  fun heq => fresh (s.store.uId_account uid (heq.symm.trans h))

theorem right_creating {s t : Register} {call : Call} (inFlight : t.inFlight = [.creation call])
    (store : t.store = s.store) (screen : t.screen ≠ .layout) : Right s t := by
  refine Or.inl ⟨⟨by rw [store], by rw [store], screen⟩, fun hquiet => ?_⟩
  rw [inFlight] at hquiet
  exact absurd hquiet (by simp)

theorem right_failed_iff {s t : Register} (inFlight : t.inFlight = [])
    (uId : t.store.uId = s.store.uId) (cached : t.store.cached = s.store.cached)
    (screen : t.screen ≠ .layout) : Right s t ↔ Profiled t ∧ Profiled t.restart := by
  constructor
  · rintro (⟨_, h⟩ | ⟨uid, fresh, _, huid, _⟩)
    · exact h inFlight
    · exact absurd uId (fresh_ne_uId fresh huid)
  · intro h
    exact Or.inl ⟨⟨uId, cached, screen⟩, fun _ => h⟩

theorem right_saving_iff {s t : Register} {uid : String} (fresh : uid ∉ s.store.accounts)
    (account : uid ∈ t.store.accounts) (uId : t.store.uId = some uid)
    (cached : t.store.cached = some uid) :
    Right s t ↔ t.screen = .layout ∧ (t.inFlight = [] → t.store.users uid ≠ none) := by
  constructor
  · rintro (⟨hsame, _⟩ | ⟨u, _, _, hu, _, screen, hdoc⟩)
    · exact absurd hsame.1 (fresh_ne_uId fresh uId)
    · rw [uId, Option.some.injEq] at hu
      rw [hu]
      exact ⟨screen, hdoc⟩
  · intro ⟨screen, hdoc⟩
    exact Or.inr ⟨uid, fresh, account, uId, cached, screen, hdoc⟩

/-- A callback of a list of one is that one. -/
theorem request_inj {ps : List Pending} {p q : Pending} {k : Nat} (hps : ps = [p])
    (h : ps[k]? = some q) : p = q ∧ ps.eraseIdx k = [] := by
  subst hps
  cases k with
  | zero => exact ⟨Option.some.inj h, rfl⟩
  | succ k => exact absurd h (by simp)

/-- While the creation is in flight nothing has happened. -/
theorem Stage.creation {s t : Register} {k : Nat} {call : Call} (ht : Stage s t)
    (request : t.inFlight[k]? = some (.creation call)) :
    t.inFlight = [.creation call] ∧ t.inFlight.eraseIdx k = [] ∧ t.store = s.store ∧
      t.screen ≠ .layout := by
  cases ht with
  | creating inFlight store screen =>
    obtain ⟨heq, herase⟩ := request_inj inFlight request
    exact ⟨inFlight.trans (by rw [heq]), herase, store, screen⟩
  | failed inFlight _ _ _ => exact absurd request (by simp [inFlight])
  | saving _ inFlight _ _ _ _ => exact absurd (request_inj inFlight request).1 (by simp)
  | saved _ inFlight _ _ _ => exact absurd request (by simp [inFlight])

/-- While the profile write is in flight the new user is logged in without a profile. -/
theorem Stage.save {s t : Register} {k : Nat} {uid : String} {data : Json} (ht : Stage s t)
    (request : t.inFlight[k]? = some (.save uid data)) :
    t.inFlight = [.save uid data] ∧ t.inFlight.eraseIdx k = [] ∧ uid ∉ s.store.accounts ∧
      uid ∈ t.store.accounts ∧ t.store.uId = some uid ∧ t.store.cached = some uid ∧
      t.store.users uid = none := by
  cases ht with
  | creating inFlight _ _ => exact absurd (request_inj inFlight request).1 (by simp)
  | failed inFlight _ _ _ => exact absurd request (by simp [inFlight])
  | @saving u d fresh inFlight account uId cached users =>
    obtain ⟨heq, herase⟩ := request_inj inFlight request
    obtain ⟨rfl, rfl⟩ := Pending.save.inj heq
    exact ⟨inFlight, herase, fresh, account, uId, cached, users⟩
  | saved _ inFlight _ _ _ => exact absurd request (by simp [inFlight])

/-- What leaves the store and the callbacks alone leaves the call where it is. -/
theorem Stage.beside {s t t' : Register} (ht : Stage s t) (store : t'.store = t.store)
    (inFlight : t'.inFlight = t.inFlight) (screen : t'.screen = .layout ↔ t.screen = .layout) :
    Stage s t' ∧ (Right s t' ↔ Right s t) := by
  constructor
  · cases ht with
    | creating hinFlight hstore hscreen =>
      exact .creating (inFlight.trans hinFlight) (store.trans hstore)
        (fun h => hscreen (screen.mp h))
    | failed hinFlight uId cached hscreen =>
      exact .failed (inFlight.trans hinFlight) (store ▸ uId) (store ▸ cached)
        (fun h => hscreen (screen.mp h))
    | saving fresh hinFlight account uId cached users =>
      exact .saving fresh (inFlight.trans hinFlight) (store ▸ account) (store ▸ uId)
        (store ▸ cached) (store ▸ users)
    | saved fresh hinFlight account uId cached =>
      exact .saved fresh (inFlight.trans hinFlight) (store ▸ account) (store ▸ uId)
        (store ▸ cached)
  · unfold Right Unchanged Profiled restart
    simp only [store, inFlight, screen, ne_eq]

/-- The creation succeeds: from then on the new user is logged in, and the layout has to
be shown. -/
theorem Stage.created {s t : Register} {k : Nat} {uid : String} {call : Call} (ht : Stage s t)
    (request : t.inFlight[k]? = some (.creation call)) (fresh : uid ∉ t.store.accounts) :
    Stage s ((t.landed k).creationThen call uid).1 ∧
      (Right s ((t.landed k).creationThen call uid).1 ↔
        Right s t ∧ t.screen = .register call.context) := by
  obtain ⟨inFlight, herase, store, screen⟩ := ht.creation request
  obtain ⟨data, hinFlight, hstore, hscreen⟩ := creationThen_spec (t.landed k) call uid
  have hquiet : (t.landed k).inFlight = [] := herase
  rw [hquiet] at hinFlight
  have hfresh : uid ∉ s.store.accounts := store ▸ fresh
  have husers : t.store.users uid = none := by
    by_contra hdoc
    exact fresh (t.store.users_account uid hdoc)
  have haccount : uid ∈ ((t.landed k).creationThen call uid).1.store.accounts := by
    rw [hstore]
    exact List.mem_cons_self
  have huId := congrArg Store.uId hstore
  have hcached := congrArg Store.cached hstore
  refine ⟨.saving hfresh hinFlight haccount huId hcached (by rw [hstore]; exact husers), ?_⟩
  rw [right_saving_iff hfresh haccount huId hcached, hscreen screen, hinFlight]
  constructor
  · intro ⟨hshown, _⟩
    exact ⟨right_creating inFlight store screen, hshown⟩
  · intro ⟨_, hshown⟩
    exact ⟨hshown, fun h => absurd h (by simp)⟩

/-- The creation fails: nobody else is logged in than before. -/
theorem Stage.creationFailed {s t t' : Register} {k : Nat} {call : Call} (ht : Stage s t)
    (request : t.inFlight[k]? = some (.creation call)) (uId : t'.store.uId = t.store.uId)
    (cached : t'.store.cached = t.store.cached) (users : t'.store.users = t.store.users)
    (screen : t'.screen = t.screen) (inFlight : t'.inFlight = t.inFlight.eraseIdx k) :
    Stage s t' ∧ (Right s t' ↔ Right s t ∧ Profiled t ∧ Profiled t.restart) := by
  obtain ⟨hinFlight, herase, hstore, hscreen⟩ := ht.creation request
  have hquiet : t'.inFlight = [] := inFlight.trans herase
  have hsameUId : t'.store.uId = s.store.uId := uId.trans (by rw [hstore])
  have hsameCached : t'.store.cached = s.store.cached := cached.trans (by rw [hstore])
  have hlayout : t'.screen ≠ .layout := screen ▸ hscreen
  refine ⟨.failed hquiet hsameUId hsameCached hlayout, ?_⟩
  have hprofiled : (Profiled t' ∧ Profiled t'.restart) ↔ (Profiled t ∧ Profiled t.restart) := by
    unfold Profiled restart Store.restart
    simp only [uId, cached, users]
  rw [right_failed_iff hquiet hsameUId hsameCached hlayout, hprofiled]
  exact ⟨fun h => ⟨right_creating hinFlight hstore hscreen, h⟩, And.right⟩

/-- The profile write settles, and the profile is there exactly on a success. -/
theorem Stage.settled {s t t' : Register} {k : Nat} {ok : Bool} {uid : String} {data : Json}
    (ht : Stage s t) (request : t.inFlight[k]? = some (.save uid data))
    (accounts : t'.store.accounts = t.store.accounts) (uId : t'.store.uId = t.store.uId)
    (cached : t'.store.cached = t.store.cached)
    (users : ok = true → t'.store.users uid = some data)
    (lost : ok = false → t'.store.users = t.store.users) (screen : t'.screen = t.screen)
    (inFlight : t'.inFlight = t.inFlight.eraseIdx k) :
    Stage s t' ∧ (Right s t' ↔ Right s t ∧ ok = true) := by
  obtain ⟨hinFlight, herase, fresh, account, huId, hcached, hnone⟩ := ht.save request
  have hquiet : t'.inFlight = [] := inFlight.trans herase
  have haccount : uid ∈ t'.store.accounts := accounts ▸ account
  have huId' := uId.trans huId
  have hcached' := cached.trans hcached
  refine ⟨.saved fresh hquiet haccount huId' hcached', ?_⟩
  rw [right_saving_iff fresh haccount huId' hcached', right_saving_iff fresh account huId hcached,
    screen, hinFlight]
  cases ok with
  | true =>
    rw [users rfl]
    simp
  | false =>
    rw [lost rfl, hnone]
    simp [hquiet]

/-- A step takes the call to its next stage, and things stay right exactly when the
step succeeds. -/
theorem step_stage {s t t' : Register} {e : Event} {o : List Effect} (ht : Stage s t)
    (he : NoCall e) (h : t.step e = some (t', o)) :
    Stage s t' ∧ (Right s t' ↔ Right s t ∧ Succeeds t e) := by
  cases step_register he h with
  | beside store inFlight screen cond =>
    obtain ⟨hstage, hright⟩ := ht.beside store inFlight screen
    exact ⟨hstage, hright.trans (and_iff_left cond).symm⟩
  | @created k uid call request fresh after =>
    obtain ⟨hstage, hright⟩ := ht.created request fresh
    rw [after] at hstage hright
    have hsucceeds : Succeeds t (.created k uid) ↔ t.screen = .register call.context := by
      constructor
      · intro hs
        exact hs call request
      · intro hshown call' hcall'
        rw [request, Option.some.injEq, Pending.creation.injEq] at hcall'
        rw [← hcall']
        exact hshown
    rw [hsucceeds]
    exact ⟨hstage, hright⟩
  | failed request uId cached users screen inFlight =>
    exact ht.creationFailed request uId cached users screen inFlight
  | saved request accounts uId cached users lost screen inFlight =>
    exact ht.settled request accounts uId cached users lost screen inFlight

/-! ## A call from its start to its end -/

theorem right_iff_allOrNothing {s t : Register} (hquiet : t.inFlight = []) :
    Right s t ↔ AllOrNothing s t := by
  constructor
  · rintro (⟨hsame, hprofiled⟩ | ⟨uid, fresh, account, uId, cached, screen, hdoc⟩)
    · exact ⟨Or.inr hsame, hprofiled hquiet⟩
    · have honly : ∀ {x : Option String} {u}, x = some uid → x = some u →
          t.store.users u ≠ none := by
        intro x u hx hu
        rw [hx, Option.some.injEq] at hu
        rw [← hu]
        exact hdoc hquiet
      exact ⟨Or.inl ⟨uid, fresh, account, hdoc hquiet, uId, cached, screen⟩,
        fun u hu => honly uId hu, fun u hu => honly cached hu⟩
  · rintro ⟨⟨uid, fresh, account, hdoc, uId, cached, screen⟩ | hsame, hprofiled⟩
    · exact Or.inr ⟨uid, fresh, account, uId, cached, screen, fun _ => hdoc⟩
    · exact Or.inl ⟨hsame, fun _ => hprofiled⟩

theorem call_stage {s s₁ : Register} {name phone email password : String} {o : List Effect}
    (hidle : s.inFlight = [])
    (hcall : s.step (.createUserRegister name phone email password) = some (s₁, o)) :
    Stage s s₁ ∧ Right s s₁ := by
  simp only [step] at hcall
  split at hcall
  · rename_i context hscreen
    obtain ⟨rfl, -⟩ := Prod.mk.inj (Option.some.inj hcall)
    have hinFlight : s.inFlight ++ [Pending.creation { name, phone, email, password, context }] =
        [.creation { name, phone, email, password, context }] := by
      rw [hidle, List.nil_append]
    have hlayout : s.screen ≠ .layout := by simp [hscreen]
    exact ⟨.creating hinFlight rfl hlayout, right_creating hinFlight rfl hlayout⟩
  · exact absurd hcall (by simp)

/-- Once a call has settled, all of it has happened, or nothing, and whoever is logged
in has a profile, exactly when both of its stages succeed. -/
theorem all_or_nothing_iff {s s₁ s' : Register} {name phone email password : String}
    {es : List Event} {o₁ o : List Effect} (hidle : s.inFlight = [])
    (hcall : s.step (.createUserRegister name phone email password) = some (s₁, o₁))
    (hes : ∀ e ∈ es, NoCall e) (hrun : machine.run s₁ es = some (s', o))
    (hquiet : s'.inFlight = []) :
    AllOrNothing s s' ↔ machine.Every (fun s e _ _ => Succeeds s e) s₁ es := by
  obtain ⟨hstage, hright⟩ := call_stage hidle hcall
  rw [← right_iff_allOrNothing hquiet]
  refine Reactive.Machine.end_iff (J := fun t _ => Stage s t) (I := fun t _ => Right s t)
    (H := fun _ e _ _ => NoCall e) (a := []) ?_ ?_ ?_ hstage hright
    (Reactive.Machine.every_of_forall (fun _ _ _ _ h => h) hes s₁) hrun
  · intro t e t' o _ ht hstep he
    exact (step_stage ht he hstep).1
  · intro t e t' o _ ht hstep he hr
    exact ((step_stage ht he hstep).2.mp hr).1
  · intro t e t' o _ ht hr hstep he
    exact (step_stage ht he hstep).2.trans (and_iff_right hr)

/-! ## A login without a profile -/

/-- The LoginScreen with a RegisterScreen over it, on a new server. -/
def fresh : Register :=
  { store := { accounts := [], users := fun _ => none, uId := none, cached := none
               users_account := fun _ h => absurd rfl h
               uId_account := fun _ h => nomatch h
               cached_account := fun _ h => nomatch h }
    screen := .register 0, opened := 1, inFlight := []
    save_account := fun _ _ h => absurd h List.not_mem_nil }

/-- The profile write fails, and the layout is shown to a user with no profile, now and
after every restart. -/
theorem logged_in_without_profile :
    ∃ s₁ o₁ s' o,
      fresh.step (.createUserRegister "ann" "1" "ann@x" "pw") = some (s₁, o₁) ∧
      machine.run s₁ [.created 0 "u", .saved 0 false] = some (s', o) ∧ s'.inFlight = [] ∧
      s'.screen = .layout ∧ s'.restart.store.uId = some "u" ∧ ¬ AllOrNothing fresh s' := by
  refine ⟨_, _, _, _, rfl, rfl, rfl, rfl, rfl, fun h => ?_⟩
  exact h.2.1 "u" rfl rfl

theorem all_or_nothing_settled :
    ∃ s₁ o₁ s' o,
      fresh.step (.createUserRegister "ann" "1" "ann@x" "pw") = some (s₁, o₁) ∧
      machine.run s₁ [.created 0 "u", .saved 0 true] = some (s', o) ∧
      AllOrNothing fresh s' := by
  refine ⟨_, _, _, _, rfl, rfl, ?_⟩
  refine (@all_or_nothing_iff fresh _ _ "ann" "1" "ann@x" "pw" [.created 0 "u", .saved 0 true]
    _ _ rfl rfl (by simp [NoCall]) rfl rfl).mpr ?_
  refine Reactive.Machine.every_cons rfl (fun call hcall => ?_)
    (Reactive.Machine.every_cons rfl rfl trivial)
  rw [← Pending.creation.inj (Option.some.inj hcall)]
  rfl

end Register
end SocialApp
