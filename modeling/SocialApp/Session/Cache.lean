import SocialApp.Session.Screens
import SocialApp.Reactive.History

/-! # The user that the next start finds

`uId` and the preference `uid` change together, and a start reads the preference.  What the
package finds then can be old, as what was written last need not have been kept.  How far
back it goes decides who can come back; nobody comes from elsewhere. -/

namespace SocialApp
namespace Session

variable {σ : Type} {store : SharedPreferences σ} {s s' : Session σ} {o : List Effect}
  {e : Event σ}

/-! ## The preference -/

theorem getInitialData_congr {p q : σ} (h : store.get "uid" p = store.get "uid" q) :
    getInitialData store p = getInitialData store q := by
  unfold getInitialData CacheHelper.getData
  rw [h]

theorem getInitialData_setUser (hstore : store.Lawful) (uid : String) (s : Session σ) :
    getInitialData store (s.setUser store uid).preferences = some uid := by
  have hget : store.get "uid" (s.setUser store uid).preferences = some (.string uid) :=
    (hstore.get_setString "uid" uid s.preferences "uid").trans (if_pos rfl)
  unfold getInitialData CacheHelper.getData
  rw [hget]

theorem getInitialData_clearUser (hstore : store.Lawful) (s : Session σ) :
    getInitialData store (s.clearUser store).preferences = none := by
  have hget : store.get "uid" (s.clearUser store).preferences = none :=
    (hstore.get_remove "uid" s.preferences "uid").trans (if_pos rfl)
  unfold getInitialData CacheHelper.getData
  rw [hget]

/-! ## Steps -/

/-- The user that FirebaseAuth hands over. -/
def Event.entrant : Event σ → Option String
  | .signedIn _ uid => uid
  | .created _ uid => some uid
  | _ => none

def entrants (es : List (Event σ)) : List String := es.filterMap Event.entrant

/-- What a step does to the user and to the preferences. -/
inductive Turn (store : SharedPreferences σ) (s s' : Session σ) (e : Event σ) : Prop
  | kept (uId : s'.uId = s.uId) (preferences : s'.preferences = s.preferences)
  | entered (uid : String) (entrant : e.entrant = some uid) (uId : s'.uId = some uid)
      (preferences : s'.preferences = (s.setUser store uid).preferences)
  | left (uId : s'.uId = none) (preferences : s'.preferences = (s.clearUser store).preferences)
  | restarted (event : e = .restart s'.preferences)
      (uId : s'.uId = getInitialData store s'.preferences)

/-- The forms and the screen play no part in it. -/
theorem Turn.before {t : Session σ} (h : Turn store t s' e) (huId : t.uId = s.uId)
    (hpreferences : t.preferences = s.preferences) : Turn store s s' e := by
  cases h with
  | kept uId preferences => exact .kept (uId.trans huId) (preferences.trans hpreferences)
  | entered uid entrant uId preferences =>
    refine .entered uid entrant uId (preferences.trans ?_)
    show CacheHelper.setData store "uid" (some (.string uid)) t.preferences = _
    rw [hpreferences]
    rfl
  | left uId preferences =>
    refine .left uId (preferences.trans ?_)
    show CacheHelper.removeData store "uid" t.preferences = _
    rw [hpreferences]
    rfl
  | restarted event uId => exact .restarted event uId

theorem enter_turn (n : Nat) (uid : String) (isDone : Bool) (s : Session σ)
    (h : e.entrant = some uid) : Turn store s (s.enter store n uid isDone).1 e := by
  unfold enter
  dsimp only
  split
  · exact .entered uid h rfl rfl
  · exact .entered uid h rfl rfl

theorem login_turn (n : Nat) (email password : String) (s : Session σ) :
    Turn store s (s.login n email password).1 e := by
  unfold login
  split
  · exact .kept rfl rfl
  · exact .kept rfl rfl

theorem register_turn (n : Nat) (name email password phone : String) (s : Session σ) :
    Turn store s (s.register n name email password phone).1 e := by
  unfold register
  split
  · exact .kept rfl rfl
  · exact .kept rfl rfl

theorem signInThen_turn (n : Nat) (uid : Option String) (s : Session σ)
    (h : e.entrant = uid) : Turn store s (s.signInThen store n uid).1 e := by
  cases uid with
  | none => exact .kept rfl rfl
  | some u => exact enter_turn n u true s h

theorem openChatScreen_turn (receiverUid : Option String) (s : Session σ) :
    Turn store s (s.openChatScreen store receiverUid).1 e := by
  unfold openChatScreen
  split
  · exact .left rfl rfl
  · exact .kept rfl rfl

theorem step_turn (h : step store s e = some (s', o)) : Turn store s s' e := by
  -- a step that was carried out is one of the operations
  have hof : ∀ {r : Session σ × List Effect}, some r = some (s', o) → Turn store s r.1 e →
      Turn store s s' e := by
    intro r hr hturn
    rw [Option.some.inj hr] at hturn
    exact hturn
  have hkept : ∀ {t : Session σ}, some (t, ([] : List Effect)) = some (s', o) →
      t.uId = s.uId → t.preferences = s.preferences → Turn store s s' e :=
    fun ht huId hpreferences => hof ht (.kept huId hpreferences)
  have hno : ¬ (none : Option (Session σ × List Effect)) = some (s', o) := by simp
  cases e with
  | openRegister =>
    simp only [step] at h
    split at h
    · exact hkept h rfl rfl
    · exact absurd h hno
  | back =>
    simp only [step] at h
    split at h
    · exact hkept h rfl rfl
    · exact absurd h hno
  | gone n =>
    simp only [step] at h
    split at h
    · exact hkept h rfl rfl
    · exact absurd h hno
  | setVis =>
    simp only [step] at h
    split at h
    · exact hkept h rfl rfl
    · exact hkept h rfl rfl
    · exact absurd h hno
  | login email password =>
    simp only [step] at h
    split at h
    · rename_i form hform
      split at h
      · exact hof h (login_turn form.number email password s)
      · exact absurd h hno
    · exact absurd h hno
  | onSubmitted email password =>
    simp only [step] at h
    split at h
    · rename_i form hform
      exact hof h (login_turn form.number email password s)
    · exact absurd h hno
  | register name email password phone =>
    simp only [step] at h
    split at h
    · rename_i form below hform
      split at h
      · exact hof h (register_turn form.number name email password phone s)
      · exact absurd h hno
    · exact absurd h hno
  | signedIn k uid =>
    simp only [step] at h
    split at h
    · rename_i n hk
      exact hof h ((signInThen_turn n uid (s.landed k) rfl).before rfl rfl)
    · exact absurd h hno
  | signInFailed k =>
    simp only [step] at h
    split at h
    · exact hkept h rfl rfl
    · exact absurd h hno
  | created k uid =>
    simp only [step] at h
    split at h
    · rename_i n hk
      exact hof h ((enter_turn n uid false ((s.landed k).emit n .loading) rfl).before rfl rfl)
    · exact absurd h hno
  | creationFailed k =>
    simp only [step] at h
    split at h
    · exact hkept h rfl rfl
    · exact absurd h hno
  | build =>
    simp only [step] at h
    split at h
    · exact hkept h rfl rfl
    · exact absurd h hno
    · exact absurd h hno
    · exact absurd h hno
  | logout =>
    simp only [step] at h
    split at h
    · exact hof h (.left rfl rfl)
    · exact absurd h hno
  | tap receiverUid => exact hof h (openChatScreen_turn receiverUid s)
  | restart preferences =>
    refine hof h (.restarted ?_ rfl)
    rfl

/-! ## Runs -/

/-- The session, with what the preferences have been. -/
def keeping (store : SharedPreferences σ) :
    Reactive.Machine (Session σ × List σ) (Event σ) Effect :=
  (machine store).withHistory fun held _ _ s' _ => held ++ [s'.preferences]

/-- A restart finds under each key what was there once.  It need not be what was there
last, nor of one time for all the keys. -/
def Finds (store : SharedPreferences σ) (held : List σ) : Event σ → Prop
  | .restart preferences => ∀ key, ∃ p ∈ held, store.get key preferences = store.get key p
  | _ => True

/-- The user is the one in the preferences, which have never held one that is not among
`users`. -/
structure Cached (store : SharedPreferences σ) (users : String → Prop)
    (p : Session σ × List σ) : Prop where
  uId : p.1.uId = getInitialData store p.1.preferences
  current : p.1.preferences ∈ p.2
  held : ∀ q ∈ p.2, ∀ uid, getInitialData store q = some uid → users uid

theorem step_uId (hstore : store.Lawful) (hs : s.uId = getInitialData store s.preferences)
    (h : step store s e = some (s', o)) : s'.uId = getInitialData store s'.preferences := by
  cases step_turn h with
  | kept uId preferences => rw [uId, preferences, hs]
  | entered uid entrant uId preferences =>
    rw [uId, preferences, getInitialData_setUser hstore]
  | left uId preferences => rw [uId, preferences, getInitialData_clearUser hstore]
  | restarted event uId => exact uId

/-- Whoever a step writes into the preferences was in them before, or is handed over. -/
theorem step_getInitialData (hstore : store.Lawful) {held : List σ}
    (hcurrent : s.preferences ∈ held) (h : step store s e = some (s', o))
    (hfinds : Finds store held e) {uid : String}
    (huid : getInitialData store s'.preferences = some uid) :
    e.entrant = some uid ∨ ∃ q ∈ held, getInitialData store q = some uid := by
  cases step_turn h with
  | kept uId preferences =>
    rw [preferences] at huid
    exact .inr ⟨s.preferences, hcurrent, huid⟩
  | entered u entrant uId preferences =>
    rw [preferences, getInitialData_setUser hstore] at huid
    exact .inl (entrant.trans huid)
  | left uId preferences =>
    rw [preferences, getInitialData_clearUser hstore] at huid
    exact absurd huid (by simp)
  | restarted event uId =>
    rw [event] at hfinds
    obtain ⟨q, hq, hget⟩ := hfinds "uid"
    exact .inr ⟨q, hq, (getInitialData_congr hget).symm.trans huid⟩

theorem Cached.step (hstore : store.Lawful) {users : String → Prop}
    {p p' : Session σ × List σ} (hp : Cached store users p)
    (h : (keeping store).step p e = some (p', o)) (hfinds : Finds store p.2 e)
    (hentrant : ∀ uid, e.entrant = some uid → users uid) : Cached store users p' := by
  obtain ⟨hstep, hheld⟩ := Reactive.Machine.step_withHistory.mp h
  refine ⟨step_uId hstore hp.uId hstep, ?_, ?_⟩
  · rw [hheld]
    exact List.mem_append_right _ List.mem_cons_self
  · intro q hq uid huid
    rw [hheld, List.mem_append, List.mem_singleton] at hq
    rcases hq with hq | rfl
    · exact hp.held q hq uid huid
    · rcases step_getInitialData hstore hp.current hstep hfinds huid with he | ⟨q, hq, hu⟩
      · exact hentrant uid he
      · exact hp.held q hq uid hu

theorem run_cached (hstore : store.Lawful) {users : String → Prop}
    {p p' : Session σ × List σ} {es : List (Event σ)} (hp : Cached store users p)
    (hfinds : (keeping store).Every (fun p e _ _ => Finds store p.2 e) p es)
    (hentrants : ∀ uid ∈ entrants es, users uid)
    (hrun : (keeping store).run p es = some (p', o)) : Cached store users p' := by
  have hentrant : (keeping store).Every (fun _ e _ _ => ∀ uid, e.entrant = some uid → users uid)
      p es :=
    Reactive.Machine.every_of_forall (G := fun e => e ∈ es)
      (fun _ e _ _ he uid huid =>
        hentrants uid (List.mem_filterMap.mpr ⟨e, he, huid⟩)) (fun _ he => he) p
  exact Reactive.Machine.run_state_invariant
    (fun p e p' o hp h hQ => Cached.step hstore hp h hQ.1 hQ.2) hp (hfinds.and hentrant) hrun

/-- `uId` and the preference `uid` agree in every state of every run, whatever a restart
finds.  From a state on in which the restarts find only what the preferences have held
since, a user who is logged in was so in that state or has been handed over since: a
logout that has been kept is final. -/
theorem restart_brings_back (hstore : store.Lawful) {preferences : σ}
    {es₀ : List (Event σ)} {s₀ : Session σ} {o₀ : List Effect}
    (hrun₀ : (machine store).run (init store preferences) es₀ = some (s₀, o₀)) :
    s₀.uId = getInitialData store s₀.preferences ∧
      ∀ es (s : Session σ) o, (machine store).run s₀ es = some (s, o) →
        (keeping store).Every (fun p e _ _ => Finds store p.2 e) (s₀, [s₀.preferences]) es →
        ∀ uid, s.uId = some uid → s₀.uId = some uid ∨ uid ∈ entrants es := by
  have huId : s₀.uId = getInitialData store s₀.preferences :=
    Reactive.Machine.run_state_preserves
      (I := fun s => s.uId = getInitialData store s.preferences)
      (fun _ _ _ _ hs h => step_uId hstore hs h) rfl hrun₀
  refine ⟨huId, fun es s o hrun hfinds uid huid => ?_⟩
  obtain ⟨held, hrun⟩ := (Reactive.Machine.run_withHistory_iff _ _).mpr hrun
  have hstart : Cached store (fun uid => s₀.uId = some uid ∨ uid ∈ entrants es)
      (s₀, [s₀.preferences]) := by
    refine ⟨huId, List.mem_cons_self, fun q hq uid hu => ?_⟩
    rw [List.mem_singleton.mp hq] at hu
    exact .inl (huId.trans hu)
  have hend := run_cached hstore hstart hfinds (fun uid hu => .inr hu) hrun
  exact hend.held s.preferences hend.current uid (hend.uId.symm.trans huid)

/-- Ann logs out and Bob signs in, and a restart finds neither. -/
def annComesBack : List (Event Json) :=
  [.logout, .login "bob@mail" "pass", .signedIn 0 (some "bob"),
    .restart fun key => if key = "uid" then some (.string "ann") else none]

theorem restart_brings_back_ann :
    ∃ s₀ o₀ s o, (machine .ofJson).run (init .ofJson fun _ => none)
        [.login "ann@mail" "pass", .signedIn 0 (some "ann"), .build] = some (s₀, o₀) ∧
      (machine .ofJson).run s₀ annComesBack = some (s, o) ∧ s.uId = some "ann" ∧
      s₀.uId = getInitialData .ofJson s₀.preferences ∧
      (s₀.uId = some "ann" ∨ "ann" ∈ entrants annComesBack) := by
  refine ⟨_, _, _, _, rfl, rfl, rfl, ?_⟩
  have hback := @restart_brings_back Json .ofJson SharedPreferences.ofJson_lawful
    (fun _ => none) [.login "ann@mail" "pass", .signedIn 0 (some "ann"), .build] _ _ rfl
  refine ⟨hback.1, hback.2 annComesBack _ _ rfl ?_ "ann" rfl⟩
  -- the restart finds what the preferences held at the start
  have hfinds : ∀ held, Finds .ofJson ((fun key : String =>
      if key = "uid" then some (Dynamic.string "ann") else none) :: held)
      (.restart fun key => if key = "uid" then some (.string "ann") else none) :=
    fun held key => ⟨_, List.mem_cons_self, rfl⟩
  exact Reactive.Machine.every_cons rfl trivial (Reactive.Machine.every_cons rfl trivial
    (Reactive.Machine.every_cons rfl trivial (Reactive.Machine.every_cons rfl (hfinds _) trivial)))

end Session
end SocialApp
