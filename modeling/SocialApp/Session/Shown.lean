import SocialApp.Session.Screens

/-! # Whose screen is shown

A form is shown to nobody, and the home layout to the user whose data it has asked for.
The two ways in set `uId` before they navigate, and navigate only when their form is still
mounted; this is where the screen can fall behind the session. -/

namespace SocialApp
namespace Session

variable {σ : Type} {store : SharedPreferences σ} {s s' : Session σ} {o : List Effect}
  {e : Event σ}

/-- The screen is for the user who is logged in. -/
def Shown (s : Session σ) : Prop :=
  match s.screen with
  | .login _ => s.uId = none
  | .register _ _ => s.uId = none
  | .layout none => s.uId ≠ none
  | .layout (some built) => s.uId ≠ none ∧ built = s.uId

/-- The user `uid` may come in through the form `n`: the form is mounted, or a home layout
is shown already that has not been built, or that has been built for the same user. -/
def Welcome (n : Nat) (uid : String) (s : Session σ) : Prop :=
  s.Mounted n ∨ s.screen = .layout none ∨ s.screen = .layout (some (some uid))

/-- The event does not bring a user in too late. -/
def InTime (s : Session σ) : Event σ → Prop
  | .signedIn k (some uid) => ∀ n, s.inFlight[k]? = some (.signIn n) → s.Welcome n uid
  | .created k uid => ∀ n, s.inFlight[k]? = some (.creation n) → s.Welcome n uid
  | _ => True

/-! ## Operations -/

theorem emit_layout (n : Nat) (state : FormState) (s : Session σ) (built : Option (Option String)) :
    (s.emit n state).screen = .layout built ↔ s.screen = .layout built := by
  show s.screen.emit n state = .layout built ↔ s.screen = .layout built
  cases s.screen <;> simp [Screen.emit]

theorem emit_forms (n : Nat) (state : FormState) (screen : Screen) :
    (screen.emit n state).forms = screen.forms := by
  have hnumber : ∀ f : Form, (f.emit n state).number = f.number := by
    intro f
    unfold Form.emit
    split
    · rfl
    · rfl
  cases screen with
  | login form =>
    show [(form.emit n state).number] = [form.number]
    rw [hnumber form]
  | register form below =>
    show [(form.emit n state).number, (below.emit n state).number] = [form.number, below.number]
    rw [hnumber form, hnumber below]
  | layout built => rfl

theorem emit_shown (n : Nat) (state : FormState) (s : Session σ) :
    (s.emit n state).Shown ↔ s.Shown := by
  obtain ⟨uId, preferences, screen, opened, leaving, inFlight⟩ := s
  cases screen with
  | login form => exact Iff.rfl
  | register form below => exact Iff.rfl
  | layout built => exact Iff.rfl

theorem emit_welcome (n m : Nat) (state : FormState) (uid : String) (s : Session σ) :
    (s.emit n state).Welcome m uid ↔ s.Welcome m uid := by
  have hmounted : (s.emit n state).Mounted m ↔ s.Mounted m := by
    show m ∈ (s.screen.emit n state).forms ∨ m ∈ s.leaving ↔ s.Mounted m
    rw [emit_forms]
    exact Iff.rfl
  unfold Welcome
  rw [hmounted, emit_layout, emit_layout]

/-- A user who comes in is shown exactly when they are welcome, whatever was shown
before. -/
theorem enter_shown (n : Nat) (uid : String) (isDone : Bool) (s : Session σ) :
    (s.enter store n uid isDone).1.Shown ↔ s.Welcome n uid := by
  unfold enter
  dsimp only
  by_cases hmounted : (s.setUser store uid).Mounted n
  · rw [if_pos hmounted, emit_shown]
    constructor
    · exact fun _ => Or.inl hmounted
    · intro _
      show some uid ≠ none
      simp
  · rw [if_neg hmounted, emit_shown]
    have hgone : ¬ s.Mounted n := hmounted
    unfold Welcome Shown
    show (match s.screen with
      | .login _ => some uid = none
      | .register _ _ => some uid = none
      | .layout none => some uid ≠ none
      | .layout (some built) => some uid ≠ none ∧ built = some uid) ↔ _
    cases s.screen with
    | login form => simp [hgone]
    | register form below => simp [hgone]
    | layout built =>
      cases built with
      | none => simp
      | some u => simp [hgone]

theorem signInThen_shown (n : Nat) (uid : Option String) (s : Session σ) (hs : s.Shown) :
    (s.signInThen store n uid).1.Shown ↔ ∀ u, uid = some u → s.Welcome n u := by
  cases uid with
  | none =>
    constructor
    · intro _ u h
      exact absurd h (by simp)
    · intro _
      exact (emit_shown n _ s).mpr hs
  | some u =>
    rw [signInThen, enter_shown]
    constructor
    · intro h v hv
      rw [← Option.some.inj hv]
      exact h
    · exact fun h => h u rfl

theorem creationThen_shown (n : Nat) (uid : String) (s : Session σ) :
    (s.creationThen store n uid).1.Shown ↔ s.Welcome n uid := by
  rw [creationThen, enter_shown, emit_welcome]

theorem login_shown (n : Nat) (email password : String) (s : Session σ) (hs : s.Shown) :
    (s.login n email password).1.Shown := by
  unfold login
  split
  · exact (emit_shown n .loading s).mpr hs
  · exact hs

theorem register_shown (n : Nat) (name email password phone : String) (s : Session σ)
    (hs : s.Shown) : (s.register n name email password phone).1.Shown := by
  unfold register
  split
  · exact (emit_shown n .loading s).mpr hs
  · exact hs

theorem openChatScreen_shown (receiverUid : Option String) (s : Session σ) (hs : s.Shown) :
    (s.openChatScreen store receiverUid).1.Shown := by
  unfold openChatScreen
  split
  · rfl
  · exact hs

theorem start_shown (preferences : σ) (opened : Nat) :
    (start store preferences opened).Shown := by
  unfold start checkWhichScreen Shown
  dsimp only
  by_cases huId : getInitialData store preferences = none
  · rw [huId, if_neg (by simp)]
  · rw [if_pos huId]
    exact huId

/-! ## Runs -/

theorem step_shown (hs : s.Shown) (h : step store s e = some (s', o)) : s'.Shown ↔ s.InTime e := by
  have hof : ∀ {r : Session σ × List Effect}, some r = some (s', o) → (r.1.Shown ↔ s.InTime e) →
      (s'.Shown ↔ s.InTime e) := by
    intro r hr hiff
    rw [Option.some.inj hr] at hiff
    exact hiff
  have hkept : ∀ {r : Session σ × List Effect}, some r = some (s', o) → r.1.Shown → s.InTime e →
      (s'.Shown ↔ s.InTime e) :=
    fun hr hshown htime => hof hr (iff_of_true hshown htime)
  have hno : ¬ (none : Option (Session σ × List Effect)) = some (s', o) := by simp
  cases e with
  | openRegister =>
    simp only [step] at h
    split at h
    · rename_i form hscreen
      rw [Shown, hscreen] at hs
      exact hkept h hs trivial
    · exact absurd h hno
  | back =>
    simp only [step] at h
    split at h
    · rename_i form below hscreen
      rw [Shown, hscreen] at hs
      exact hkept h hs trivial
    · exact absurd h hno
  | gone n =>
    simp only [step] at h
    split at h
    · exact hkept h hs trivial
    · exact absurd h hno
  | setVis =>
    simp only [step] at h
    split at h
    · rename_i form hscreen
      rw [Shown, hscreen] at hs
      exact hkept h hs trivial
    · rename_i form below hscreen
      rw [Shown, hscreen] at hs
      exact hkept h hs trivial
    · exact absurd h hno
  | login email password =>
    simp only [step] at h
    split at h
    · rename_i form hform
      split at h
      · exact hkept h (login_shown form.number email password s hs) trivial
      · exact absurd h hno
    · exact absurd h hno
  | onSubmitted email password =>
    simp only [step] at h
    split at h
    · rename_i form hform
      exact hkept h (login_shown form.number email password s hs) trivial
    · exact absurd h hno
  | register name email password phone =>
    simp only [step] at h
    split at h
    · rename_i form below hform
      split at h
      · exact hkept h (register_shown form.number name email password phone s hs) trivial
      · exact absurd h hno
    · exact absurd h hno
  | signedIn k uid =>
    simp only [step] at h
    split at h
    · rename_i n hk
      refine hof h ((signInThen_shown n uid (s.landed k) hs).trans ?_)
      cases uid with
      | none => exact iff_of_true (fun u hu => absurd hu (by simp)) trivial
      | some u =>
        constructor
        · intro hwelcome n' hn'
          have hn : n = n' := Pending.signIn.inj (Option.some.inj (hk.symm.trans hn'))
          exact hn ▸ hwelcome u rfl
        · intro htime v hv
          rw [← Option.some.inj hv]
          exact htime n hk
    · exact absurd h hno
  | signInFailed k =>
    simp only [step] at h
    split at h
    · rename_i n hk
      exact hkept h ((emit_shown n .error (s.landed k)).mpr hs) trivial
    · exact absurd h hno
  | created k uid =>
    simp only [step] at h
    split at h
    · rename_i n hk
      refine hof h ((creationThen_shown n uid (s.landed k)).trans ?_)
      constructor
      · intro hwelcome n' hn'
        have hn : n = n' := Pending.creation.inj (Option.some.inj (hk.symm.trans hn'))
        exact hn ▸ hwelcome
      · exact fun htime => htime n hk
    · exact absurd h hno
  | creationFailed k =>
    simp only [step] at h
    split at h
    · rename_i n hk
      exact hkept h ((emit_shown n .error (s.landed k)).mpr hs) trivial
    · exact absurd h hno
  | build =>
    simp only [step] at h
    split at h
    · rename_i hscreen
      rw [Shown, hscreen] at hs
      exact hkept h ⟨hs, rfl⟩ trivial
    · exact absurd h hno
    · exact absurd h hno
    · exact absurd h hno
  | logout =>
    simp only [step] at h
    split at h
    · exact hkept h rfl trivial
    · exact absurd h hno
  | tap receiverUid => exact hkept h (openChatScreen_shown receiverUid s hs) trivial
  | restart preferences => exact hkept h (start_shown preferences s.opened) trivial

/-- Exactly the users who come in too late make the screen fall behind the session: in
every state that a run reaches a form is shown to nobody and the home layout to the user
of its data, if and only if every user who comes in is welcome. -/
theorem shown_iff_in_time (store : SharedPreferences σ) (preferences : σ)
    (es : List (Event σ)) :
    (∀ es₁ (s : Session σ) o, es₁ <+: es →
        (machine store).run (init store preferences) es₁ = some (s, o) → s.Shown) ↔
      (machine store).Every (fun s e _ _ => s.InTime e) (init store preferences) es := by
  refine Reactive.Machine.reached_iff (J := fun _ => True) (I := fun s _ => Shown s) (a := [])
    (H := fun _ _ _ _ => True) (fun _ _ _ _ _ _ _ => trivial)
    (fun s e s' o a _ hs h _ => step_shown hs h) trivial (start_shown _ _) ?_
  exact Reactive.Machine.every_of_forall (G := fun _ => True) (fun _ _ _ _ _ => trivial)
    (fun _ _ => trivial) _

/-- The keyboard sends the form twice, and the second answer finds the home layout of the
first user. -/
example : ∃ s o, (machine .ofJson).run (init .ofJson fun _ => none)
    [.onSubmitted "ann@mail" "pass", .onSubmitted "bob@mail" "pass", .signedIn 0 (some "ann"),
      .build, .gone 0, .signedIn 0 (some "bob")] = some (s, o) ∧
    s.uId = some "bob" ∧ s.screen = .layout (some (some "ann")) :=
  ⟨_, _, rfl, rfl, rfl⟩

end Session
end SocialApp
