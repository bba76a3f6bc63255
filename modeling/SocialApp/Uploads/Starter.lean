import SocialApp.Uploads.Flows

/-! # Who an upload writes for

The last stage of an upload reads the global `uId`, and whoever is logged in at
that moment is the one it writes for. -/

namespace SocialApp
namespace Uploads

/-- The write is for the user `starter`: his document, his post, or his message,
sent by him and in his own mailbox of the chat. -/
def Write.under (starter : String) : Write → Prop
  | .saveUser uid _ => uid = starter
  | .updateUser uid _ _ => uid = some starter
  | .setPost _ post => post.uid = some starter
  | .addMessage owner peer sent message =>
    message.senderUid = some starter ∧ (if sent then owner else peer) = some starter

/-- What an upload writes in the end is for the user who started it. -/
def UnderStarter (s : Uploads) (e : Event) (_ : Uploads) (o : List Effect) : Prop :=
  ∀ (k : Nat) url now flow starter, e = .url k url now →
    s.inFlight[k]? = some (.getDownloadURL flow starter) →
    ∀ w, .issue w ∈ o → w.under starter

/-- The flows that build their write from the model. -/
def Flow.readsModel : Flow → Bool
  | .cover _ _ _ => true
  | .profile _ _ _ => true
  | _ => false

/-- When the URL of an upload arrives, the user who started it is logged in, unless
the write fails for want of a model. -/
def StarterIn (s : Uploads) (e : Event) : Prop :=
  match e with
  | .url k _ _ => ∀ flow starter, s.inFlight[k]? = some (.getDownloadURL flow starter) →
      (flow.readsModel = true → s.model ≠ none) → s.uId = some starter
  | _ => True

/-- All that is issued is for the user `starter`. -/
def AllUnder (starter : String) (o : List Effect) : Prop := ∀ w, .issue w ∈ o → w.under starter

theorem updateUser_under_iff {s : Uploads} {update : Update} {name phone bio starter : String} :
    AllUnder starter (s.updateUser update name phone bio).2 ↔
      (s.model ≠ none → s.uId = some starter) := by
  unfold updateUser
  cases hm : s.model with
  | none =>
    constructor
    · intro _ h
      exact absurd rfl h
    · intro _ w hw
      exact absurd hw (by simp)
  | some m =>
    constructor
    · intro h _
      exact h (.updateUser s.uId update (updatedUser update name phone bio m))
        List.mem_cons_self
    · intro h w hw
      simp only [issue, List.mem_singleton, Effect.issue.injEq] at hw
      rw [hw]
      exact h (by simp)

theorem createPost_under_iff {s : Uploads} {text image now starter : String}
    {postUserImage postUserName : Option String} :
    AllUnder starter (s.createPost text image now postUserImage postUserName).2 ↔
      s.uId = some starter := by
  constructor
  · intro h
    exact h _ (List.mem_cons_of_mem _ List.mem_cons_self)
  · intro h w hw
    simp only [createPost, issue, List.mem_cons, List.not_mem_nil, or_false, reduceCtorEq,
      false_or, Effect.issue.injEq] at hw
    rw [hw]
    exact h

theorem sendImageToChat_under_iff {s : Uploads} {image now starter : String}
    {receiverId : Option String} :
    AllUnder starter (s.sendImageToChat image now receiverId).2 ↔ s.uId = some starter := by
  constructor
  · intro h
    exact (h _ (List.mem_cons_of_mem _ List.mem_cons_self)).1
  · intro h w hw
    simp only [sendImageToChat, issue, List.mem_cons, List.mem_append, List.not_mem_nil,
      or_false, reduceCtorEq, false_or, Effect.issue.injEq] at hw
    rcases hw with rfl | rfl
    · exact ⟨h, h⟩
    · exact ⟨h, h⟩

/-- Each flow writes for the user who is logged in when the URL arrives. -/
theorem urlThen_under_iff {s : Uploads} {flow : Flow} {url now starter : String} :
    AllUnder starter (s.urlThen flow url now).2 ↔
      ((flow.readsModel = true → s.model ≠ none) → s.uId = some starter) := by
  cases flow with
  | cover name phone bio =>
    rw [urlThen, updateUser_under_iff]
    exact ⟨fun h hm => h (hm rfl), fun h hm => h fun _ => hm⟩
  | profile name phone bio =>
    rw [urlThen, updateUser_under_iff]
    exact ⟨fun h hm => h (hm rfl), fun h hm => h fun _ => hm⟩
  | post text postUserImage postUserName =>
    have hiff := @createPost_under_iff s text url now starter postUserImage postUserName
    have hsame : AllUnder starter (s.urlThen (.post text postUserImage postUserName) url now).2 ↔
        AllUnder starter (s.createPost text url now postUserImage postUserName).2 := by
      simp only [AllUnder, urlThen, List.mem_append, List.mem_singleton, reduceCtorEq, or_false]
    rw [hsame, hiff]
    exact ⟨fun h _ => h, fun h => h (by simp [Flow.readsModel])⟩
  | message receiverId =>
    rw [urlThen, sendImageToChat_under_iff]
    exact ⟨fun h _ => h, fun h => h (by simp [Flow.readsModel])⟩

theorem step_url {s s' : Uploads} {k : Nat} {url now : String} {o : List Effect}
    (h : s.step (.url k url now) = some (s', o)) :
    ∃ flow starter, s.inFlight[k]? = some (.getDownloadURL flow starter) ∧
      (s.landed k).urlThen flow url now = (s', o) := by
  simp only [step] at h
  split at h
  · rename_i flow starter hk
    exact ⟨flow, starter, hk, Option.some.inj h⟩
  · exact absurd h (by simp)

theorem step_underStarter_iff {s s' : Uploads} {e : Event} {o : List Effect}
    (h : s.step e = some (s', o)) : UnderStarter s e s' o ↔ StarterIn s e := by
  cases e with
  | url k url now =>
    obtain ⟨flow, starter, hk, hthen⟩ := step_url h
    have hiff := @urlThen_under_iff (s.landed k) flow url now starter
    rw [hthen] at hiff
    constructor
    · intro hunder flow' starter' hk'
      rw [hk, Option.some.injEq, Pending.getDownloadURL.injEq] at hk'
      rw [← hk'.1, ← hk'.2]
      exact hiff.mp fun w hw => hunder k url now flow starter rfl hk w hw
    · intro hin k' url' now' flow' starter' he hk' w hw
      obtain ⟨rfl, -, -⟩ := Event.url.inj he
      have hw' := hiff.mpr (hin flow starter hk) w hw
      rw [hk, Option.some.injEq, Pending.getDownloadURL.injEq] at hk'
      rwa [← hk'.2]
  | _ => exact ⟨fun _ => trivial, fun _ _ _ _ _ _ he => absurd he (by simp)⟩

/-- Along a run of logins, logouts, registrations and uploads, every write that an
upload issues is for the user who started it exactly when this user is logged in
at the arrival of each URL from which a write is issued. -/
theorem uploads_under_starter_iff (u : Option String) (users : String → Option Json)
    (es : List Event) :
    machine.Every UnderStarter (init u users) es ↔
      machine.Every (fun s e _ _ => StarterIn s e) (init u users) es :=
  Reactive.Machine.every_iff (I := fun _ => True)
    (fun _ _ _ _ _ h => ⟨step_underStarter_iff h, fun _ => trivial⟩) trivial

/-- bob logs in before the URL of ann's image is there, and her post is his. -/
theorem post_of_other_user :
    ¬ machine.Every UnderStarter (init none fun _ => none)
      ([.login "ann", .upload (.post "hello" (some "user.jpg") (some "ann")), .uploaded 1,
        .logout, .login "bob"] ++ [.url 1 "image.jpg" "2022-01-01"]) := by
  intro h
  have hlast := (Reactive.Machine.every_append (M := machine) rfl h _ _ rfl).1
  have hbob : some "bob" = some "ann" := hlast 1 _ _ _ "ann" rfl rfl (.setPost "2022-01-01" _)
    (List.mem_cons_of_mem _ List.mem_cons_self)
  exact absurd hbob (by decide)

end Uploads
end SocialApp
