import SocialApp.NewPost.Cubit

/-! # Steps of NewPostCubit -/

namespace SocialApp
namespace NewPost

/-- Nothing of a tap, a URL or a document. -/
def Effect.quiet : Effect → Bool
  | .emit _ => true
  | .toast _ _ => true
  | .setBottomNavItemIndex _ => true
  | .settled _ _ => true
  | _ => false

/-- What a step can do. -/
inductive Did (s s' : NewPost) (o : List Effect) : Prop
  | other (inFlight : ∀ p ∈ s'.inFlight, p ∈ s.inFlight) (taps : s'.taps = s.taps)
      (effects : ∀ x ∈ o, x.quiet = true)
      (settled : ∀ w ok, Effect.settled w ok ∈ o → Pending.write w ok ∈ s.inFlight)
  | text {w : Write} (tap : w.tap = s.taps)
      (image : w.post.postImage = some (s.postImage.getD ""))
      (inFlight : s'.inFlight = s.inFlight ++ [.write w false]) (taps : s'.taps = s.taps + 1)
      (effects : o = [.tap s.taps none s.postImage, .emit .createPostLoading, .issue w])
  | upload {file : String} {captured : Captured} (tap : captured.tap = s.taps)
      (inFlight : s'.inFlight = s.inFlight ++ [.putFile file captured])
      (taps : s'.taps = s.taps + 1)
      (effects : o = [.tap s.taps (some file) s.postImage, .emit .uploadingPostImageLoading])
  | uploaded {k : Nat} {file : String} {captured : Captured}
      (request : s.inFlight[k]? = some (.putFile file captured))
      (inFlight : s'.inFlight = s.inFlight.eraseIdx k ++ [.getDownloadURL file captured])
      (taps : s'.taps = s.taps) (effects : o = [])
  | url {k : Nat} {file : String} {captured : Captured} {url : String} {w : Write}
      (request : s.inFlight[k]? = some (.getDownloadURL file captured))
      (tap : w.tap = captured.tap) (image : w.post.postImage = some url)
      (inFlight : s'.inFlight = s.inFlight.eraseIdx k ++ [.write w false])
      (taps : s'.taps = s.taps)
      (effects : o = [.url captured.tap file url, .emit .createPostLoading, .issue w,
        .emit .uploadingPostImageSuccess])
  | applied {k : Nat} {w : Write} (request : s.inFlight[k]? = some (.write w false))
      (inFlight : s'.inFlight = s.inFlight.set k (.write w true)) (taps : s'.taps = s.taps)
      (effects : o = [.applied w])

theorem post_did {s s' : NewPost} {model : Option LoginModel} {uId : Option String}
    {now : Time.DateTime} {o : List Effect} (h : s.post model uId now = (s', o)) :
    Did s s' o := by
  cases model with
  | none =>
    obtain ⟨rfl, rfl⟩ := Prod.mk.inj h
    exact .other (fun _ hp => hp) rfl (by simp) (by simp)
  | some m =>
    simp only [post] at h
    by_cases htext : s.postText = ""
    · rw [if_pos htext] at h
      obtain ⟨rfl, rfl⟩ := Prod.mk.inj h
      exact .other (fun _ hp => hp) rfl (by simp) (by simp)
    · rw [if_neg htext] at h
      unfold checkPost at h
      cases hfile : s.filePostImage with
      | none =>
        rw [hfile] at h
        obtain ⟨rfl, rfl⟩ := Prod.mk.inj h
        exact .text rfl rfl rfl rfl rfl
      | some file =>
        rw [hfile] at h
        obtain ⟨rfl, rfl⟩ := Prod.mk.inj h
        exact .upload rfl rfl rfl rfl

theorem failed_did (s : NewPost) (k : Nat) : Did s (s.landed k) NewPost.failed :=
  .other (fun _ hp => List.mem_of_mem_eraseIdx hp) rfl (by simp [NewPost.failed, Effect.quiet])
    (by simp [NewPost.failed])

theorem writeThen_did (ok mounted : Bool) (s : NewPost) :
    (s.writeThen ok mounted).1.inFlight = s.inFlight ∧ (s.writeThen ok mounted).1.taps = s.taps ∧
      (∀ x ∈ (s.writeThen ok mounted).2, x.quiet = true) ∧
      ∀ w ok', Effect.settled w ok' ∉ (s.writeThen ok mounted).2 := by
  cases ok with
  | false => exact ⟨rfl, rfl, by simp [writeThen, Effect.quiet], by simp [writeThen]⟩
  | true =>
    cases mounted with
    | false => exact ⟨rfl, rfl, by simp [writeThen, Effect.quiet], by simp [writeThen]⟩
    | true => exact ⟨rfl, rfl, by simp [writeThen, Effect.quiet], by simp [writeThen]⟩

theorem step_did {s s' : NewPost} {e : Event} {o : List Effect} (h : s.step e = some (s', o)) :
    Did s s' o := by
  cases e with
  | pickPostImage path =>
    cases path with
    | none =>
      obtain ⟨rfl, rfl⟩ := Prod.mk.inj (Option.some.inj h)
      exact .other (fun _ hp => hp) rfl (by simp) (by simp)
    | some path =>
      obtain ⟨rfl, rfl⟩ := Prod.mk.inj (Option.some.inj h)
      exact .other (fun _ hp => hp) rfl (by simp [Effect.quiet]) (by simp)
  | cancelPickPostImage =>
    obtain ⟨rfl, rfl⟩ := Prod.mk.inj (Option.some.inj h)
    exact .other (fun _ hp => hp) rfl (by simp [Effect.quiet]) (by simp)
  | edit text =>
    obtain ⟨rfl, rfl⟩ := Prod.mk.inj (Option.some.inj h)
    exact .other (fun _ hp => hp) rfl (by simp) (by simp)
  | post model uId now => exact post_did (Option.some.inj h)
  | uploaded k =>
    simp only [step] at h
    split at h
    · rename_i file captured hk
      obtain ⟨rfl, rfl⟩ := Prod.mk.inj (Option.some.inj h)
      exact .uploaded hk rfl rfl rfl
    · exact absurd h (by simp)
  | url k url uId now =>
    simp only [step] at h
    split at h
    · rename_i file captured hk
      obtain ⟨rfl, rfl⟩ := Prod.mk.inj (Option.some.inj h)
      exact .url hk rfl rfl rfl rfl rfl
    · exact absurd h (by simp)
  | failed k =>
    simp only [step] at h
    split at h
    · obtain ⟨rfl, rfl⟩ := Prod.mk.inj (Option.some.inj h)
      exact failed_did s k
    · obtain ⟨rfl, rfl⟩ := Prod.mk.inj (Option.some.inj h)
      exact failed_did s k
    · exact absurd h (by simp)
  | applied k =>
    simp only [step] at h
    split at h
    · rename_i w hk
      obtain ⟨rfl, rfl⟩ := Prod.mk.inj (Option.some.inj h)
      exact .applied hk rfl rfl rfl
    · exact absurd h (by simp)
  | settled k ok mounted =>
    simp only [step] at h
    split at h
    · rename_i w applied hk
      split at h
      · rename_i hok
        obtain ⟨rfl, rfl⟩ := Prod.mk.inj (Option.some.inj h)
        obtain ⟨hinFlight, htaps, hquiet, hsettled⟩ := writeThen_did ok mounted (s.landed k)
        refine .other (fun p hp => ?_) htaps (fun x hx => ?_) fun w' ok' hw => ?_
        · rw [hinFlight] at hp
          exact List.mem_of_mem_eraseIdx hp
        · rcases List.mem_cons.mp hx with rfl | hx
          · rfl
          · exact hquiet x hx
        · rcases List.mem_cons.mp hw with hw | hw
          · obtain ⟨rfl, rfl⟩ := Effect.settled.inj hw
            rw [hok]
            exact List.mem_of_getElem? hk
          · exact absurd hw (hsettled w' ok')
      · exact absurd h (by simp)
    · exact absurd h (by simp)

end NewPost
end SocialApp
