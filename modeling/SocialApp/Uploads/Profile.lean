import SocialApp.Home.Rows
import SocialApp.Reactive.History
import SocialApp.Uploads.Document

/-! # The images of a profile

Every update of a profile writes the whole document.  It takes what it does not
change from a copy that SocialHomeCubit has read some time before, so it reverts an
image whose upload has been issued in between. -/

namespace SocialApp
namespace Uploads

/-- The two images of a profile. -/
inductive Image
  | cover
  | profile

namespace Image

/-- The URL that an update has uploaded for the image. -/
def url : Image → Update → Option String
  | .cover, .cover url => some url
  | .profile, .profile url => some url
  | _, _ => none

def ofUser : Image → LoginModel → Option String
  | .cover, m => m.cover
  | .profile, m => m.image

/-- The field of the document. -/
def key : Image → String
  | .cover => "cover"
  | .profile => "image"

theorem ofUser_updatedUser (image : Image) (update : Update) (name phone bio : String)
    (m : LoginModel) :
    image.ofUser (updatedUser update name phone bio m) =
      (image.url update).or (image.ofUser m) := by
  cases image <;> cases update <;> rfl

theorem string_key {image : Image} {doc : Json} {m : LoginModel}
    (h : LoginModel.fromJson (some doc) = some m) : doc.string image.key = image.ofUser m := by
  rw [← Option.some.inj h]
  cases image <;> rfl

theorem string_update (image : Image) (user : LoginModel) (doc : Json) :
    (user.update doc).string image.key = image.ofUser user :=
  string_key (user.fromJson_update doc)

end Image

/-- The URL for an image that has been uploaded by an update, when it is carried out. -/
def appliedUrl (image : Image) : Effect → Option String
  | .applied (.updateUser _ update _) => image.url update
  | _ => none

/-- The URL of the upload whose update was carried out last. -/
def lastUrl (image : Image) (o : List Effect) : Option String :=
  (o.filterMap (appliedUrl image)).getLast?

/-- The document of `u` has the image and the cover whose updates were carried out
last, and until then those of the document `doc₀` it had. -/
def UrlsKept (u : String) (doc₀ : Json) (s : Uploads) (o : List Effect) : Prop :=
  ∃ doc, s.users u = some doc ∧
    ∀ image : Image, doc.string image.key = (lastUrl image o).or (doc₀.string image.key)

/-- Firestore carries out the updates of a user in the order in which they were issued and
answers them in that order, and none fails. -/
def InOrder (s : Uploads) : Event → Prop
  | .applied k => (s.inFlight[k]?.bind Pending.update).isSome →
      ∀ x ∈ (s.inFlight.take k).filterMap Pending.update, x.2 = true
  | .settled k ok => (s.inFlight[k]?.bind Pending.update).isSome →
      ok = true ∧ (s.inFlight.take k).filterMap Pending.update = []
  | _ => True

/-! ## Copies of the document -/

/-- How many uploads of an image have issued their update, and how many had when the copy
in the model was read and when each callback in flight was issued or answered. -/
structure Copies where
  uploads : Nat
  model : Nat
  waiting : List (Nat × Pending)

/-- An update with a new URL is issued. -/
def issuesUrl (image : Image) : Effect → Bool
  | .issue (.updateUser _ update _) => (image.url update).isSome
  | _ => false

namespace Copies

def start : Copies := { uploads := 0, model := 0, waiting := [] }

/-- The `k`-th callback has changed. -/
def renew (h : Copies) (k : Nat) (inFlight : List Pending) : List (Nat × Pending) :=
  match inFlight[k]? with
  | some x => h.waiting.set k (h.uploads, x)
  | none => h.waiting

/-- The copy in the model after an event. -/
def read (h : Copies) : Event → Nat
  | .userData k =>
    match h.waiting[k]? with
    | some (n, .userData data) => if (LoginModel.fromJson data).isSome then n else h.model
    | _ => h.model
  | _ => h.model

def note (image : Image) (h : Copies) (_ : Uploads) (e : Event) (s : Uploads)
    (o : List Effect) : Copies :=
  { uploads := h.uploads + o.countP (issuesUrl image)
    model := h.read e
    waiting := match e with
      | .applied k => h.renew k s.inFlight
      | .served k => h.renew k s.inFlight
      | e => Reactive.stamp h.uploads (e.leave h.waiting) s.inFlight }

end Copies

/-- The uploads with a record of the copies of an image. -/
def copying (image : Image) : Reactive.Machine (Uploads × Copies) Event Effect :=
  machine.withHistory (Copies.note image)

/-- An update that has not uploaded the image itself is issued only while no upload of it
has been issued since the copy in the model was read. -/
def UpToDate (image : Image) (p : Uploads × Copies) (e : Event) : Prop :=
  ∀ update, e.issues p.1 = some update → image.url update = none → p.1.model ≠ none →
    p.2.model = p.2.uploads

/-! ## Updates in a row -/

/-- The image of a document after some updates. -/
def Image.after (image : Image) (old : Option String) (xs : List (Update × LoginModel)) :
    Option String :=
  xs.foldl (fun _ x => image.ofUser x.2) old

/-- Each update brings the URL it has uploaded, or keeps the image. -/
def Image.Kept (image : Image) (old : Option String) : List (Update × LoginModel) → Prop
  | [] => True
  | x :: xs => image.ofUser x.2 = (image.url x.1).or old ∧ image.Kept (image.ofUser x.2) xs

variable {image : Image}

theorem Image.after_append (old : Option String) (xs ys : List (Update × LoginModel)) :
    image.after old (xs ++ ys) = image.after (image.after old xs) ys :=
  List.foldl_append

theorem Image.kept_concat {old : Option String} {xs : List (Update × LoginModel)}
    {x : Update × LoginModel} : image.Kept old (xs ++ [x]) ↔
      image.Kept old xs ∧ image.ofUser x.2 = (image.url x.1).or (image.after old xs) := by
  induction xs generalizing old with
  | nil => exact ⟨fun h => ⟨trivial, h.1⟩, fun h => ⟨h.2, trivial⟩⟩
  | cons y ys ih =>
    rw [List.cons_append, Image.Kept, Image.Kept, ih, and_assoc]
    rfl

/-- What the client sees of the document: what the server has, and all updates in flight. -/
theorem localView_string {u : String} {s : Uploads} {doc : Json} (hs : OneUser u s)
    (hdoc : s.users u = some doc) : ∃ d, s.localView u = some d ∧
      d.string image.key = image.after (doc.string image.key) (s.updates.map Prod.fst) := by
  have hfold : ∀ (ps : List Pending) (users : String → Option Json) (doc : Json),
      (∀ p ∈ ps, p.own u) → users u = some doc →
      ∃ d, ps.foldl overlay users u = some d ∧ d.string image.key =
        image.after (doc.string image.key) ((ps.filterMap Pending.update).map Prod.fst) := by
    intro ps
    induction ps with
    | nil => exact fun users doc _ hdoc => ⟨doc, hdoc, rfl⟩
    | cons p ps ih =>
      intro users doc hown hdoc
      have hrest := fun users doc hdoc =>
        ih users doc (fun q hq => hown q (List.mem_cons_of_mem _ hq)) hdoc
      cases p with
      | write w applied =>
        have hw : w.own u := hown _ List.mem_cons_self
        cases hserve : serve w users with
        | none =>
          cases w with
          | updateUser uid update user =>
            have huid : uid = some u := hw
            rw [huid, serve, hdoc] at hserve
            exact absurd hserve (by simp)
          | saveUser uid user => exact absurd hserve (by simp [serve])
          | setPost id post => exact absurd hserve (by simp [serve])
          | addMessage owner peer sent message => exact absurd hserve (by simp [serve])
        | some users' =>
          rw [List.foldl_cons, overlay, hserve, Option.getD_some]
          rcases serve_own hw hserve with ⟨rfl, hplain⟩ | ⟨update, user, doc', rfl, hdoc', rfl⟩
          · rw [List.filterMap_cons_none (hplain applied)]
            exact hrest users' doc hdoc
          · have hhead : (Pending.write (.updateUser (some u) update user) applied ::
                ps).filterMap Pending.update =
                ((update, user), applied) :: ps.filterMap Pending.update :=
              List.filterMap_cons_some rfl
            rw [hhead, List.map_cons]
            obtain ⟨d, hd, hstring⟩ :=
              hrest _ (user.update doc') (Function.update_self _ _ _)
            exact ⟨d, hd, by rw [hstring, image.string_update]; rfl⟩
      | _ => exact hrest users doc hdoc
  exact hfold s.inFlight s.users doc hs.inFlight hdoc

/-! ## The account of an image -/

/-- A copy that was read when `n` uploads had been issued shows the image as it is after
all updates in flight, unless more have been issued since. -/
def AsOf (latest : Option String) (uploads n : Nat) (shown : Option String) : Prop :=
  n ≤ uploads ∧ (n = uploads → shown = latest)

/-- The document, the updates in flight that it contains already and those that it does
not, and the copies. -/
structure Account (image : Image) (u : String) (doc : Json)
    (done queued : List (Update × LoginModel)) (p : Uploads × Copies) : Prop where
  users : p.1.users u = some doc
  updates : p.1.updates = done.map (·, true) ++ queued.map (·, false)
  carried : image.after (doc.string image.key) done = doc.string image.key
  kept : image.Kept (doc.string image.key) queued
  waiting : p.2.waiting.map Prod.snd = p.1.inFlight
  model : ∀ m, p.1.model = some m →
    AsOf (image.after (doc.string image.key) queued) p.2.uploads p.2.model (image.ofUser m)
  answers : ∀ n data m, (n, .userData data) ∈ p.2.waiting → LoginModel.fromJson data = some m →
    AsOf (image.after (doc.string image.key) queued) p.2.uploads n (image.ofUser m)

variable {u : String} {doc : Json} {done queued : List (Update × LoginModel)}
  {p p' : Uploads × Copies} {e : Event} {o : List Effect}

theorem Quiet.countP (ho : Quiet o) : o.countP (issuesUrl image) = 0 := by
  refine List.countP_eq_zero.mpr fun x hx => ?_
  have hquiet := ho x hx
  cases x with
  | issue w =>
    cases w with
    | updateUser uid update user => exact absurd hquiet (by simp [Effect.update])
    | _ => simp [issuesUrl]
  | _ => simp [issuesUrl]

theorem Quiet.lastUrl (ho : Quiet o) (a : List Effect) :
    Uploads.lastUrl image (a ++ o) = Uploads.lastUrl image a := by
  have hnone : o.filterMap (appliedUrl image) = [] := by
    refine List.filterMap_eq_nil_iff.mpr fun x hx => ?_
    have hquiet := ho x hx
    cases x with
    | applied w =>
      cases w with
      | updateUser uid update user => exact absurd hquiet (by simp [Effect.update])
      | _ => rfl
    | _ => rfl
  rw [Uploads.lastUrl, List.filterMap_append, hnone, List.append_nil]
  rfl

theorem read_of_ne {h : Copies} (he : ∀ k, e ≠ .userData k) : h.read e = h.model := by
  cases e with
  | userData k => exact absurd rfl (he k)
  | _ => rfl

/-- The callbacks in flight with their stamps, after a step that starts new ones. -/
theorem Account.stamped (hp : Account image u doc done queued p) {new : List Pending}
    (he : ∀ k, e ≠ .applied k ∧ e ≠ .served k)
    (inFlight : p'.1.inFlight = e.leave p.1.inFlight ++ new)
    (hnote : p'.2 = p.2.note image p.1 e p'.1 o) :
    p'.2.waiting.map Prod.snd = p'.1.inFlight ∧
      ∀ x ∈ p'.2.waiting, x ∈ p.2.waiting ∨ x.2 ∈ new := by
  have hwaiting : p'.2.waiting = e.leave p.2.waiting ++ new.map (Prod.mk p.2.uploads) := by
    have hstamp : p'.2.waiting =
        Reactive.stamp p.2.uploads (e.leave p.2.waiting) p'.1.inFlight := by
      rw [hnote]
      cases e with
      | applied k => exact absurd rfl (he k).1
      | served k => exact absurd rfl (he k).2
      | _ => rfl
    rw [hstamp, inFlight, ← hp.waiting, ← leave_map, Reactive.stamp_append]
  constructor
  · rw [hwaiting, inFlight, List.map_append, leave_map, hp.waiting, List.map_map]
    exact congrArg (e.leave p.1.inFlight ++ ·) (List.map_id new)
  · intro x hx
    rw [hwaiting] at hx
    rcases List.mem_append.mp hx with hx | hx
    · exact .inl (mem_of_mem_leave hx)
    · obtain ⟨q, hq, rfl⟩ := List.mem_map.mp hx
      exact .inr hq

/-- The callbacks in flight with their stamps, after a step that changes one. -/
theorem Account.renewed (hp : Account image u doc done queued p) {k : Nat} {x y : Pending}
    (hk : p.1.inFlight[k]? = some y) (inFlight : p'.1.inFlight = p.1.inFlight.set k x)
    (waiting : p'.2.waiting = p.2.renew k p'.1.inFlight) :
    p'.2.waiting.map Prod.snd = p'.1.inFlight ∧
      ∀ z ∈ p'.2.waiting, z ∈ p.2.waiting ∨ z = (p.2.uploads, x) := by
  obtain ⟨hlt, -⟩ := List.getElem?_eq_some_iff.mp hk
  have hset : p'.2.waiting = p.2.waiting.set k (p.2.uploads, x) := by
    rw [waiting, Copies.renew, inFlight, List.getElem?_set_self hlt]
  rw [hset, inFlight, List.map_set, hp.waiting]
  exact ⟨rfl, fun z hz => List.mem_or_eq_of_mem_set hz⟩

/-- The step has to do with no update of the document. -/
theorem Account.beside (hp : Account image u doc done queued p)
    (users : p'.1.users u = some doc) (updates : p'.1.updates = p.1.updates)
    (model : p'.1.model = p.1.model) (copy : p'.2.model = p.2.model)
    (uploads : p'.2.uploads = p.2.uploads) (waiting : p'.2.waiting.map Prod.snd = p'.1.inFlight)
    (answers : ∀ n data, (n, .userData data) ∈ p'.2.waiting →
      (n, .userData data) ∈ p.2.waiting) : Account image u doc done queued p' where
  users := users
  updates := updates.trans hp.updates
  carried := hp.carried
  kept := hp.kept
  waiting := waiting
  model m hm := by
    rw [uploads, copy]
    exact hp.model m (model ▸ hm)
  answers n data m hn hm := by
    rw [uploads]
    exact hp.answers n data m (answers n data hn) hm

/-- An update is issued. -/
theorem Account.issued (hp : Account image u doc done queued p) {update : Update}
    {user : LoginModel} (users : p'.1.users u = some doc)
    (updates : p'.1.updates = p.1.updates ++ [((update, user), false)])
    (model : p'.1.model = p.1.model) (copy : p'.2.model = p.2.model)
    (uploads : p'.2.uploads = p.2.uploads + if (image.url update).isSome then 1 else 0)
    (waiting : p'.2.waiting.map Prod.snd = p'.1.inFlight)
    (answers : ∀ n data, (n, .userData data) ∈ p'.2.waiting → (n, .userData data) ∈ p.2.waiting)
    (kept : image.ofUser user =
      (image.url update).or (image.after (doc.string image.key) queued)) :
    Account image u doc done (queued ++ [(update, user)]) p' := by
  have hasOf : ∀ {n : Nat} {shown : Option String},
      AsOf (image.after (doc.string image.key) queued) p.2.uploads n shown →
      AsOf (image.after (doc.string image.key) (queued ++ [(update, user)])) p'.2.uploads n
        shown := by
    intro n shown ⟨hle, hshown⟩
    rw [AsOf, uploads, Image.after_append]
    have hlatest : image.after (image.after (doc.string image.key) queued) [(update, user)] =
        image.ofUser user := rfl
    rw [hlatest, kept]
    cases hurl : image.url update with
    | none => exact ⟨hle, fun hn => hshown hn⟩
    | some url => exact ⟨Nat.le_succ_of_le hle, fun hn => absurd hn (by simp; omega)⟩
  refine { users, waiting, carried := hp.carried, updates := ?_, kept := ?_
           model := fun m hm => ?_, answers := fun n data m hn hm => ?_ }
  · rw [updates, hp.updates, List.map_append, List.append_assoc]
    rfl
  · exact Image.kept_concat.mpr ⟨hp.kept, kept⟩
  · rw [copy]
    exact hasOf (hp.model m (model ▸ hm))
  · exact hasOf (hp.answers n data m (answers n data hn) hm)

/-- The first update that is not carried out, in a list where those before it are. -/
theorem split_applied {α : Type} {a b : List (α × Bool)} {x : α} {done queued : List α}
    (ha : ∀ y ∈ a, y.2 = true)
    (h : a ++ (x, false) :: b = done.map (·, true) ++ queued.map (·, false)) :
    a = done.map (·, true) ∧ ∃ rest, queued = x :: rest ∧ b = rest.map (·, false) := by
  induction a generalizing done with
  | nil =>
    cases done with
    | nil =>
      cases queued with
      | nil => exact absurd h (by simp)
      | cons y rest =>
        obtain ⟨hhead, hrest⟩ := List.cons.inj h
        exact ⟨rfl, rest, by rw [(Prod.mk.inj hhead).1], hrest⟩
    | cons y done => exact absurd (congrArg Prod.snd (List.cons.inj h).1) (by simp)
  | cons z a ih =>
    have hz : z.2 = true := ha z List.mem_cons_self
    cases done with
    | nil =>
      cases queued with
      | nil => exact absurd h (by simp)
      | cons y rest =>
        rw [(List.cons.inj h).1] at hz
        exact absurd hz (by simp)
    | cons y done =>
      obtain ⟨hhead, hrest⟩ := List.cons.inj h
      obtain ⟨heq, hqueued⟩ := ih (fun w hw => ha w (List.mem_cons_of_mem _ hw)) hrest
      exact ⟨by rw [hhead, heq]; rfl, hqueued⟩

/-- The first update in a list, when it has been carried out. -/
theorem split_settled {α : Type} {b : List (α × Bool)} {x : α} {done queued : List α}
    (h : (x, true) :: b = done.map (·, true) ++ queued.map (·, false)) :
    ∃ rest, done = x :: rest ∧ b = rest.map (·, true) ++ queued.map (·, false) := by
  cases done with
  | nil =>
    cases queued with
    | nil => exact absurd h (by simp)
    | cons y rest => exact absurd (congrArg Prod.snd (List.cons.inj h).1) (by simp)
  | cons y done =>
    obtain ⟨hhead, hrest⟩ := List.cons.inj h
    exact ⟨done, by rw [(Prod.mk.inj hhead).1], hrest⟩

/-- After one more update the image is that of the last upload when the update has
uploaded it, or has kept what was there. -/
theorem lastUrl_update {a : List Effect} {uid : Option String} {update : Update}
    {user : LoginModel} {old x₀ : Option String} (hold : old = (lastUrl image a).or x₀)
    (hkept : image.ofUser user = (image.url update).or old) :
    image.ofUser user =
      (lastUrl image (a ++ [.applied (.updateUser uid update user)])).or x₀ := by
  unfold lastUrl at hold ⊢
  rw [List.filterMap_append, hkept]
  cases hu : image.url update with
  | none =>
    have hnil : [Effect.applied (.updateUser uid update user)].filterMap (appliedUrl image) =
        [] := List.filterMap_cons_none hu
    rw [hnil, List.append_nil, ← hold]
    rfl
  | some url =>
    have hone : [Effect.applied (.updateUser uid update user)].filterMap (appliedUrl image) =
        [url] := List.filterMap_cons_some hu
    rw [hone, List.getLast?_concat]
    rfl

/-- The image of the document is that of the upload whose update was carried out last, and
the account says what the updates in flight will make of it. -/
def Accounted (image : Image) (u : String) (x₀ : Option String) (p : Uploads × Copies)
    (a : List Effect) : Prop :=
  ∃ doc done queued, Account image u doc done queued p ∧
    doc.string image.key = (lastUrl image a).or x₀

theorem step_accounted {x₀ : Option String} {a : List Effect} (hone : OneUser u p.1)
    (hp : Accounted image u x₀ p a) (h : (copying image).step p e = some (p', o))
    (he : e.sameUser = true) (horder : InOrder p.1 e) (hup : UpToDate image p e) :
    Accounted image u x₀ p' (a ++ o) := by
  obtain ⟨h, hnote⟩ := Reactive.Machine.step_withHistory.mp h
  obtain ⟨doc, done, queued, hp, hlast⟩ := hp
  have huploads : p'.2.uploads = p.2.uploads + o.countP (issuesUrl image) :=
    congrArg Copies.uploads hnote
  have hcopy : p'.2.model = p.2.read e := congrArg Copies.model hnote
  cases (step_doc hone h he).1 with
  | @beside _ new hbeside inFlight plain updates users model quiet =>
    obtain ⟨hwaiting, hnew⟩ :=
      hp.stamped (fun k => ⟨(hbeside k).1, (hbeside k).2.1⟩) inFlight hnote
    rw [quiet.countP, Nat.add_zero] at huploads
    rw [read_of_ne fun k => (hbeside k).2.2] at hcopy
    refine ⟨doc, done, queued, hp.beside (users ▸ hp.users) ?_ model hcopy huploads hwaiting
      fun n data hn => ?_, by rw [quiet.lastUrl, hlast]⟩
    · rw [Uploads.updates, inFlight, List.filterMap_append, updates]
      have hnone : new.filterMap Pending.update = [] :=
        List.filterMap_eq_nil_iff.mpr fun q hq => plain_update (plain q hq).1
      rw [hnone, List.append_nil]
    · exact (hnew _ hn).resolve_right fun hq => absurd (plain _ hq).1 (by simp [Pending.plain])
  | @issued _ update name phone bio m before hbeside issues copy inFlight updates users model
      effects quiet =>
    obtain ⟨hwaiting, hnew⟩ :=
      hp.stamped (fun k => ⟨(hbeside k).1, (hbeside k).2.1⟩) inFlight hnote
    rw [read_of_ne fun k => (hbeside k).2.2] at hcopy
    have hcount : o.countP (issuesUrl image) = if (image.url update).isSome then 1 else 0 := by
      rw [effects, List.countP_append, quiet.countP, Nat.zero_add, List.countP_singleton]
      rfl
    rw [hcount] at huploads
    obtain ⟨hle, hshown⟩ := hp.model m copy
    refine ⟨doc, done, queued ++ [(update, updatedUser update name phone bio m)],
      hp.issued (users ▸ hp.users) ?_ model hcopy huploads hwaiting (fun n data hn => ?_) ?_, ?_⟩
    · rw [Uploads.updates, inFlight, List.filterMap_append, updates]
      rfl
    · refine (hnew _ hn).resolve_right fun hq => ?_
      exact absurd (List.mem_singleton.mp hq) (by simp)
    · rw [image.ofUser_updatedUser]
      cases hurl : image.url update with
      | none => exact hshown (hup update issues hurl (by simp [copy]))
      | some url => rfl
    · have hquiet : lastUrl image (a ++ o) = lastUrl image a := by
        rw [effects, ← List.append_assoc, lastUrl, List.filterMap_append,
          List.filterMap_cons_none rfl, List.filterMap_nil, List.append_nil]
        exact quiet.lastUrl a
      rw [hquiet, hlast]
  | @carried k w request plain inFlight users model quiet =>
    obtain ⟨hwaiting, hnew⟩ := hp.renewed request inFlight (congrArg Copies.waiting hnote)
    rw [quiet.countP, Nat.add_zero] at huploads
    refine ⟨doc, done, queued, hp.beside (users ▸ hp.users) ?_ model hcopy huploads hwaiting
      fun n data hn => ?_, by rw [quiet.lastUrl, hlast]⟩
    · rw [Uploads.updates, inFlight]
      exact Reactive.filterMap_set request ((plain true).trans (plain false).symm)
    · exact (hnew _ hn).resolve_right fun hq => absurd hq (by simp)
  | @applied k update user doc' request inFlight before users model effects =>
    obtain rfl : doc = doc' := Option.some.inj (hp.users.symm.trans before)
    obtain ⟨hwaiting, hnew⟩ := hp.renewed request inFlight (congrArg Copies.waiting hnote)
    have hsplit : p.1.updates = (p.1.inFlight.take k).filterMap Pending.update ++
        ((update, user), false) :: (p.1.inFlight.drop (k + 1)).filterMap Pending.update :=
      Reactive.filterMap_eq_take_append request Pending.update
    have hset : p'.1.updates = (p.1.inFlight.take k).filterMap Pending.update ++
        ((update, user), true) :: (p.1.inFlight.drop (k + 1)).filterMap Pending.update := by
      rw [Uploads.updates, inFlight]
      exact Reactive.filterMap_set_eq request Pending.update _
    have hfirst := horder (by rw [request]; rfl)
    obtain ⟨hdone, rest, rfl, hrest⟩ := split_applied hfirst (hsplit.symm.trans hp.updates)
    have hkept := hp.kept.1
    have hcount : o.countP (issuesUrl image) = 0 := by rw [effects]; rfl
    rw [hcount, Nat.add_zero] at huploads
    have hcopy : p'.2.model = p.2.model := hcopy
    refine ⟨user.update doc, done ++ [(update, user)], rest,
      { users, waiting := hwaiting, updates := ?_, carried := ?_, kept := ?_
        model := fun m hm => ?_, answers := fun n data m hn hm => ?_ }, ?_⟩
    · rw [hset, hdone, hrest, List.map_append, List.append_assoc]
      rfl
    · rw [image.string_update, Image.after_append]
      rfl
    · rw [image.string_update]
      exact hp.kept.2
    · rw [image.string_update, huploads, hcopy]
      exact hp.model m (model ▸ hm)
    · rw [image.string_update, huploads]
      exact hp.answers n data m ((hnew _ hn).resolve_right fun hq => absurd hq (by simp)) hm
    · rw [image.string_update, effects]
      exact lastUrl_update hlast hkept
  | @settled k ok update user new request inFlight plain users model quiet =>
    obtain ⟨hwaiting, hnew⟩ := hp.stamped (e := .settled k ok) (fun _ => by simp) inFlight hnote
    rw [quiet.countP, Nat.add_zero] at huploads
    have hcopy : p'.2.model = p.2.model := hcopy
    obtain ⟨rfl, hfirst⟩ := horder (by rw [request]; rfl)
    have hsplit : p.1.updates = (p.1.inFlight.take k).filterMap Pending.update ++
        ((update, user), true) :: (p.1.inFlight.drop (k + 1)).filterMap Pending.update :=
      Reactive.filterMap_eq_take_append request Pending.update
    rw [hfirst, List.nil_append] at hsplit
    obtain ⟨rest, rfl, hrest⟩ := split_settled (hsplit.symm.trans hp.updates)
    refine ⟨doc, rest, queued, { users := users ▸ hp.users, waiting := hwaiting, updates := ?_
                                 carried := ?_, kept := hp.kept, model := fun m hm => ?_
                                 answers := fun n data m hn hm => ?_ },
      by rw [quiet.lastUrl, hlast]⟩
    · have hnone : new.filterMap Pending.update = [] :=
        List.filterMap_eq_nil_iff.mpr fun q hq => plain_update (plain q hq).1
      rw [Uploads.updates, inFlight, List.filterMap_append, hnone, List.append_nil,
        Reactive.filterMap_eraseIdx_eq, hfirst, List.nil_append, hrest]
    · -- what is left after the first update was there after it
      cases rest with
      | nil => rfl
      | cons y rest => exact hp.carried
    · rw [huploads, hcopy]
      exact hp.model m (model ▸ hm)
    · rw [huploads]
      exact hp.answers n data m ((hnew _ hn).resolve_right fun hq =>
        absurd (plain _ hq).1 (by simp [Pending.plain])) hm
  | @served k request inFlight users model quiet =>
    obtain ⟨hwaiting, hnew⟩ := hp.renewed request inFlight (congrArg Copies.waiting hnote)
    rw [quiet.countP, Nat.add_zero] at huploads
    have hcopy : p'.2.model = p.2.model := hcopy
    refine ⟨doc, done, queued,
      { users := users ▸ hp.users, waiting := hwaiting, updates := ?_, carried := hp.carried
        kept := hp.kept, model := fun m hm => ?_, answers := fun n data m hn hm => ?_ },
      by rw [quiet.lastUrl, hlast]⟩
    · rw [Uploads.updates, inFlight, ← hp.updates]
      exact Reactive.filterMap_set request rfl
    · rw [huploads, hcopy]
      exact hp.model m (model ▸ hm)
    · rw [huploads]
      rcases hnew _ hn with hn | hn
      · exact hp.answers n data m hn hm
      · -- the copy is what the client sees
        obtain ⟨rfl, hdata⟩ := Prod.mk.inj hn
        obtain rfl := Pending.userData.inj hdata
        obtain ⟨d, hd, hstring⟩ := @localView_string image u p.1 doc hone hp.users
        refine ⟨Nat.le_refl _, fun _ => ?_⟩
        rw [hd] at hm
        rw [← Image.string_key hm, hstring, hp.updates, List.map_append, List.map_map,
          List.map_map, Image.after_append]
        simp only [Function.comp_def, List.map_id']
        rw [hp.carried]
  | @userData k data request inFlight users model quiet =>
    have hget : ∃ n, p.2.waiting[k]? = some (n, .userData data) := by
      rw [← hp.waiting, List.getElem?_map, Option.map_eq_some_iff] at request
      obtain ⟨⟨n, y⟩, hk, rfl⟩ := request
      exact ⟨n, hk⟩
    obtain ⟨n, hget⟩ := hget
    rw [quiet.countP, Nat.add_zero] at huploads
    have hinFlight : p'.1.inFlight = p.1.inFlight.eraseIdx k ++ [] := by
      rw [inFlight, List.append_nil]
    obtain ⟨hwaiting, hnew⟩ := hp.stamped (e := .userData k) (fun _ => by simp) hinFlight hnote
    rw [Copies.read, hget] at hcopy
    have hcopy : p'.2.model = if (LoginModel.fromJson data).isSome then n else p.2.model := hcopy
    refine ⟨doc, done, queued,
      { users := users ▸ hp.users, updates := ?_, carried := hp.carried, kept := hp.kept
        waiting := hwaiting, model := fun m hm => ?_, answers := fun n data m hn hm => ?_ },
      by rw [quiet.lastUrl, hlast]⟩
    · rw [Uploads.updates, inFlight, ← hp.updates]
      exact Reactive.filterMap_eraseIdx_none request rfl
    · rw [huploads, hcopy]
      rw [model] at hm
      cases hdata : LoginModel.fromJson data with
      | none =>
        rw [hdata] at hm
        exact hp.model m hm
      | some m' =>
        rw [hdata] at hm
        obtain rfl := Option.some.inj hm
        exact hp.answers n data m' (List.mem_of_getElem? hget) hdata
    · rw [huploads]
      exact hp.answers n data m ((hnew _ hn).resolve_right List.not_mem_nil) hm

theorem start_accounted {s₀ : Uploads} {doc₀ : Json} (hdoc : s₀.users u = some doc₀)
    (hnil : s₀.inFlight = [])
    (hcopy : ∀ m, s₀.model = some m → LoginModel.fromJson (some doc₀) = some m) :
    Accounted image u (doc₀.string image.key) (s₀, Copies.start) [] := by
  refine ⟨doc₀, [], [], { users := hdoc, carried := rfl, kept := trivial, waiting := hnil.symm
                          updates := ?_, model := fun m hm => ?_
                          answers := fun _ _ _ hn => absurd hn List.not_mem_nil }, rfl⟩
  · show s₀.inFlight.filterMap Pending.update = []
    rw [hnil]
    rfl
  · exact ⟨Nat.le_refl _, fun _ => (Image.string_key (hcopy m hm)).symm⟩

/-- Along a run of one user, whose updates are carried out in order and all succeed, and
that starts with a copy of his document or none: his document has the image and the cover
whose updates were carried out last in every state, if each update is issued with a copy
that was read after the last upload of an image that it does not bring itself. -/
theorem urls_kept {doc₀ : Json} {s₀ : Uploads} {es : List Event} (huId : s₀.uId = some u)
    (hdoc : s₀.users u = some doc₀) (hnil : s₀.inFlight = [])
    (hcopy : ∀ m, s₀.model = some m → LoginModel.fromJson (some doc₀) = some m)
    (hes : ∀ e ∈ es, e.sameUser = true)
    (horder : machine.Every (fun s e _ _ => InOrder s e) s₀ es)
    (hup : ∀ image, (copying image).Every (fun p e _ _ => UpToDate image p e)
      (s₀, Copies.start) es) :
    ∀ es₁ s o, es₁ <+: es → machine.run s₀ es₁ = some (s, o) → UrlsKept u doc₀ s o := by
  intro es₁ s o hprefix hrun
  have hone : OneUser u s₀ :=
    { uId := huId, users := by rw [hdoc]; simp, inFlight := by rw [hnil]; simp }
  have hend : ∀ image : Image, ∃ doc, s.users u = some doc ∧
      doc.string image.key = (lastUrl image o).or (doc₀.string image.key) := by
    intro image
    obtain ⟨h, hrun⟩ := (Reactive.Machine.run_withHistory_iff (Copies.note image)
      Copies.start).mpr hrun
    have hevery := ((Reactive.Machine.every_withHistory_iff (Copies.note image)
      Copies.start).mpr horder).and (hup image)
    have hsame := Reactive.Machine.every_of_forall (M := copying image)
      (Q := fun _ e _ _ => e.sameUser = true) (fun _ _ _ _ h => h) hes (s₀, Copies.start)
    obtain ⟨-, doc, done, queued, haccount, hlast⟩ :=
      Reactive.Machine.run_invariant (M := copying image) (a := [])
        (I := fun p a => OneUser u p.1 ∧ Accounted image u (doc₀.string image.key) p a)
        (fun p e p' o' a hp hstep hq =>
          ⟨step_oneUser hp.1 (Reactive.Machine.step_withHistory.mp hstep).1 hq.2,
            step_accounted hp.1 hp.2 hstep hq.2 hq.1.1 hq.1.2⟩)
        ⟨hone, start_accounted hdoc hnil hcopy⟩
        (Reactive.Machine.every_prefix hprefix (hevery.and hsame)) hrun
    exact ⟨doc, haccount.users, hlast⟩
  obtain ⟨doc, husers, -⟩ := hend .cover
  refine ⟨doc, husers, fun image => ?_⟩
  obtain ⟨doc', husers', hlast⟩ := hend image
  rw [Option.some.inj (husers.symm.trans husers')]
  exact hlast

/-! ## Two uploads -/

/-- ann's profile is loaded. -/
def annLoaded : Uploads :=
  { uId := some "ann", model := some (Home.userOf "ann"),
    users := fun uid => if uid = "ann" then some (Home.userOf "ann").toMap else none,
    inFlight := [] }

/-- A new cover and a new profile image at the same time: the second update writes back
the cover that the first has replaced, and no operation is left that would restore it. -/
theorem cover_reverted :
    ∃ s o, machine.run annLoaded
        [.upload (.cover "ann" "0100" "hi"), .upload (.profile "ann" "0100" "hi"),
          .uploaded 0, .uploaded 0, .url 0 "new-cover.jpg" "t", .url 0 "new-user.jpg" "t",
          .applied 0, .applied 1, .settled 0 true, .settled 0 true, .served 0, .served 1,
          .userData 0, .userData 0] = some (s, o) ∧
      s.inFlight = [] ∧ lastUrl .cover o = some "new-cover.jpg" ∧
      ∃ doc, s.users "ann" = some doc ∧ doc.string "cover" = some "cover.jpg" :=
  ⟨_, _, rfl, rfl, rfl, _, rfl, rfl⟩

/-- The profile image is uploaded when the new cover has been read. -/
def oneAfterOther : List Event :=
  [.upload (.cover "ann" "0100" "hi"), .uploaded 0, .url 0 "new-cover.jpg" "t", .applied 0,
    .settled 0 true, .served 0, .userData 0, .upload (.profile "ann" "0100" "hi"),
    .uploaded 0, .url 0 "new-user.jpg" "t", .applied 0, .settled 0 true, .served 0, .userData 0]

theorem urls_kept_oneAfterOther :
    ∃ s o, machine.run annLoaded oneAfterOther = some (s, o) ∧ s.inFlight = [] ∧
      lastUrl .cover o = some "new-cover.jpg" ∧ lastUrl .profile o = some "new-user.jpg" ∧
      UrlsKept "ann" (Home.userOf "ann").toMap s o := by
  refine ⟨_, _, rfl, rfl, rfl, rfl, @urls_kept "ann" (Home.userOf "ann").toMap annLoaded
    oneAfterOther rfl rfl rfl ?_ ?_ ?_ ?_ oneAfterOther _ _ List.prefix_rfl rfl⟩
  · intro m hm
    rw [← Option.some.inj hm]
    exact (Home.userOf "ann").fromJson_toMap
  · simp [oneAfterOther, Event.sameUser]
  · have happlied : ∀ {s : Uploads}, InOrder s (.applied 0) := fun _ _ hx =>
      absurd hx List.not_mem_nil
    refine Reactive.Machine.every_cons rfl trivial (Reactive.Machine.every_cons rfl trivial ?_)
    refine Reactive.Machine.every_cons rfl trivial (Reactive.Machine.every_cons rfl happlied ?_)
    refine Reactive.Machine.every_cons rfl (fun _ => ⟨rfl, rfl⟩) ?_
    refine Reactive.Machine.every_cons rfl trivial (Reactive.Machine.every_cons rfl trivial ?_)
    refine Reactive.Machine.every_cons rfl trivial (Reactive.Machine.every_cons rfl trivial ?_)
    refine Reactive.Machine.every_cons rfl trivial (Reactive.Machine.every_cons rfl happlied ?_)
    refine Reactive.Machine.every_cons rfl (fun _ => ⟨rfl, rfl⟩) ?_
    exact Reactive.Machine.every_cons rfl trivial (Reactive.Machine.every_cons rfl trivial trivial)
  · intro image
    have hnone : ∀ {p : Uploads × Copies} {e : Event}, e.issues p.1 = none → UpToDate image p e :=
      fun h update hissues => absurd (h.symm.trans hissues) (by simp)
    refine Reactive.Machine.every_cons rfl (hnone rfl) (Reactive.Machine.every_cons rfl
      (hnone rfl) ?_)
    refine Reactive.Machine.every_cons rfl ?_ (Reactive.Machine.every_cons rfl (hnone rfl) ?_)
    · intro update hissues hurl _
      rw [← Option.some.inj hissues] at hurl
      cases image with
      | cover => exact absurd hurl (by simp [Image.url])
      | profile => rfl
    refine Reactive.Machine.every_cons rfl (hnone rfl) (Reactive.Machine.every_cons rfl
      (hnone rfl) ?_)
    refine Reactive.Machine.every_cons rfl (hnone rfl) (Reactive.Machine.every_cons rfl
      (hnone rfl) ?_)
    refine Reactive.Machine.every_cons rfl (hnone rfl) (Reactive.Machine.every_cons rfl ?_ ?_)
    · intro update hissues hurl _
      rw [← Option.some.inj hissues] at hurl
      cases image with
      | cover => rfl
      | profile => exact absurd hurl (by simp [Image.url])
    exact Reactive.Machine.every_of_forall (G := fun e => ∀ s : Uploads, e.issues s = none)
      (fun p e _ _ h => hnone (h p.1)) (by simp [Event.issues]) _

end Uploads
end SocialApp
