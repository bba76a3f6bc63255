import Mathlib.Data.Option.Basic

/-! # The records of the app and their Firestore documents

A document's data is a map from field names.  The app stores strings, and a
boolean under `isEmailVarified`; a field that is missing or null is `none`. -/

namespace SocialApp

/-- A value in a document. -/
inductive Dynamic
  | string (s : String)
  | bool (b : Bool)
deriving DecidableEq

/-- `Map<String, dynamic>`. -/
abbrev Json := String → Option Dynamic

namespace Json

def string (json : Json) (key : String) : Option String :=
  match json key with
  | some (.string s) => some s
  | _ => none

def bool (json : Json) (key : String) : Option Bool :=
  match json key with
  | some (.bool b) => some b
  | _ => none

end Json

/-- A document of a query result. -/
structure QueryDoc where
  id : String
  data : Json

/-- The documents of a query result.  Firestore names no document twice. -/
structure QuerySnapshot where
  docs : List QueryDoc
  nodup : (docs.map QueryDoc.id).Nodup

/-! ## Users -/

structure LoginModel where
  name : Option String
  phone : Option String
  email : Option String
  uid : Option String
  image : Option String
  cover : Option String
  bio : Option String
  isEmailVarified : Option Bool
deriving DecidableEq

namespace LoginModel

/-- The constructor on the data of a document, which throws when there is none. -/
def fromJson (data : Option Json) : Option LoginModel :=
  data.map fun json =>
    { name := json.string "name"
      phone := json.string "phone"
      email := json.string "email"
      uid := json.string "uid"
      image := json.string "image"
      cover := json.string "cover"
      bio := json.string "bio"
      isEmailVarified := json.bool "isEmailVarified" }

def toMap (m : LoginModel) : Json := fun key =>
  if key = "name" then m.name.map .string
  else if key = "phone" then m.phone.map .string
  else if key = "email" then m.email.map .string
  else if key = "uid" then m.uid.map .string
  else if key = "isEmailVarified" then m.isEmailVarified.map .bool
  else if key = "image" then m.image.map .string
  else if key = "cover" then m.cover.map .string
  else if key = "bio" then m.bio.map .string
  else none

end LoginModel

theorem Json.string_map {json : Json} {key : String} {x : Option String}
    (h : json key = x.map .string) : json.string key = x := by
  cases x <;> simp_all [Json.string]

theorem Json.bool_map {json : Json} {key : String} {x : Option Bool}
    (h : json key = x.map .bool) : json.bool key = x := by
  cases x <;> simp_all [Json.bool]

/-- A user document read back is the model it was written from. -/
theorem LoginModel.fromJson_toMap (m : LoginModel) : fromJson (some m.toMap) = some m := by
  simp only [fromJson, Option.map_some]
  congr 1
  cases m
  congr 1
  all_goals first
    | exact Json.string_map (by simp [toMap])
    | exact Json.bool_map (by simp [toMap])

/-- The fields of a user document. -/
def LoginModel.fields : List String :=
  ["name", "phone", "email", "uid", "isEmailVarified", "image", "cover", "bio"]

/-- `update` with the map of a model: every field of the model is written, and
fields that a model has not are left. -/
def LoginModel.update (m : LoginModel) (doc : Json) : Json := fun key =>
  if key ∈ LoginModel.fields then m.toMap key else doc key

theorem LoginModel.fromJson_congr {json json' : Json}
    (h : ∀ key ∈ LoginModel.fields, json key = json' key) :
    fromJson (some json) = fromJson (some json') := by
  simp only [fields, List.forall_mem_cons] at h
  obtain ⟨h₁, h₂, h₃, h₄, h₅, h₆, h₇, h₈, -⟩ := h
  simp only [fromJson, Option.map_some, Json.string, Json.bool, h₁, h₂, h₃, h₄, h₅, h₆, h₇, h₈]

/-- A user document that was updated reads as the model it was updated with. -/
theorem LoginModel.fromJson_update (m : LoginModel) (doc : Json) :
    fromJson (some (m.update doc)) = some m := by
  rw [← m.fromJson_toMap]
  exact fromJson_congr fun key hkey => if_pos hkey

/-! ## Posts -/

structure PostModel where
  postImage : Option String
  postUserImage : Option String
  postUserName : Option String
  dateTime : Option String
  text : Option String
  uid : Option String
deriving DecidableEq

namespace PostModel

def fromJson (json : Json) : PostModel :=
  { postImage := json.string "postImage"
    dateTime := json.string "dateTime"
    text := json.string "text"
    postUserName := json.string "postUserName"
    postUserImage := json.string "postUserImage"
    uid := json.string "uid" }

def toMap (m : PostModel) : Json := fun key =>
  if key = "postImage" then m.postImage.map .string
  else if key = "text" then m.text.map .string
  else if key = "dateTime" then m.dateTime.map .string
  else if key = "postUserImage" then m.postUserImage.map .string
  else if key = "postUserName" then m.postUserName.map .string
  else if key = "uid" then m.uid.map .string
  else none

theorem fromJson_toMap (m : PostModel) : fromJson m.toMap = m := by
  cases m
  simp only [fromJson]
  congr 1
  all_goals exact Json.string_map (by simp [toMap])

end PostModel

/-! ## Comments -/

structure CommentModel where
  uid : Option String
  textComment : Option String
  commentTime : Option String
  image : Option String
  name : Option String
deriving DecidableEq

namespace CommentModel

/-- The positional constructor; the author's image and name are not set. -/
def ofText (uid textComment commentTime : Option String) : CommentModel :=
  { uid, textComment, commentTime, image := none, name := none }

def fromJson (json : Json) : CommentModel :=
  { uid := json.string "uid"
    textComment := json.string "textComment"
    commentTime := json.string "commentTime"
    image := none
    name := none }

def toJson (m : CommentModel) : Json := fun key =>
  if key = "uid" then m.uid.map .string
  else if key = "textComment" then m.textComment.map .string
  else if key = "commentTime" then m.commentTime.map .string
  else none

/-- The document of a comment has no author's image or name, so reading it back
loses those two fields and no other. -/
theorem fromJson_toJson (m : CommentModel) :
    fromJson m.toJson = ofText m.uid m.textComment m.commentTime := by
  simp only [fromJson, ofText]
  congr 1
  all_goals exact Json.string_map (by simp [toJson])

end CommentModel

/-! ## Messages -/

structure MessageModel where
  dateTime : Option String
  text : Option String
  receiverUid : Option String
  senderUid : Option String
  image : Option String
deriving DecidableEq

namespace MessageModel

def fromJson (json : Json) : MessageModel :=
  { dateTime := json.string "dateTime"
    text := json.string "text"
    receiverUid := json.string "receiverUid"
    senderUid := json.string "senderUid"
    image := json.string "image" }

def toMap (m : MessageModel) : Json := fun key =>
  if key = "senderUid" then m.senderUid.map .string
  else if key = "receiverUid" then m.receiverUid.map .string
  else if key = "text" then m.text.map .string
  else if key = "dateTime" then m.dateTime.map .string
  else if key = "image" then m.image.map .string
  else none

theorem fromJson_toMap (m : MessageModel) : fromJson m.toMap = m := by
  cases m
  simp only [fromJson]
  congr 1
  all_goals exact Json.string_map (by simp [toMap])

end MessageModel

/-! ## Notifications -/

/-- The payload of a notification: who sent the message, and to whom. -/
structure Data where
  uid : Option String
  receiverUid : Option String
  image : Option String
  name : Option String
  notificationImage : Option String
deriving DecidableEq

namespace Data

def fromJson (json : Json) : Data :=
  { uid := json.string "uid"
    name := json.string "name"
    image := json.string "image"
    receiverUid := json.string "receiverUid"
    notificationImage := json.string "notificationImage" }

def toJson (m : Data) : Json := fun key =>
  if key = "uid" then m.uid.map .string
  else if key = "name" then m.name.map .string
  else if key = "image" then m.image.map .string
  else if key = "receiverUid" then m.receiverUid.map .string
  else if key = "click_action" then some (.string "FLUTTER_NOTIFICATION_CLICK")
  else if key = "notificationImage" then m.notificationImage.map .string
  else none

theorem fromJson_toJson (m : Data) : fromJson m.toJson = m := by
  cases m
  simp only [fromJson]
  congr 1
  all_goals exact Json.string_map (by simp [toJson])

end Data

structure NotificationModel where
  body : String
  title : String
deriving DecidableEq

structure NotificationChatModel where
  to_ : Option String
  notification : NotificationModel
  data : Data
deriving DecidableEq

end SocialApp
