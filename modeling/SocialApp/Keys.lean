import SocialApp.Utf8
import SocialApp.Home.Cubit
import SocialApp.Comments.Cubit
import SocialApp.NewPost.Cubit
import SocialApp.Chats.Cubit

/-! # Sort keys

Posts, messages and comments are ordered by texts of the local time of their writing.
Firestore compares them bytewise. -/

namespace SocialApp

open Time (DateTime)

/-- The keys stored for what is written at the local time `t`: the id and the `dateTime`
of a post, the `dateTime` of a message, and the `commentTime` of a comment from the
comments screen or from a row of the feed. -/
inductive StoredKey (t : DateTime) : String → Prop
  | postId {captured : NewPost.Captured} {uId : Option String} {s : NewPost} {w : NewPost.Write}
      (issued : .issue w ∈ (NewPost.createPost captured t uId s).2) : StoredKey t w.id
  | postDateTime {captured : NewPost.Captured} {uId : Option String} {s : NewPost}
      {w : NewPost.Write} {key : String}
      (issued : .issue w ∈ (NewPost.createPost captured t uId s).2)
      (stored : w.post.toMap.string "dateTime" = some key) : StoredKey t key
  | messageDateTime {c : Chats.Copy} {key : String} (now : c.reading.now = t)
      (stored : c.message.toMap.string "dateTime" = some key) : StoredKey t key
  | commentTime {text post : String} {s : Comments} {comment : CommentModel} {key : String}
      (issued : .issue (.addComment post comment) ∈ (Comments.sendComment text t.toString s).2)
      (stored : comment.toJson.string "commentTime" = some key) : StoredKey t key
  | rowCommentTime {text post : String} {s : Home} {comment : CommentModel} {key : String}
      (issued : .issue (.addComment post comment) ∈ (Home.sendComment text t.toString s).2)
      (stored : comment.toJson.string "commentTime" = some key) : StoredKey t key

theorem post_stored {captured : NewPost.Captured} {t : DateTime} {uId : Option String}
    {s : NewPost} {w : NewPost.Write} (h : .issue w ∈ (NewPost.createPost captured t uId s).2) :
    w.now = t ∧ w.post.toMap.string "dateTime" = some t.toString := by
  obtain h | h := List.mem_cons.mp h
  · exact absurd h (by simp)
  · obtain rfl := NewPost.Effect.issue.inj (List.mem_singleton.mp h)
    exact ⟨rfl, Json.string_map (by simp [PostModel.toMap])⟩

theorem comment_stored (uId text : Option String) (t : DateTime) :
    (CommentModel.ofText uId text (some t.toString)).toJson.string "commentTime" =
      some t.toString :=
  Json.string_map (by simp [CommentModel.toJson, CommentModel.ofText])

/-- Every key is the text of the time. -/
theorem storedKey_eq {t : DateTime} {key : String} (h : StoredKey t key) : key = t.toString := by
  cases h with
  | postId issued => exact congrArg Time.DateTime.toString (post_stored issued).1
  | postDateTime issued stored =>
    rw [(post_stored issued).2] at stored
    exact (Option.some.inj stored).symm
  | @messageDateTime c _ now stored =>
    have hstored : c.message.toMap.string "dateTime" = some c.reading.now.toString :=
      Json.string_map (by simp [MessageModel.toMap, Chats.Copy.message, Chats.Send.message])
    rw [hstored, now] at stored
    exact (Option.some.inj stored).symm
  | commentTime issued stored =>
    obtain ⟨-, rfl⟩ := Comments.Write.addComment.inj
      (Comments.Effect.issue.inj (List.mem_singleton.mp issued))
    rw [comment_stored] at stored
    exact (Option.some.inj stored).symm
  | rowCommentTime issued stored =>
    obtain ⟨-, rfl⟩ := Home.Write.addComment.inj
      (Home.Effect.issue.inj (List.mem_singleton.mp issued))
    rw [comment_stored] at stored
    exact (Option.some.inj stored).symm

/-- Keys compare bytewise as the local times they are stored for do, and are equal only
for one time. -/
theorem storedKey_order {t t' : DateTime} {key key' : String} (h : StoredKey t key)
    (h' : StoredKey t' key') :
    (Utf8.bytes key < Utf8.bytes key' ↔ t.micros < t'.micros) ∧
      (Utf8.bytes key = Utf8.bytes key' ↔ t = t') := by
  rw [storedKey_eq h, storedKey_eq h', Utf8.bytes_lt_iff, Utf8.bytes_inj]
  exact ⟨DateTime.toString_lt_iff, DateTime.toString_inj⟩

/-- The key of a whole millisecond is the beginning of the keys that follow it. -/
theorem storedKey_order_millisecond :
    Utf8.bytes "2022-01-31 09:05:00.000" < Utf8.bytes "2022-01-31 09:05:00.000250" := by
  have hpost : StoredKey ⟨63810839100000000, by decide⟩ "2022-01-31 09:05:00.000" :=
    @StoredKey.postDateTime _
      { tap := 0, text := "hi", postUserName := none, postUserImage := none } none NewPost.init _ _
      (List.mem_of_getElem? (i := 1) rfl) (by decide)
  have hcomment : StoredKey ⟨63810839100000250, by decide⟩ "2022-01-31 09:05:00.000250" :=
    @StoredKey.commentTime _ "hi" "" (Comments.init none) _ _ (List.mem_singleton.mpr rfl)
      (by decide)
  exact (storedKey_order hpost hcomment).1.mpr (by decide)

/-- A mailbox is ordered bytewise by `dateTime`, and then by the ids of its documents. -/
theorem copy_key_lt_iff {c d : Chats.Copy} :
    c.key < d.key ↔
      Utf8.bytes (c.message.dateTime.getD "") < Utf8.bytes (d.message.dateTime.getD "") ∨
        Utf8.bytes (c.message.dateTime.getD "") = Utf8.bytes (d.message.dateTime.getD "") ∧
          Utf8.bytes c.id < Utf8.bytes d.id := by
  rw [Utf8.bytes_lt_iff, Utf8.bytes_inj, Utf8.bytes_lt_iff]
  exact Prod.Lex.toLex_lt_toLex

end SocialApp
