import SocialApp.Reactive.Machine
import SocialApp.Reactive.Fill
import SocialApp.Reactive.History
import SocialApp.Reactive.InFlight
import SocialApp.Reactive.Beside
import SocialApp.Reactive.Membership
import SocialApp.Reactive.Quiesce
import SocialApp.Models
import SocialApp.Home.Cubit
import SocialApp.Home.Step
import SocialApp.Home.Quiesce
import SocialApp.Home.Rows
import SocialApp.Home.Requests
import SocialApp.Home.Feed
import SocialApp.Home.Responses
import SocialApp.Home.Load
import SocialApp.Home.Likes
import SocialApp.Home.Known
import SocialApp.Home.Session
import SocialApp.Profile.Screen
import SocialApp.Profile.Rows
import SocialApp.Comments.Cubit
import SocialApp.Comments.Rows
import SocialApp.Comments.Shown
import SocialApp.Comments.Target
import SocialApp.Uploads.Flows
import SocialApp.Uploads.Starter
import SocialApp.Uploads.Document
import SocialApp.Uploads.Profile
import SocialApp.Chats.Cubit
import SocialApp.Chats.Account
import SocialApp.Chats.Mailboxes
import SocialApp.Chats.Outcome
import SocialApp.Chats.Order
import SocialApp.Chats.Reply
import SocialApp.ChatScreen.Cubit
import SocialApp.ChatScreen.Step
import SocialApp.ChatScreen.Pick
import SocialApp.ChatScreen.Notify
import SocialApp.NewPost.Cubit
import SocialApp.NewPost.Step
import SocialApp.NewPost.Image
import SocialApp.NewPost.Posts
import SocialApp.Notifications.App
import SocialApp.Notifications.Opened
import SocialApp.Notifications.Payload
import SocialApp.EditProfile.Screen
import SocialApp.EditProfile.Step
import SocialApp.EditProfile.Pickers
import SocialApp.EditProfile.Form
import SocialApp.Register.Cubit
import SocialApp.Register.Outcome
import SocialApp.Push.System
import SocialApp.Push.Device
import SocialApp.Push.Registry
import SocialApp.Push.Tap
import SocialApp.Push.Once
import SocialApp.Failure
import SocialApp.Utf8
import SocialApp.Keys
import SocialApp.Session.Screens
import SocialApp.Session.Cache
import SocialApp.Session.Shown
import SocialApp.Reactive.Query
import SocialApp.NewPost.Views
import SocialApp.Chats.Growth
import SocialApp.Uploads.Accounts
import SocialApp.UsersChat.Screen
import SocialApp.Authors
import SocialApp.NewPost.Taps
import SocialApp.Home.AnyOrder
import SocialApp.Home.Counts
import SocialApp.Reactive.Shared
import SocialApp.Home.Devices
import SocialApp.Entries
import SocialApp.Firestore.FieldPath
import SocialApp.Firestore.Fields
import SocialApp.Firestore.ObjectValue
import SocialApp.Reactive.Optimistic
import SocialApp.Firestore.Mutation
import SocialApp.Firestore.LocalStore
import SocialApp.Firestore.Update
