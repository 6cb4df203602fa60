import Foti.AddPhoto.ChosenPhoto
import Foti.AddPhoto.PhotoChooseController
import Foti.AddPhoto.SavePost
import Foti.AddPhoto.ShareButton
import Foti.AddPhoto.SharePhotoController
import Foti.AddPhoto.Thumbnails
import Foti.AddPhoto.Uploads
import Foti.Extension.Date
import Foti.Firestore.Store
import Foti.Firestore.Value
import Foti.Library.Acknowledged
import Foti.Library.Document
import Foti.Library.Entries
import Foti.Library.Listener
import Foti.Library.Overtaken
import Foti.Library.ReadChooseWrite
import Foti.Library.Reuse
import Foti.Library.Simulation
import Foti.Library.Termination
import Foti.Library.Transition
import Foti.Library.WriteLog
import Foti.MainPage.CellReuse
import Foti.MainPage.CommentController
import Foti.MainPage.CommentSends
import Foti.MainPage.CommentSnapshots
import Foti.MainPage.Feed
import Foti.MainPage.FeedComplete
import Foti.MainPage.FeedCopies
import Foti.MainPage.FeedDuplicates
import Foti.MainPage.FeedOrder
import Foti.MainPage.LikeCompletion
import Foti.MainPage.LikeTaps
import Foti.MainPage.Likes
import Foti.MainPage.MainController
import Foti.MainPage.MainPostCell
import Foti.MainPage.PostLiked
import Foti.MainPage.SendComment
import Foti.MainPage.ShownLike
import Foti.MainPage.Unfollow
import Foti.MainTabBarController
import Foti.Model
import Foti.Register.RegisterController
import Foti.Register.SignUp
import Foti.Register.SignUpForm
import Foti.Search.SearchCase
import Foti.Search.SearchUserController
import Foti.SignIn.SignInController
import Foti.System.Answers
import Foti.System.Arrival
import Foti.System.Attribution
import Foti.System.Clients
import Foti.System.Conservation
import Foti.System.DrawnContent
import Foti.System.EnteredPasswords
import Foti.System.FeedAuthors
import Foti.System.Feeds
import Foti.System.Local
import Foti.System.LocalRuns
import Foti.System.Navigation
import Foti.System.NavigationSafety
import Foti.System.Network
import Foti.System.NewestFirst
import Foti.System.Ownership
import Foti.System.PostReaders
import Foti.System.References
import Foti.System.Rest
import Foti.System.ReusedCells
import Foti.System.Scope
import Foti.System.ScreenInvariants
import Foti.System.ScreenRuns
import Foti.System.SearchedProfiles
import Foti.System.SelfFollow
import Foti.System.Session
import Foti.System.SessionRefinement
import Foti.System.SessionSafety
import Foti.System.ShownContent
import Foti.System.ShownOnce
import Foti.System.SignInSheet
import Foti.System.SignUps
import Foti.System.Traps
import Foti.System.WellFormed
import Foti.UserProfile.FollowButton
import Foti.UserProfile.FollowOperations
import Foti.UserProfile.ProfilePosts
import Foti.UserProfile.UserProfileController
import Foti.UserProfile.UserProfileHeader
