import Foti.Firestore.Value

/-! The program's model types, built from the data of their documents. -/

namespace Foti

structure User where
  userName : String
  userID : String
  profilePhotoURL : String
  deriving DecidableEq, Repr

def User.init (userData : Dict) : User where
  userName := (asString (userData.lookup "Username")).getD ""
  userID := (asString (userData.lookup "UserID")).getD ""
  profilePhotoURL := (asString (userData.lookup "ProfilePhotoURL")).getD ""

/-- `Firestore.createUser` up to its read: the document it reads. -/
def createUser (userID : String) (currentUser : Option String) : Option String :=
  if userID = "" then currentUser else some userID

structure Post where
  id : Option String := none
  user : User
  postImageURL : Option String
  imageWidth : Option UInt64
  imageHeight : Option UInt64
  userID : Option String
  message : Option String
  postDate : Timestamp
  liked : Bool := false
  deriving DecidableEq, Repr

/-- `now` is the reader's clock, the date of a post whose document has none. -/
def Post.init (now : Timestamp) (user : User) (dictionaryData : Dict) : Post where
  user
  postImageURL := asString (dictionaryData.lookup "PostImageURL")
  imageWidth := asDouble (dictionaryData.lookup "ImageWidth")
  imageHeight := asDouble (dictionaryData.lookup "ImageHeight")
  userID := asString (dictionaryData.lookup "UserID")
  message := asString (dictionaryData.lookup "Message")
  postDate := (asTimestamp (dictionaryData.lookup "PostDate")).getD now

structure Comment where
  user : User
  commentMessage : String
  userID : String
  deriving DecidableEq, Repr

def Comment.init (user : User) (dictionaryData : Dict) : Comment where
  user
  commentMessage := (asString (dictionaryData.lookup "commentMessage")).getD ""
  userID := (asString (dictionaryData.lookup "UserID")).getD ""

end Foti
