import Mathlib.Data.List.Basic

/-! `MainTabBarController`: the tabs, which belong to the account that was signed in when they were made. -/

namespace Foti

inductive Tab where
  | main
  | search
  | add
  | profile
  deriving DecidableEq, Repr

structure MainTabBarController where
  viewControllers : List Tab
  account : Option String
  selected : Tab
  deriving DecidableEq, Repr

namespace MainTabBarController

/-- New tabs take the place of the old ones, and the selection stays where it was. -/
def createView (old : Option MainTabBarController) (currentUser : Option String) : MainTabBarController where
  viewControllers := [.main, .search, .add, .profile]
  account := currentUser
  selected := (old.map (·.selected)).getD .main

/-- Whether a tapped tab is selected. The one that is not presents the photos instead. -/
def shouldSelect (c : MainTabBarController) (viewController : Tab) : Bool :=
  match c.viewControllers.idxOf? viewController with
  | none => true
  | some index => index != 2

end MainTabBarController
end Foti
