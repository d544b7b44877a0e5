import WebAtlas.Text.Cues

/-! # Access tiers

Who may call a route, guessed from cues in its text; the highest tier that shows one wins.
-/
namespace WebAtlas

inductive AccessTier
  | anyone
  | signedIn
  | admin
deriving DecidableEq, Repr

namespace AccessTier

def name : AccessTier → String
  | .anyone => "public"
  | .signedIn => "protected"
  | .admin => "admin"

def adminCues : List String :=
  ["requireAdmin", "isAdmin", "role === 'admin'", "role === \"admin\""]

def signedInCues : List String :=
  ["getAuthenticatedUser", "auth.protect", "requireAuth", "getServerSession", "currentUser",
   "unauthorized"]

def infer (text : String) : AccessTier :=
  if Text.containsAny adminCues text then .admin
  else if Text.containsAny signedInCues text then .signedIn
  else .anyone

end AccessTier

end WebAtlas
