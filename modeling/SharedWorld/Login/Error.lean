import SharedWorld.Identity

/-! # Login errors

Why a login, or an operation on a logged-in player, is refused.
-/

namespace SharedWorld

inductive LoginError
  | emptyName
  | passwordMismatch (name : String)
  | wrongPassword (name : String)
  | unknownConnection (connection : ConnectionId)
  | playerNotFound (player : PlayerId)
  | alreadyConnected (player : PlayerId)
  deriving DecidableEq, Repr

namespace LoginError

def message : LoginError → String
  | emptyName => "authentication failed: empty username"
  | passwordMismatch name => "authentication failed: password mismatch for " ++ name
  | wrongPassword name => "authentication failed: password does not match for " ++ name
  | unknownConnection c => "unknown connection " ++ c.text
  | playerNotFound p => "player " ++ p.text ++ " not found"
  | alreadyConnected p => "player " ++ p.text ++ " already has an active connection"

end LoginError

end SharedWorld
