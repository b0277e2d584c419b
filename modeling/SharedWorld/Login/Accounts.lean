import SharedWorld.Login.Error

/-! # Accounts

Usernames with their password hashes. The first login with a name registers it.
-/

namespace SharedWorld

structure Account where
  player : PlayerId
  password : String
  world : Option String := none
  deriving DecidableEq, Repr

structure Accounts where
  byName : Table String Account := ∅
  names : Table PlayerId String := ∅
  lastId : UInt32 := 0

namespace Accounts

def size (a : Accounts) : Nat := a.byName.size

def password? (a : Accounts) (name : String) : Option String := (a.byName.get? name).map (·.password)

def login (a : Accounts) (name password : String) : Except LoginError (Accounts × PlayerId) :=
  if name = "" then .error .emptyName
  else match a.byName.get? name with
  | some account =>
    if account.password = password then .ok (a, account.player)
    else .error (.passwordMismatch name)
  | none =>
    let player : PlayerId := ⟨a.lastId + 1⟩
    .ok ({ byName := a.byName.insert name { player, password },
           names := a.names.insert player name, lastId := player.val }, player)

def world? (a : Accounts) (player : PlayerId) : Option String := do
  (← a.byName.get? (← a.names.get? player)).world

def setWorld (a : Accounts) (player : PlayerId) (world : String) : Accounts :=
  match a.names.get? player with
  | none => a
  | some name =>
    { a with byName := a.byName.modify name fun account => { account with world := some world } }

end Accounts

end SharedWorld
