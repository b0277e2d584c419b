import SharedWorld.Digest.Blake3
import SharedWorld.Text.Hex
import SharedWorld.Text.Utf8

/-! # Passwords

A password is stored as a salt, a dollar sign and the hash of salt and password, both
in hexadecimal. Nothing matches an empty password.
-/

namespace SharedWorld

namespace Password

def salted (salt secret : String) : String :=
  Text.hex (Blake3.digest (Text.utf8 salt ++ Text.utf8 secret))

def saltLength : Nat := 16

/-- The stored form under a salt. An empty password is stored as nothing. -/
def store (salt : Bytes) (secret : String) : String :=
  if secret = "" then "" else Text.hex salt ++ "$" ++ salted (Text.hex salt) secret

/-- Whether a password is the stored one. The salt ends at the first dollar sign. -/
def fits (secret stored : String) : Bool :=
  if secret = "" ∨ stored = "" then false
  else
    let salt := stored.toList.takeWhile (· ≠ '$')
    match stored.toList.drop salt.length with
    | [] => false
    | _ :: hash => salted (String.ofList salt) secret = String.ofList hash

end Password

end SharedWorld
