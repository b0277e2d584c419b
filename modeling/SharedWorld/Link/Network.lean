import SharedWorld.Link.SocketAddress

/-! # Networks

What the network of a host lets a program do.
-/

namespace SharedWorld

structure Network where
  /-- Whether a stream to the address opens. -/
  reaches : SocketAddress → Bool
  /-- Whether a socket of this host can have the address. -/
  binds : SocketAddress → Bool

namespace Network

/-- A host without interfaces. It reaches nobody, but nothing says either that an address of four
bytes is not its own. -/
def isolated : Network where
  reaches _ := false
  binds a := a.host.isV4 || a.host.isMapped || a.host.isUnspecified

def bind? (n : Network) (text : String) : Option SocketAddress := do
  let a ← SocketAddress.ofText? text
  if n.binds a then some a else none

end Network

end SharedWorld
