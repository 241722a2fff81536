/-!
# Peers

Users, chats and channels are numbered independently.  One number for all of them keeps that of a
user, negates that of a chat, and moves that of a channel below all chats.  The arithmetic wraps at
64 bits.
-/

namespace TypeLang.Content

/-- The kind of a peer. -/
inductive PeerKind where
  | user
  | chat
  | channel
  deriving DecidableEq, Repr, Inhabited

/-- The number from which those of channels count down. -/
def channelBase : Int64 :=
  -1000000000000

/-- The common number of a peer. -/
def PeerKind.common (kind : PeerKind) (id : Int64) : Int64 :=
  match kind with
  | user => id
  | chat => -id
  | channel => channelBase - id

end TypeLang.Content
