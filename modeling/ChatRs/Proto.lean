import ChatRs.RustStd
import ChatRs.Error

/-!
# Frames and limits (`proto.rs`)

The Rust field `from` is `fromId` here (`from` is a keyword).
-/

namespace ChatRs

def PROTOCOL_VERSION : UInt16 := 2
def MAX_FRAME_LEN : Nat := 64 * 1024
def HISTORY_LEN : Nat := 15
def MAX_USERNAME_LEN : Nat := 32
def MAX_ROOM_ID_LEN : Nat := 32
def MAX_CIPHERTEXT_LEN : Nat := 4096

/-- The part of a message that is bound into the AEAD as additional data. -/
structure MessageAd where
  fromId : Uuid
  username : String
  counter : UInt64
  timestampMs : UInt64
  ephemeral : Bool
deriving DecidableEq

/-- A message as the server relays it: `fromId` and `username` are the outer, unauthenticated
copies, `ad` holds the authenticated ones. -/
structure RoomMessage where
  fromId : Uuid
  username : String
  ad : MessageAd
  ciphertext : List UInt8
deriving DecidableEq

inductive ClientFrame where
  | roomSelect (room : String)
  | hello (username : String)
  | message (ad : MessageAd) (ciphertext : List UInt8)
  | clear
deriving DecidableEq

inductive ServerFrame where
  | hello (roomSalt : Key) (serverVersion : UInt16)
  | welcome (userId : Uuid) (history : List RoomMessage)
  | message (m : RoomMessage)
  | cleared (by_ : Uuid) (username : String)
  | error (reason : ErrorKind)
deriving DecidableEq

def EPHEMERAL_TTL_MS : Nat := 30000
def EPHEMERAL_REVEAL_MS : Nat := 3000
def EPHEMERAL_MASK : String := "*******"

end ChatRs
