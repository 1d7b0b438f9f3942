import ChatRs.RustStd
import ChatRs.Error

/-!
# Keys from the password (`crypto/password.rs`)

Argon2id and keyed BLAKE2s are other crates' code and parameters here.
-/

namespace ChatRs

def KEY_LEN : Nat := 32

def ARGON2_M_KIB : Nat := 64 * 1024
def ARGON2_T : Nat := 4
def ARGON2_P : Nat := 1

def PSK_LABEL : List UInt8 := strBytes "chat-rs/v1/psk"
def ROOM_LABEL : List UInt8 := strBytes "chat-rs/v1/room"

/-- The interfaces of `argon2` and `blake2`; `none` where they return an error. -/
structure Kdf where
  hashPassword (mKib t p outputLen : Nat) (password : List UInt8) (salt : Key) : Option Key
  mac (key : Key) (label : List UInt8) : Option Key

structure DerivedKeys where
  psk : Key
  roomKey : Key

def blake2sKdf (kdf : Kdf) (master : Key) (label : List UInt8) : Result Key :=
  match kdf.mac master label with
  | none => .error .kdf
  | some k => .ok k

def deriveKeys (kdf : Kdf) (password : List UInt8) (roomSalt : Key) : Result DerivedKeys :=
  match kdf.hashPassword ARGON2_M_KIB ARGON2_T ARGON2_P KEY_LEN password roomSalt with
  | none => .error .argon2
  | some master => do
    let psk ← blake2sKdf kdf master PSK_LABEL
    let roomKey ← blake2sKdf kdf master ROOM_LABEL
    return { psk := psk, roomKey := roomKey }

end ChatRs
