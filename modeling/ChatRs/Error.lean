/-!
# Errors (`error.rs`)

The payloads of the variants that wrap another crate's error are left out: nothing modelled
looks at them.
-/

namespace ChatRs

inductive ErrorKind where
  | authFailed
  | badFrame
  | rateLimited
  | unsupportedVersion
  | internal
deriving DecidableEq

inductive Error where
  | io
  | postcard
  | noise
  | argon2
  | kdf
  | aead
  | random
  | closed
  | unsupportedVersion (version : UInt16)
  | protocol (what : String)
  | missingEnv (key : String)
  | server (reason : ErrorKind)
deriving DecidableEq

/-- `error::Result`. -/
abbrev Result (α : Type) := Except Error α

end ChatRs
