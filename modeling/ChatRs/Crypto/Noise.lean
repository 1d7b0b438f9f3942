import ChatRs.Proto

/-!
# The Noise transport (`crypto/noise.rs`)

The handshake and the transport cipher are the crate `snow`, of which the responder is a
parameter. What is modelled of this file is what it computes itself: the prologue both sides
bind into the handshake (`buildPrologue_inj`), the exchange of the two handshake messages, and
the length of what `transport_seal` puts on the wire.
-/

namespace ChatRs

def NOISE_BUF : Nat := 65535

/-- Bytes that ChaCha20-Poly1305 appends to each transport message. -/
def AEAD_TAG_LEN : Nat := 16

def buildPrologue (roomId : String) (salt : Key) (serverVersion : UInt16) : List UInt8 :=
  UInt8.ofNat (strLen roomId) :: strBytes roomId ++ salt.toList
    ++ [UInt8.ofNat (serverVersion.toNat / 256), UInt8.ofNat (serverVersion.toNat % 256)]

/-- The two bytes of a version give it back. -/
theorem version_of_be_bytes {v v' : UInt16}
    (hhigh : UInt8.ofNat (v.toNat / 256) = UInt8.ofNat (v'.toNat / 256))
    (hlow : UInt8.ofNat (v.toNat % 256) = UInt8.ofNat (v'.toNat % 256)) : v = v' := by
  have hv : v.toNat < 2 ^ 16 := v.toNat_lt
  have hv' : v'.toNat < 2 ^ 16 := v'.toNat_lt
  have hhigh := congrArg UInt8.toNat hhigh
  have hlow := congrArg UInt8.toNat hlow
  rw [UInt8.toNat_ofNat', UInt8.toNat_ofNat'] at hhigh hlow
  apply UInt16.toNat_inj.mp
  omega

/-- **The prologue determines what it binds.** The length byte wraps around for names that are
too long, but salt and version have fixed sizes, so the length of the whole still tells how
long the name is. -/
theorem buildPrologue_inj {roomId roomId' : String} {salt salt' : Key} {v v' : UInt16} :
    buildPrologue roomId salt v = buildPrologue roomId' salt' v'
      ↔ roomId = roomId' ∧ salt = salt' ∧ v = v' := by
  constructor
  · intro h
    unfold buildPrologue at h
    have hsalt (key : Key) : key.toList.length = 32 := key.toList_length
    have hlen := congrArg List.length h
    simp only [List.length_append, List.length_cons, List.length_nil, hsalt] at hlen
    obtain ⟨hrest, hversion⟩ := List.append_inj' h rfl
    obtain ⟨hname, hkey⟩ := List.append_inj' hrest (by rw [hsalt, hsalt])
    obtain ⟨hhigh, hlow⟩ := List.cons.inj hversion
    refine ⟨?_, List.Vector.toList_injective hkey, ?_⟩
    · exact strBytes_injective (List.cons.inj hname).2
    · exact version_of_be_bytes hhigh (List.cons.inj hlow).1
  · rintro ⟨rfl, rfl, rfl⟩
    rfl

/-- `snow`'s responder: from the PSK, the prologue and the first message the second one, `none`
when the first does not verify. -/
abbrev Responder := Key → List UInt8 → List UInt8 → Option (List UInt8)

/-- `handshake_responder`, with what `recv_bytes` delivers: the second message, to be sent. -/
def handshakeResponder (snow : Responder) (psk : Key) (prologue : List UInt8)
    (m0 : Result (List UInt8)) : Result (List UInt8) :=
  match m0 with
  | .error e => .error e
  | .ok m0 =>
    match snow psk prologue m0 with
    | none => .error .noise
    | some m1 => .ok m1

/-- The length of `transport_seal(plaintext)`: the buffer it allocates is filled up. -/
def transportSealLen (plaintext : List UInt8) : Nat := plaintext.length + AEAD_TAG_LEN

end ChatRs
