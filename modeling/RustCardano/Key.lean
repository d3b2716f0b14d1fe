import RustCardano.Packer

/-!
# Public keys and signatures

`chain_crypto` keys and signatures are the raw bytes of their scheme's width, with no
length prefix; `deserialize_public_key` and `deserialize_signature` read exactly that many
bytes and apply the scheme's structural check. The widths and the checks are outside this
repository's files, so a scheme is a parameter of the model, and the codecs of keys and
signatures round-trip by construction rather than by assumption.
-/

namespace RustCardano

open Reader

/-- Modelled from the spec: an asymmetric scheme as the core consumes it, through the
widths of its public keys and signatures and the structural checks of `from_binary`. -/
structure AsymmetricKey where
  publicWidth : Nat
  signatureWidth : Nat
  publicCheck : Bytes → Bool
  signatureCheck : Bytes → Bool

/-- The widths of Ed25519, 32-byte public keys and 64-byte signatures, with every string of
those widths accepted: a concrete scheme for the examples of this development. -/
def ed25519 : AsymmetricKey :=
  ⟨32, 64, fun bs => bs.length == 32, fun bs => bs.length == 64⟩

/-- Bytes of a fixed `width` that pass a structural `check`: the shape shared by public keys
and signatures. A value that fails either cannot be built. -/
structure FixedBytes (width : Nat) (check : Bytes → Bool) where
  bytes : Bytes
  length_eq : bytes.length = width
  check_eq : check bytes = true
  deriving DecidableEq

/-- `PublicKey<A>`. -/
abbrev PublicKey (A : AsymmetricKey) := FixedBytes A.publicWidth A.publicCheck

/-- `Signature<T, A>`; the phantom type of the signed data plays no part in the bytes. -/
abbrev Signature (A : AsymmetricKey) := FixedBytes A.signatureWidth A.signatureCheck

/-- The all-zero public key of `ed25519`. -/
def ed25519.zeroKey : PublicKey ed25519 := ⟨List.replicate 32 0, rfl, rfl⟩

namespace FixedBytes

variable {width : Nat} {check : Bytes → Bool}

/-- The raw bytes, with no length prefix. -/
def serialize (k : FixedBytes width check) : Bytes := k.bytes

/-- `width` bytes, kept when they pass the check and rejected with `err` otherwise. -/
def read (width : Nat) (check : Bytes → Bool) (err : ReadError) :
    Reader (FixedBytes width check) := do
  let bs ← getSlice width
  if h : bs.length = width ∧ check bs = true then pure ⟨bs, h.1, h.2⟩ else fail (.read err)

@[simp] theorem serialize_length (k : FixedBytes width check) : k.serialize.length = width :=
  k.length_eq

/-- A fixed-width value reads back from its bytes, whatever follows. -/
theorem read_serialize (err : ReadError) (k : FixedBytes width check) (s : Bytes) :
    (read width check err).run (k.serialize ++ s) = .ok (k, s) := by
  have h := getSlice_append k.serialize s
  rw [serialize_length] at h
  rw [read, run_bind_of_ok h, dif_pos ⟨k.length_eq, k.check_eq⟩]
  rfl

/-- What a fixed-width read accepts is exactly the encoding of what it returns. -/
theorem serialize_of_read {err : ReadError} {buf rest : Bytes} {k : FixedBytes width check}
    (h : (read width check err).run buf = .ok (k, rest)) : buf = k.serialize ++ rest := by
  obtain ⟨bs, mid, hbs, hk⟩ := run_bind_eq_ok.mp h
  obtain ⟨-, rfl⟩ := getSlice_eq_ok.mp hbs
  split at hk
  · cases hk
    rfl
  · cases hk

/-- Keys and signatures are their bytes: the length and the check are proofs about them. -/
theorem bytes_injective : Function.Injective (bytes : FixedBytes width check → Bytes) := by
  rintro ⟨a, _, _⟩ ⟨b, _, _⟩ (rfl : a = b)
  rfl

/-- A fixed-width read is a slice and a check, so it has every closed property. -/
theorem read_closed {P : ∀ {α : Type}, Reader α → Prop} (hP : Reader.Closed P)
    (err : ReadError) : P (read width check err) :=
  hP.bind (hP.getSlice width) fun _ => by
    split
    · exact hP.pure _
    · exact hP.failRead _

end FixedBytes

/-- `serialize_public_key`. -/
def serializePublicKey {A : AsymmetricKey} (k : PublicKey A) : Bytes := k.serialize

/-- `serialize_signature`. -/
def serializeSignature {A : AsymmetricKey} (sig : Signature A) : Bytes := sig.serialize

/-- `deserialize_public_key`: the scheme's width of bytes, structurally checked. -/
def deserializePublicKey (A : AsymmetricKey) : Reader (PublicKey A) :=
  FixedBytes.read _ _ (.structureInvalid "public key")

/-- `deserialize_signature`: the scheme's width of bytes, structurally checked. -/
def deserializeSignature (A : AsymmetricKey) : Reader (Signature A) :=
  FixedBytes.read _ _ (.structureInvalid "signature")

@[simp] theorem deserializePublicKey_serialize {A : AsymmetricKey} (k : PublicKey A)
    (s : Bytes) : (deserializePublicKey A).run (serializePublicKey k ++ s) = .ok (k, s) :=
  FixedBytes.read_serialize _ k s

@[simp] theorem deserializeSignature_serialize {A : AsymmetricKey} (sig : Signature A)
    (s : Bytes) : (deserializeSignature A).run (serializeSignature sig ++ s) = .ok (sig, s) :=
  FixedBytes.read_serialize _ sig s

/-- Modelled from the spec: a hash value, a plain byte array of the hash's declared length. -/
structure Hash (size : Nat) where
  bytes : Bytes
  length_eq : bytes.length = size
  deriving DecidableEq

end RustCardano
