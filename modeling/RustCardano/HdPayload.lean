import RustCardano.Cbor

/-!
# HD address payloads

`hdpayload.rs`: a derivation path is written as an indefinite CBOR array of its `u32` indices,
encrypted with ChaCha20-Poly1305 under a key derived from the root public key, a fixed nonce and
no additional data, and the ciphertext and its tag are carried in an address as a byte string
inside a byte string. `decrypt` takes the tag's length off the input's length in `usize` before
it looks at the result, so an input shorter than the tag overflows the subtraction.
-/

namespace RustCardano

open Reader

/-- `TAG_LEN`. -/
def tagLen : Nat := 16

/-- `NONCE`, the twelve bytes of `b"serokellfore"`. -/
def nonce : Bytes := [0x73, 0x65, 0x72, 0x6f, 0x6b, 0x65, 0x6c, 0x6c, 0x66, 0x6f, 0x72, 0x65]

/-- `SALT`, the fifteen bytes of `b"address-hashing"`. -/
def salt : Bytes :=
  [0x61, 0x64, 0x64, 0x72, 0x65, 0x73, 0x73, 0x2d, 0x68, 0x61, 0x73, 0x68, 0x69, 0x6e, 0x67]

/-- `HDKEY_SIZE`. -/
def hdkeySize : Nat := 32

/-- `HDKey([u8; HDKEY_SIZE])`. -/
structure HDKey where
  bytes : Bytes
  length_eq : bytes.length = hdkeySize
  deriving DecidableEq

/-- `HDKey::from_slice`: the key of the bytes when there are `HDKEY_SIZE` of them. -/
def HDKey.fromSlice (bytes : Bytes) : Option HDKey :=
  if h : bytes.length = hdkeySize then some ⟨bytes, h⟩ else none

/-- The `pbkdf2` of `rcw` over `Hmac<Sha512>`: from the HMAC's key, a salt and an iteration
count it fills an output buffer of the requested length. -/
structure Pbkdf2HmacSha512 where
  derive : (password salt : Bytes) → (iterations length : Nat) → Bytes
  derive_length : ∀ password salt iterations length,
    (derive password salt iterations length).length = length

/-- `HDKey::new`: PBKDF2-HMAC-SHA512 keyed by the bytes of the root public key (`XPub`, its
key then its chain code), with `SALT` and 500 iterations, into `HDKEY_SIZE` bytes. -/
def HDKey.new (pbkdf2 : Pbkdf2HmacSha512) (rootPub : Bytes) : HDKey :=
  ⟨pbkdf2.derive rootPub salt 500 hdkeySize, pbkdf2.derive_length _ _ _ _⟩

/-- `from_slice` accepts exactly the bytes of a key, and gives that key. -/
theorem HDKey.fromSlice_eq_some {bytes : Bytes} {k : HDKey} :
    HDKey.fromSlice bytes = some k ↔ bytes = k.bytes := by
  unfold fromSlice
  split
  · exact ⟨fun h => by cases h; rfl, fun h => by cases k; cases h; rfl⟩
  · exact ⟨nofun, fun h => absurd (h ▸ k.length_eq) ‹_›⟩

/-- `Path(Vec<u32>)`. A `Vec<u32>` holds at most `isize::MAX` bytes, so fewer than `2 ^ 61`
indices. -/
structure Path where
  indices : List UInt32
  length_lt : indices.length < 2 ^ 61
  deriving DecidableEq

/-- The panic of a `Vec` asked to grow past `isize::MAX` bytes. -/
def capacityOverflow : Failure := .panic "capacity overflow"

/-- `Path::cbor`: `se::serialize_indefinite_array` over the indices. -/
def Path.cbor (p : Path) : Bytes := serializeIndefiniteArray serializeU32 p.indices

/-- `Path::from_cbor`: the `Vec<u32>` of the indefinite array at the start of the bytes. -/
def Path.fromCbor (bytes : Bytes) : Except Failure Path := do
  let (indices, _) ← (readArray deserializeU32 deserializeU32_consumes).run bytes
  if h : indices.length < 2 ^ 61 then pure ⟨indices, h⟩ else .error capacityOverflow

/-- The ChaCha20-Poly1305 of `rcw` under a key, a nonce and additional data. `encrypt` returns
the ciphertext, as long as the input, and the tag; `decrypt` returns the plaintext when the tag
authenticates the ciphertext. -/
structure ChaCha20Poly1305 where
  encrypt : (key nonce aad input : Bytes) → Bytes × Bytes
  encrypt_length : ∀ key nonce aad input, (encrypt key nonce aad input).1.length = input.length
  tag_length : ∀ key nonce aad input, (encrypt key nonce aad input).2.length = tagLen
  decrypt : (key nonce aad input tag : Bytes) → Option Bytes

/-- Decryption under the same key and nonce, with empty additional data, inverts encryption and
accepts its own tag. -/
def ChaCha20Poly1305.Inverts (C : ChaCha20Poly1305) : Prop :=
  ∀ key nonce input,
    C.decrypt key nonce [] (C.encrypt key nonce [] input).1 (C.encrypt key nonce [] input).2 =
      some input

/-- Decryption returns as many bytes as the ciphertext it is given: `decrypt` writes the
plaintext into a buffer of the ciphertext's length. -/
def ChaCha20Poly1305.DecryptLength (C : ChaCha20Poly1305) : Prop :=
  ∀ key nonce aad input tag out, C.decrypt key nonce aad input tag = some out →
    out.length = input.length

variable (C : ChaCha20Poly1305)

/-- `HDKey::encrypt`: the ciphertext, then the tag. -/
def HDKey.encrypt (k : HDKey) (input : Bytes) : Bytes :=
  (C.encrypt k.bytes nonce [] input).1 ++ (C.encrypt k.bytes nonce [] input).2

/-- `HDKey::decrypt`: `input.len() - TAG_LEN` is computed first, then a zero length is `None`,
then the ciphertext and the tag are split at that length. -/
def HDKey.decrypt (k : HDKey) (input : Bytes) : Except Failure (Option Bytes) := do
  let len ← checkedSub input.length tagLen
  if len ≤ 0 then pure none
  else pure (C.decrypt k.bytes nonce [] (input.take len) (input.drop len))

/-- `HDAddressPayload(Vec<u8>)`. -/
structure HDAddressPayload where
  bytes : Bytes
  deriving DecidableEq

/-- `HDKey::encrypt_path`: the path's CBOR, encrypted. -/
def HDKey.encryptPath (k : HDKey) (p : Path) : HDAddressPayload := ⟨k.encrypt C p.cbor⟩

/-- `Result::ok` on a `raw_cbor` result: an error becomes `None`, and a panic stays one. -/
def resultOk {α : Type} : Except Failure α → Except Failure (Option α)
  | .ok a => .ok (some a)
  | .error (.read _) => .ok none
  | .error (.panic msg) => .error (.panic msg)

/-- `HDKey::decrypt_path`: decrypt, then read the path from the plaintext. -/
def HDKey.decryptPath (k : HDKey) (payload : HDAddressPayload) : Except Failure (Option Path) := do
  match ← k.decrypt C payload.bytes with
  | none => pure none
  | some out => resultOk (Path.fromCbor out)

/-- `HDAddressPayload::serialize`: `se::serialize_cbor_in_cbor` on the bytes. -/
def HDAddressPayload.serialize (payload : HDAddressPayload) : Bytes :=
  serializeCborInCbor payload.bytes

/-- `HDAddressPayload::deserialize`: the outer byte string, then the byte string at the start
of it. -/
def HDAddressPayload.deserialize : Reader HDAddressPayload := do
  let encoded ← readBytes
  let (bytes, _) ← lift (readBytes.run encoded)
  pure ⟨bytes⟩

/-! ## The path's CBOR -/

/-- Values written in at most `k` bytes each are written in at most `k` bytes per value. -/
theorem length_flatMap_le {α : Type} {f : α → Bytes} {k : Nat} (hf : ∀ a, (f a).length ≤ k)
    (l : List α) : (l.flatMap f).length ≤ k * l.length := by
  induction l with
  | nil => simp
  | cons a l ih =>
    rw [List.flatMap_cons, List.length_append, List.length_cons, Nat.mul_succ]
    have := hf a
    omega

/-- A path's CBOR takes at most five bytes an index and the two bytes that open and close it. -/
theorem Path.cbor_length (p : Path) : p.cbor.length ≤ 5 * p.indices.length + 2 := by
  have := length_flatMap_le serializeU32_length p.indices
  simp only [cbor, serializeIndefiniteArray, List.length_append, List.length_cons,
    List.length_nil]
  omega

/-- A path's CBOR is never empty: it opens the array even for no index. -/
theorem Path.cbor_ne_nil (p : Path) : p.cbor ≠ [] := by
  simp [cbor, serializeIndefiniteArray]

/-- A path reads back from its CBOR. -/
theorem Path.fromCbor_cbor (p : Path) : Path.fromCbor p.cbor = .ok p := by
  rw [fromCbor, cbor, ← List.append_nil (serializeIndefiniteArray _ _),
    readArray_serializeIndefiniteArray deserializeU32_serializeU32
      (fun _ => writeUnsignedInteger_head _)]
  exact dif_pos p.length_lt

/-- `from_cbor` reads the array at the start of the bytes and drops what follows it. -/
theorem Path.fromCbor_cbor_append (p : Path) (tail : Bytes) :
    Path.fromCbor (p.cbor ++ tail) = .ok p := by
  rw [fromCbor, cbor, readArray_serializeIndefiniteArray deserializeU32_serializeU32
    (fun _ => writeUnsignedInteger_head _)]
  exact dif_pos p.length_lt

/-! ## Encryption -/

/-- Encryption adds the tag's length to the input's. -/
theorem HDKey.encrypt_length (k : HDKey) (input : Bytes) :
    (k.encrypt C input).length = input.length + tagLen := by
  rw [encrypt, List.length_append, C.encrypt_length, C.tag_length]

/-- An input shorter than the tag overflows `input.len() - TAG_LEN`. -/
theorem HDKey.decrypt_of_lt (k : HDKey) {input : Bytes} (h : input.length < tagLen) :
    k.decrypt C input = .error subtractOverflow := by
  rw [decrypt, checkedSub, if_neg (Nat.not_le.mpr h)]
  rfl

/-- An input exactly as long as the tag is `None`. -/
theorem HDKey.decrypt_of_eq (k : HDKey) {input : Bytes} (h : input.length = tagLen) :
    k.decrypt C input = .ok none := by
  rw [decrypt, checkedSub, if_pos h.ge, h, Nat.sub_self]
  rfl

/-- An input longer than the tag is split at the tag and handed to the cipher: no panic. -/
theorem HDKey.decrypt_of_gt (k : HDKey) {input : Bytes} (h : tagLen < input.length) :
    k.decrypt C input = .ok (C.decrypt k.bytes nonce [] (input.take (input.length - tagLen))
      (input.drop (input.length - tagLen))) := by
  rw [decrypt, checkedSub, if_pos h.le]
  exact if_neg (by omega)

/-- A nonempty input comes back from its encryption when the cipher inverts itself. -/
theorem HDKey.decrypt_encrypt (hC : C.Inverts) (k : HDKey) {input : Bytes} (hne : input ≠ []) :
    k.decrypt C (k.encrypt C input) = .ok (some input) := by
  have hpos := List.length_pos.mpr hne
  have hlen := k.encrypt_length C input
  rw [decrypt_of_gt C k (by omega), hlen, Nat.add_sub_cancel, encrypt,
    ← C.encrypt_length k.bytes nonce [] input, List.take_left, List.drop_left, hC]

/-! ## The address payload -/

/-- A payload whose CBOR-in-CBOR lengths fit their `u64` arguments reads back from its bytes
and leaves the suffix. -/
theorem HDAddressPayload.deserialize_serialize {payload : HDAddressPayload}
    (h : payload.bytes.length + 9 < 2 ^ 64) (s : Bytes) :
    HDAddressPayload.deserialize.run (payload.serialize ++ s) = .ok (payload, s) := by
  have hinner := readBytes_writeBytes (show payload.bytes.length < 2 ^ 64 by omega) []
  have houter := writeBytes_length payload.bytes
  rw [List.append_nil] at hinner
  rw [deserialize, serialize, serializeCborInCbor,
    run_bind_of_ok (readBytes_writeBytes (by omega) s), hinner, run_bind_of_ok (run_lift_ok _ _)]
  rfl

/-- The inner byte string is read from the start of the outer one and the rest of the outer
one is dropped: a payload reads back from its CBOR-in-CBOR bytes with any bytes appended inside
the outer string, so distinct encodings give the same payload. -/
theorem HDAddressPayload.deserialize_ignores_tail (payload : HDAddressPayload) (tail : Bytes)
    (hfit : (writeBytes payload.bytes ++ tail).length < 2 ^ 64) (s : Bytes) :
    HDAddressPayload.deserialize.run (writeBytes (writeBytes payload.bytes ++ tail) ++ s) =
      .ok (payload, s) := by
  have hinner : payload.bytes.length < 2 ^ 64 := by
    have : payload.bytes.length ≤ (writeBytes payload.bytes ++ tail).length := by
      simp only [writeBytes, List.length_append]
      omega
    omega
  rw [deserialize, run_bind_of_ok (readBytes_writeBytes hfit s), readBytes_writeBytes hinner tail,
    run_bind_of_ok (run_lift_ok _ _)]
  rfl

theorem HDAddressPayload.deserialize_ignores_tail_one :
    (writeBytes (⟨[]⟩ : HDAddressPayload).bytes ++ [7]).length < 2 ^ 64 ∧
    HDAddressPayload.deserialize.run
        (writeBytes (writeBytes (⟨[]⟩ : HDAddressPayload).bytes ++ [7]) ++ []) =
      .ok (⟨[]⟩, []) :=
  ⟨by decide, HDAddressPayload.deserialize_ignores_tail ⟨[]⟩ [7] (by decide) []⟩

/-- The encrypted CBOR of a path fits the `u64` lengths of its CBOR-in-CBOR wrapping: the
`Vec<u32>` bound keeps it below `2 ^ 64` bytes. -/
theorem HDKey.encryptPath_fits (k : HDKey) (p : Path) :
    (k.encryptPath C p).bytes.length + 9 < 2 ^ 64 := by
  have hlen : (k.encryptPath C p).bytes.length = p.cbor.length + tagLen := k.encrypt_length C p.cbor
  have hcbor := p.cbor_length
  have hpath := p.length_lt
  rw [hlen, tagLen]
  omega

/-- A payload shorter than the tag panics in `decrypt`, and so in `decrypt_path`. -/
theorem HDKey.decrypt_panics_of_lt (k : HDKey) (input : Bytes) (h : input.length < tagLen) :
    k.decrypt C input = .error subtractOverflow ∧
      k.decryptPath C ⟨input⟩ = .error subtractOverflow := by
  refine ⟨decrypt_of_lt C k h, ?_⟩
  rw [decryptPath, decrypt_of_lt C k h]
  rfl

/-- The key of all zero bytes. -/
def HDKey.zero : HDKey := ⟨List.replicate hdkeySize 0, List.length_replicate _ _⟩

/-- A cipher for concrete runs: the identity, with a tag of zero bytes that `decrypt` checks.
It inverts its own encryption. -/
def ChaCha20Poly1305.plain : ChaCha20Poly1305 where
  encrypt _ _ _ input := (input, List.replicate tagLen 0)
  encrypt_length _ _ _ _ := rfl
  tag_length _ _ _ _ := List.length_replicate _ _
  decrypt _ _ _ input tag := if tag = List.replicate tagLen 0 then some input else none

/-- The concrete cipher inverts its own encryption. -/
theorem ChaCha20Poly1305.plain_inverts : ChaCha20Poly1305.plain.Inverts := by
  intro key nonce input
  simp [plain]

theorem HDKey.decrypt_panics_empty :
    ([] : Bytes).length < tagLen ∧
      (HDKey.zero.decrypt ChaCha20Poly1305.plain [] = .error subtractOverflow ∧
        HDKey.zero.decryptPath ChaCha20Poly1305.plain ⟨[]⟩ = .error subtractOverflow) :=
  ⟨by decide, HDKey.decrypt_panics_of_lt _ _ [] (by decide)⟩

/-- Every path, of any length and with any indices, comes back from its encrypted payload:
the payload reads back from its CBOR-in-CBOR bytes, and decrypting it gives the path. -/
theorem HDKey.decryptPath_encryptPath (hC : C.Inverts) (k : HDKey) (p : Path) (s : Bytes) :
    HDAddressPayload.deserialize.run ((k.encryptPath C p).serialize ++ s) =
        .ok (k.encryptPath C p, s) ∧
      k.decryptPath C (k.encryptPath C p) = .ok (some p) := by
  refine ⟨HDAddressPayload.deserialize_serialize (k.encryptPath_fits C p) s, ?_⟩
  rw [decryptPath, encryptPath, decrypt_encrypt C hC k p.cbor_ne_nil]
  exact congrArg resultOk p.fromCbor_cbor

theorem HDKey.decryptPath_encryptPath_widths :
    ChaCha20Poly1305.plain.Inverts ∧
      (HDAddressPayload.deserialize.run
          ((HDKey.zero.encryptPath ChaCha20Poly1305.plain
            ⟨[23, 24, 255, 256, 65535, 65536, 4294967295], by decide⟩).serialize ++ []) =
          .ok (HDKey.zero.encryptPath ChaCha20Poly1305.plain
            ⟨[23, 24, 255, 256, 65535, 65536, 4294967295], by decide⟩, []) ∧
        HDKey.zero.decryptPath ChaCha20Poly1305.plain (HDKey.zero.encryptPath
            ChaCha20Poly1305.plain ⟨[23, 24, 255, 256, 65535, 65536, 4294967295], by decide⟩) =
          .ok (some ⟨[23, 24, 255, 256, 65535, 65536, 4294967295], by decide⟩)) :=
  ⟨ChaCha20Poly1305.plain_inverts, HDKey.decryptPath_encryptPath _
    ChaCha20Poly1305.plain_inverts _ _ []⟩

/-- `decrypt_path` does not check that the plaintext ends with the path: a payload that
encrypts a path's CBOR followed by any bytes decrypts to the path. -/
theorem HDKey.decryptPath_ignores_tail (hC : C.Inverts) (k : HDKey) (p : Path) (tail : Bytes) :
    k.decryptPath C ⟨k.encrypt C (p.cbor ++ tail)⟩ = .ok (some p) := by
  rw [decryptPath, decrypt_encrypt C hC k (List.append_ne_nil_of_left_ne_nil p.cbor_ne_nil tail)]
  exact congrArg resultOk (p.fromCbor_cbor_append tail)

theorem HDKey.decryptPath_ignores_tail_one :
    ChaCha20Poly1305.plain.Inverts ∧
      HDKey.zero.decryptPath ChaCha20Poly1305.plain
          ⟨HDKey.zero.encrypt ChaCha20Poly1305.plain ((⟨[], by decide⟩ : Path).cbor ++ [1])⟩ =
        .ok (some ⟨[], by decide⟩) :=
  ⟨ChaCha20Poly1305.plain_inverts,
    HDKey.decryptPath_ignores_tail _ ChaCha20Poly1305.plain_inverts _ ⟨[], by decide⟩ [1]⟩

/-! ## Decryption answers -/

/-- A path read from fewer than `2 ^ 61` bytes cannot hold too many indices: `from_cbor`
returns a path or a CBOR error, and never panics. -/
theorem Path.fromCbor_ne_panic {bytes : Bytes} (hlen : bytes.length < 2 ^ 61) (msg : String) :
    Path.fromCbor bytes ≠ .error (.panic msg) := by
  intro h
  unfold fromCbor at h
  cases hrun : (readArray deserializeU32 deserializeU32_consumes).run bytes with
  | error e =>
    rw [hrun] at h
    cases h
    exact (readArray_panicsOnly (deserializeU32_closed (@panicsOnly_closed fun _ => False)) _ _
      hrun).elim
  | ok r =>
    rw [hrun] at h
    dsimp only [bind, Except.bind] at h
    rw [dif_pos (lt_trans (readArray_length hrun) hlen)] at h
    cases h

/-- `decrypt_path` always answers, with a path or `None`, on a payload at least as long as the
tag and shorter than `2 ^ 61` bytes: below the tag's length it panics, and the capacity
overflow needs more indices than such a payload holds. -/
theorem HDKey.decryptPath_answers (hC : C.DecryptLength) (k : HDKey) {payload : HDAddressPayload}
    (hlen : tagLen ≤ payload.bytes.length) (hfit : payload.bytes.length < 2 ^ 61) :
    ∃ r, k.decryptPath C payload = .ok r := by
  rcases hlen.eq_or_lt with heq | hgt
  · exact ⟨none, by rw [decryptPath, decrypt_of_eq C k heq.symm]; rfl⟩
  · rw [decryptPath, decrypt_of_gt C k hgt]
    dsimp only [bind, Except.bind]
    split
    · exact ⟨none, rfl⟩
    · next out hout =>
      have hout_len : out.length < 2 ^ 61 := by
        rw [hC _ _ _ _ _ _ hout, List.length_take]
        omega
      cases hpath : Path.fromCbor out with
      | ok p => exact ⟨some p, rfl⟩
      | error e =>
        cases e with
        | read e => exact ⟨none, rfl⟩
        | panic msg => exact absurd hpath (Path.fromCbor_ne_panic hout_len msg)

/-- The concrete cipher returns as many bytes as it is given. -/
theorem ChaCha20Poly1305.plain_decryptLength : ChaCha20Poly1305.plain.DecryptLength := by
  intro key nonce aad input tag out h
  dsimp only [plain] at h
  split_ifs at h
  cases h
  rfl

theorem HDKey.decryptPath_answers_zeros :
    ChaCha20Poly1305.plain.DecryptLength ∧
    tagLen ≤ (⟨List.replicate 20 0⟩ : HDAddressPayload).bytes.length ∧
    (⟨List.replicate 20 0⟩ : HDAddressPayload).bytes.length < 2 ^ 61 ∧
    ∃ r, HDKey.zero.decryptPath ChaCha20Poly1305.plain ⟨List.replicate 20 0⟩ = .ok r :=
  ⟨ChaCha20Poly1305.plain_decryptLength, by decide, by decide,
    HDKey.decryptPath_answers _ ChaCha20Poly1305.plain_decryptLength _ (by decide) (by decide)⟩

end RustCardano
