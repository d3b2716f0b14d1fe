import RustCardano.Key

/-!
# Transaction witnesses

`transaction/witness.rs`: a witness is a one-byte tag followed by the variant's key and
signature bytes. The codec round-trips over all three variants, and every byte string the
reader accepts is the encoding of the witness it returns. The preimage of an account
witness is built by writing through an index of an empty vector, which panics whatever the
transaction and the counter.
-/

namespace RustCardano

open Reader

/-- Modelled from the spec: `TransactionId`, the 32-byte Blake2b-256 hash of a transaction. -/
abbrev TransactionId := Hash 32

/-- Modelled from the spec: `account::SpendingCounter`, a `u32` written big-endian. -/
structure SpendingCounter where
  counter : UInt32
  deriving DecidableEq

/-- `SpendingCounter::to_bytes`. -/
def SpendingCounter.toBytes (c : SpendingCounter) : Bytes := putU32 c.counter

/-- `WITNESS_TAG_OLDUTXO`. -/
def witnessTagOldUtxo : UInt8 := 0

/-- `WITNESS_TAG_UTXO`. -/
def witnessTagUtxo : UInt8 := 1

/-- `WITNESS_TAG_ACCOUNT`. -/
def witnessTagAccount : UInt8 := 2

/-- `v[i] = x` on a `Vec<u8>`: the index must be below the length, or the write panics. -/
def indexSet (v : Bytes) (i : Nat) (x : UInt8) : Except Failure Bytes :=
  if i < v.length then .ok (v.set i x)
  else .error (.panic s!"index out of bounds: the len is {v.length} but the index is {i}")

/-- `TransactionIdSpendingCounter`, the bytes an account witness signs. -/
structure TransactionIdSpendingCounter where
  bytes : Bytes
  deriving DecidableEq

/-- `TransactionIdSpendingCounter::new`: the tag is written at index 0 of a new, empty
vector, and the transaction id and the counter are appended after it. -/
def TransactionIdSpendingCounter.new (transactionId : TransactionId)
    (spendingCounter : SpendingCounter) : Except Failure TransactionIdSpendingCounter := do
  let v : Bytes := []
  let v ← indexSet v 0 witnessTagAccount
  let v := v ++ transactionId.bytes
  let v := v ++ spendingCounter.toBytes
  pure ⟨v⟩

variable (Ed25519Bip32 Spending : AsymmetricKey)

/-- `Witness`. `Utxo` and `Account` carry a spending signature; `OldUtxo` carries a legacy
extended public key and its signature. -/
inductive Witness where
  | utxo (sig : Signature Spending)
  | account (sig : Signature Spending)
  | oldUtxo (xpub : PublicKey Ed25519Bip32) (sig : Signature Ed25519Bip32)
  deriving DecidableEq

/-- `Witness::new_account`: sign the preimage `TransactionIdSpendingCounter::new` builds, with
the scheme's signing function `generate`. -/
def Witness.newAccount {SecretKey : Type} (generate : SecretKey → Bytes → Signature Spending)
    (transactionId : TransactionId) (spendingCounter : SpendingCounter) (secretKey : SecretKey) :
    Except Failure (Witness Ed25519Bip32 Spending) := do
  let preimage ← TransactionIdSpendingCounter.new transactionId spendingCounter
  pure (.account (generate secretKey preimage.bytes))

variable {Ed25519Bip32 Spending}

/-- `Witness::serialize`: the tag byte, then the variant's keys and signatures. -/
def Witness.serialize : Witness Ed25519Bip32 Spending → Bytes
  | .oldUtxo xpub sig =>
    putU8 witnessTagOldUtxo ++ serializePublicKey xpub ++ serializeSignature sig
  | .utxo sig => putU8 witnessTagUtxo ++ serializeSignature sig
  | .account sig => putU8 witnessTagAccount ++ serializeSignature sig

variable (Ed25519Bip32 Spending)

/-- `Witness::read`: dispatch on the tag byte; any other tag is `UnknownTag`. -/
def Witness.read : Reader (Witness Ed25519Bip32 Spending) := do
  let tag ← getU8
  if tag = witnessTagOldUtxo then
    let xpub ← deserializePublicKey Ed25519Bip32
    let sig ← deserializeSignature Ed25519Bip32
    pure (.oldUtxo xpub sig)
  else if tag = witnessTagUtxo then
    let sig ← deserializeSignature Spending
    pure (.utxo sig)
  else if tag = witnessTagAccount then
    let sig ← deserializeSignature Spending
    pure (.account sig)
  else
    fail (.read (.unknownTag tag.toUInt32))

/-! ## The codec -/

variable {Ed25519Bip32 Spending}

/-- Every witness reads back from its encoding, whatever follows. -/
theorem Witness.read_serialize (w : Witness Ed25519Bip32 Spending) (s : Bytes) :
    (Witness.read Ed25519Bip32 Spending).run (w.serialize ++ s) = .ok (w, s) := by
  cases w with
  | utxo sig =>
    rw [serialize, List.append_assoc, read, run_bind_of_ok (getU8_putU8 _ _),
      if_neg (by decide), if_pos rfl, run_bind_of_ok (deserializeSignature_serialize _ _)]
    rfl
  | account sig =>
    rw [serialize, List.append_assoc, read, run_bind_of_ok (getU8_putU8 _ _),
      if_neg (by decide), if_neg (by decide), if_pos rfl,
      run_bind_of_ok (deserializeSignature_serialize _ _)]
    rfl
  | oldUtxo xpub sig =>
    rw [serialize, List.append_assoc, List.append_assoc, read, run_bind_of_ok (getU8_putU8 _ _),
      if_pos rfl, run_bind_of_ok (deserializePublicKey_serialize _ _),
      run_bind_of_ok (deserializeSignature_serialize _ _)]
    rfl

/-- Whatever `Witness::read` accepts is the encoding of the witness it returns, followed by
the bytes it leaves. -/
theorem Witness.serialize_of_read {buf rest : Bytes} {w : Witness Ed25519Bip32 Spending}
    (h : (Witness.read Ed25519Bip32 Spending).run buf = .ok (w, rest)) :
    buf = w.serialize ++ rest := by
  obtain ⟨tag, mid, htag, hbody⟩ := run_bind_eq_ok.mp h
  rw [getU8_eq_ok.mp htag]
  split_ifs at hbody with hold hutxo haccount
  · obtain ⟨xpub, mid', hxpub, hsig⟩ := run_bind_eq_ok.mp hbody
    obtain ⟨sig, mid'', hsig, hpure⟩ := run_bind_eq_ok.mp hsig
    cases hpure
    rw [FixedBytes.serialize_of_read hxpub, FixedBytes.serialize_of_read hsig, hold]
    simp [serialize, serializePublicKey, serializeSignature, putU8]
  · obtain ⟨sig, mid', hsig, hpure⟩ := run_bind_eq_ok.mp hbody
    cases hpure
    rw [FixedBytes.serialize_of_read hsig, hutxo]
    rfl
  · obtain ⟨sig, mid', hsig, hpure⟩ := run_bind_eq_ok.mp hbody
    cases hpure
    rw [FixedBytes.serialize_of_read hsig, haccount]
    rfl
  · cases hbody

/-- A tag byte other than the three witness tags is `UnknownTag`, with the byte widened. -/
theorem Witness.read_unknownTag {tag : UInt8} (htag : 2 < tag.toNat) (s : Bytes) :
    (Witness.read Ed25519Bip32 Spending).run (tag :: s) =
      .error (.read (.unknownTag tag.toUInt32)) := by
  have hne : ∀ n : UInt8, n.toNat ≤ 2 → tag ≠ n := fun n hn h => by subst h; omega
  rw [read, run_bind_of_ok (getU8_cons _ _), if_neg (hne _ (by decide)),
    if_neg (hne _ (by decide)), if_neg (hne _ (by decide))]
  rfl

/-- `Witness::serialize` and `Witness::read` are inverse over the whole format: every witness
reads back from its encoding and leaves the suffix, every accepted byte string is an encoding,
and a first byte outside `{0, 1, 2}` is `UnknownTag`. -/
theorem Witness.witness_codec_inverse :
    (∀ (w : Witness Ed25519Bip32 Spending) (s : Bytes),
      (Witness.read Ed25519Bip32 Spending).run (w.serialize ++ s) = .ok (w, s)) ∧
    (∀ (buf rest : Bytes) (w : Witness Ed25519Bip32 Spending),
      (Witness.read Ed25519Bip32 Spending).run buf = .ok (w, rest) →
        buf = w.serialize ++ rest) ∧
    (∀ (tag : UInt8) (s : Bytes), 2 < tag.toNat →
      (Witness.read Ed25519Bip32 Spending).run (tag :: s) =
        .error (.read (.unknownTag tag.toUInt32))) :=
  ⟨read_serialize, fun _ _ _ => serialize_of_read, fun _ s htag => read_unknownTag htag s⟩

/-! ## The account preimage -/

/-- `TransactionIdSpendingCounter::new` panics on every transaction id and counter: index 0
of the empty vector is out of bounds. `Witness::new_account`, which builds the preimage
first, panics with it. -/
theorem TransactionIdSpendingCounter.new_panics {SecretKey : Type}
    (generate : SecretKey → Bytes → Signature Spending) (transactionId : TransactionId)
    (spendingCounter : SpendingCounter) (secretKey : SecretKey) :
    TransactionIdSpendingCounter.new transactionId spendingCounter =
      .error (.panic "index out of bounds: the len is 0 but the index is 0") ∧
    Witness.newAccount Ed25519Bip32 Spending generate transactionId spendingCounter secretKey =
      .error (.panic "index out of bounds: the len is 0 but the index is 0") :=
  ⟨rfl, rfl⟩

/-! ## Verification -/

section Verification

variable {SecretKey : Type} {toPublic : SecretKey → PublicKey Spending}
  {generate : SecretKey → Bytes → Signature Spending}
  {verify : PublicKey Spending → Bytes → Signature Spending → Verification}

end Verification

end RustCardano
