import RustCardano.Key

/-!
# Stake pool information

`stake/role.rs`: a stake pool is a `u128` serial, a list of owner keys and the pool's initial
Genesis-Praos leader keys. `serialize` asserts that the owner count fits the `u8` that
precedes the owners, and `read` reads the same count, owners and keys back in the same order.
-/

namespace RustCardano

open Reader

variable {Ed25519Extended Kes Vrf : AsymmetricKey}

/-- `StakeKeyId(PublicKey<Ed25519Extended>)`. -/
structure StakeKeyId (Ed25519Extended : AsymmetricKey) where
  key : PublicKey Ed25519Extended
  deriving DecidableEq

/-- `GenesisPraosLeader`: the KES and the VRF public keys of a pool. -/
structure GenesisPraosLeader (Kes Vrf : AsymmetricKey) where
  kesPublicKey : PublicKey Kes
  vrfPublicKey : PublicKey Vrf
  deriving DecidableEq

/-- `StakePoolInfo`. -/
structure StakePoolInfo (Ed25519Extended Kes Vrf : AsymmetricKey) where
  serial : BitVec 128
  owners : List (StakeKeyId Ed25519Extended)
  initialKey : GenesisPraosLeader Kes Vrf
  deriving DecidableEq

/-- `GenesisPraosLeader::serialize`: the KES key, then the VRF key. -/
def GenesisPraosLeader.serialize (l : GenesisPraosLeader Kes Vrf) : Bytes :=
  serializePublicKey l.kesPublicKey ++ serializePublicKey l.vrfPublicKey

/-- `GenesisPraosLeader::read`: the KES key, then the VRF key. -/
def GenesisPraosLeader.read (Kes Vrf : AsymmetricKey) : Reader (GenesisPraosLeader Kes Vrf) := do
  let kesPublicKey ← deserializePublicKey Kes
  let vrfPublicKey ← deserializePublicKey Vrf
  pure { vrfPublicKey, kesPublicKey }

/-- The text of `assert!(self.owners.len() < 256)`. -/
def ownersAssertion : Failure := .panic "assertion failed: self.owners.len() < 256"

/-- `StakePoolInfo::serialize`: the assertion on the owner count, then the serial, the count
as `u8`, each owner key and the initial leader keys. -/
def StakePoolInfo.serialize (p : StakePoolInfo Ed25519Extended Kes Vrf) : Except Failure Bytes :=
  if p.owners.length < 256 then
    .ok (putU128 p.serial ++ putU8 (UInt8.ofNat p.owners.length) ++
      p.owners.flatMap (fun o => serializePublicKey o.key) ++ p.initialKey.serialize)
  else .error ownersAssertion

/-- One iteration of the owner loop of `StakePoolInfo::read`. -/
def StakeKeyId.read (Ed25519Extended : AsymmetricKey) : Reader (StakeKeyId Ed25519Extended) := do
  let pubKey ← deserializePublicKey Ed25519Extended
  pure ⟨pubKey⟩

/-- `StakePoolInfo::read`: the serial, the owner count, that many owner keys (the `for` loop,
which reads as `read_vec` does), then the initial leader keys. -/
def StakePoolInfo.read (Ed25519Extended Kes Vrf : AsymmetricKey) :
    Reader (StakePoolInfo Ed25519Extended Kes Vrf) := do
  let serial ← getU128
  let ownerNb ← getU8
  let owners ← readVec (StakeKeyId.read Ed25519Extended) ownerNb.toNat
  let initialKey ← GenesisPraosLeader.read Kes Vrf
  pure { serial, owners, initialKey }

/-- A leader's keys read back from their bytes, whatever follows. -/
theorem GenesisPraosLeader.read_serialize (l : GenesisPraosLeader Kes Vrf) (s : Bytes) :
    (GenesisPraosLeader.read Kes Vrf).run (l.serialize ++ s) = .ok (l, s) := by
  rw [read, serialize, List.append_assoc, run_bind_of_ok (deserializePublicKey_serialize _ _),
    run_bind_of_ok (deserializePublicKey_serialize _ _)]
  rfl

/-- A stake key id reads back from its key's bytes, whatever follows. -/
theorem StakeKeyId.read_serialize (o : StakeKeyId Ed25519Extended) (s : Bytes) :
    (StakeKeyId.read Ed25519Extended).run (serializePublicKey o.key ++ s) = .ok (o, s) := by
  rw [read, run_bind_of_ok (deserializePublicKey_serialize _ _)]
  rfl

/-- For a pool of fewer than 256 owners, `serialize` returns bytes from which `read` gets the
pool back, serial, owners in order and both leader keys, and leaves the suffix unread. -/
theorem StakePoolInfo.read_serialize_of_owners_lt (p : StakePoolInfo Ed25519Extended Kes Vrf)
    (howners : p.owners.length < 256) (s : Bytes) :
    ∃ bs, p.serialize = .ok bs ∧
      (StakePoolInfo.read Ed25519Extended Kes Vrf).run (bs ++ s) = .ok (p, s) := by
  refine ⟨_, if_pos howners, ?_⟩
  have hcount : (UInt8.ofNat p.owners.length).toNat = p.owners.length :=
    Nat.mod_eq_of_lt howners
  simp only [List.append_assoc]
  rw [read, run_bind_of_ok (getU128_putU128 _ _), run_bind_of_ok (getU8_putU8 _ _), hcount,
    run_bind_of_ok (readVec_flatMap StakeKeyId.read_serialize _ _),
    run_bind_of_ok (GenesisPraosLeader.read_serialize _ _)]
  rfl

theorem StakePoolInfo.read_serialize_one_owner :
    (⟨1, [⟨ed25519.zeroKey⟩], ⟨ed25519.zeroKey, ed25519.zeroKey⟩⟩ :
      StakePoolInfo ed25519 ed25519 ed25519).owners.length < 256 ∧
    ∃ bs, (⟨1, [⟨ed25519.zeroKey⟩], ⟨ed25519.zeroKey, ed25519.zeroKey⟩⟩ :
        StakePoolInfo ed25519 ed25519 ed25519).serialize = .ok bs ∧
      (StakePoolInfo.read ed25519 ed25519 ed25519).run (bs ++ []) =
        .ok (⟨1, [⟨ed25519.zeroKey⟩], ⟨ed25519.zeroKey, ed25519.zeroKey⟩⟩, []) :=
  ⟨by decide, read_serialize_of_owners_lt _ (by decide) []⟩

/-! ## What `read` accepts -/

/-- Whatever `StakeKeyId::read` accepts is the key's bytes, then what it leaves. -/
theorem StakeKeyId.eq_serialize_of_read {buf rest : Bytes} {o : StakeKeyId Ed25519Extended}
    (h : (StakeKeyId.read Ed25519Extended).run buf = .ok (o, rest)) :
    buf = serializePublicKey o.key ++ rest := by
  obtain ⟨key, mid, hkey, ho⟩ := run_bind_eq_ok.mp h
  cases ho
  exact FixedBytes.serialize_of_read hkey

/-- Whatever `GenesisPraosLeader::read` accepts is the leader's serialization, then what it
leaves. -/
theorem GenesisPraosLeader.eq_serialize_of_read {buf rest : Bytes}
    {l : GenesisPraosLeader Kes Vrf}
    (h : (GenesisPraosLeader.read Kes Vrf).run buf = .ok (l, rest)) :
    buf = l.serialize ++ rest := by
  obtain ⟨kes, mid, hkes, h⟩ := run_bind_eq_ok.mp h
  obtain ⟨vrf, mid', hvrf, hl⟩ := run_bind_eq_ok.mp h
  cases hl
  rw [FixedBytes.serialize_of_read hkes, FixedBytes.serialize_of_read hvrf, serialize,
    List.append_assoc]
  rfl

/-- Whatever `StakePoolInfo::read` accepts is the serialization of the pool it returns, then
the bytes it leaves: the count byte bounds the owners below 256, so `serialize` passes its
assertion on the pool and writes back exactly the bytes read. -/
theorem StakePoolInfo.read_eq_serialize {buf rest : Bytes}
    {p : StakePoolInfo Ed25519Extended Kes Vrf}
    (h : (StakePoolInfo.read Ed25519Extended Kes Vrf).run buf = .ok (p, rest)) :
    ∃ bs, p.serialize = .ok bs ∧ buf = bs ++ rest := by
  obtain ⟨serial, m₁, hserial, h⟩ := run_bind_eq_ok.mp h
  obtain ⟨ownerNb, m₂, hcount, h⟩ := run_bind_eq_ok.mp h
  obtain ⟨owners, m₃, howners, h⟩ := run_bind_eq_ok.mp h
  obtain ⟨initialKey, m₄, hkey, hp⟩ := run_bind_eq_ok.mp h
  cases hp
  obtain ⟨hlen, rfl⟩ := readVec_eq_ok (fun _ _ _ => StakeKeyId.eq_serialize_of_read) howners
  have hlt : owners.length < 256 := by rw [hlen]; exact ownerNb.toNat_lt_size
  have hnb : UInt8.ofNat owners.length = ownerNb := UInt8.toNat.inj
    (show (UInt8.ofNat owners.length).toNat = _ from (Nat.mod_eq_of_lt hlt).trans hlen)
  refine ⟨_, if_pos hlt, ?_⟩
  rw [getU128_eq_ok hserial, getU8_eq_ok.mp hcount, GenesisPraosLeader.eq_serialize_of_read hkey,
    hnb]
  simp only [putU8, List.append_assoc, List.cons_append, List.nil_append]

theorem StakePoolInfo.read_eq_serialize_one_owner :
    (StakePoolInfo.read ed25519 ed25519 ed25519).run
        (putU128 1 ++ putU8 1 ++ serializePublicKey ed25519.zeroKey ++
          serializePublicKey ed25519.zeroKey ++ serializePublicKey ed25519.zeroKey) =
      .ok (⟨1, [⟨ed25519.zeroKey⟩], ⟨ed25519.zeroKey, ed25519.zeroKey⟩⟩, []) ∧
    ∃ bs, (⟨1, [⟨ed25519.zeroKey⟩], ⟨ed25519.zeroKey, ed25519.zeroKey⟩⟩ :
        StakePoolInfo ed25519 ed25519 ed25519).serialize = .ok bs ∧
      putU128 1 ++ putU8 1 ++ serializePublicKey ed25519.zeroKey ++
          serializePublicKey ed25519.zeroKey ++ serializePublicKey ed25519.zeroKey = bs ++ [] :=
  have h : (StakePoolInfo.read ed25519 ed25519 ed25519).run
      (putU128 1 ++ putU8 1 ++ serializePublicKey ed25519.zeroKey ++
        serializePublicKey ed25519.zeroKey ++ serializePublicKey ed25519.zeroKey) =
      .ok (⟨1, [⟨ed25519.zeroKey⟩], ⟨ed25519.zeroKey, ed25519.zeroKey⟩⟩, []) := rfl
  ⟨h, read_eq_serialize h⟩

/-- The assertion stops `serialize` at 256 owners and more. -/
theorem StakePoolInfo.serialize_of_owners_ge (p : StakePoolInfo Ed25519Extended Kes Vrf)
    (howners : 256 ≤ p.owners.length) : p.serialize = .error ownersAssertion :=
  if_neg (Nat.not_lt.mpr howners)

/-! ## The pool id -/

/-- The bytes `StakePoolInfo::to_id` hashes: the serial's sixteen big-endian bytes
(`to_be_bytes`), each owner key's bytes, then the KES and the VRF keys' bytes. Unlike
`serialize`, it writes no owner count. -/
def StakePoolInfo.idBytes (p : StakePoolInfo Ed25519Extended Kes Vrf) : Bytes :=
  putU128 p.serial ++ p.owners.flatMap (fun o => o.key.bytes) ++
    p.initialKey.kesPublicKey.bytes ++ p.initialKey.vrfPublicKey.bytes

/-- `StakePoolId(Hash)`. -/
structure StakePoolId where
  hash : Hash 32
  deriving DecidableEq

/-- `StakePoolInfo::to_id`, with `Hash::hash_bytes` (Blake2b-256) as `hashBytes`. -/
def StakePoolInfo.toId (hashBytes : Bytes → Hash 32)
    (p : StakePoolInfo Ed25519Extended Kes Vrf) : StakePoolId :=
  ⟨hashBytes p.idBytes⟩

/-- Stake key ids with the same key bytes are the same. -/
theorem StakeKeyId.bytes_injective :
    Function.Injective (fun o : StakeKeyId Ed25519Extended => o.key.bytes) := by
  rintro ⟨a⟩ ⟨b⟩ (h : a.bytes = b.bytes)
  rw [FixedBytes.bytes_injective h]

/-- Leaders with the same KES and VRF keys are the same. -/
theorem GenesisPraosLeader.ext {l l' : GenesisPraosLeader Kes Vrf}
    (hkes : l.kesPublicKey = l'.kesPublicKey) (hvrf : l.vrfPublicKey = l'.vrfPublicKey) :
    l = l' := by
  cases l
  cases l'
  cases hkes
  cases hvrf
  rfl

/-- The hashed bytes are sixteen serial bytes, the owners at the owner key width, and the two
initial keys at their widths. -/
theorem StakePoolInfo.idBytes_length (p : StakePoolInfo Ed25519Extended Kes Vrf) :
    p.idBytes.length =
      16 + Ed25519Extended.publicWidth * p.owners.length + Kes.publicWidth + Vrf.publicWidth := by
  rw [idBytes, List.length_append, List.length_append, List.length_append, putU128_length,
    length_flatMap_of_width (fun o => o.key.length_eq), FixedBytes.length_eq, FixedBytes.length_eq]

/-- With owner keys of a positive width, as every scheme's keys are, the bytes `to_id` hashes
determine the pool: the serial, the owners (the same keys in the same order, as many) and the
initial keys. No owner count is hashed, but the owners take their width times their number. -/
theorem StakePoolInfo.idBytes_injective (hwidth : 0 < Ed25519Extended.publicWidth)
    {p q : StakePoolInfo Ed25519Extended Kes Vrf} (h : p.idBytes = q.idBytes) :
    p.serial = q.serial ∧ p.owners = q.owners ∧ p.initialKey = q.initialKey := by
  have hcount : p.owners.length = q.owners.length := by
    have hlen := congrArg List.length h
    rw [idBytes_length, idBytes_length] at hlen
    exact Nat.eq_of_mul_eq_mul_left hwidth (by omega)
  simp only [idBytes, List.append_assoc] at h
  obtain ⟨hserial, h⟩ := List.append_inj h (by rw [putU128_length, putU128_length])
  obtain ⟨howners, h⟩ :=
    flatMap_append_inj (fun o => o.key.length_eq) StakeKeyId.bytes_injective hcount h
  obtain ⟨hkes, hvrf⟩ := List.append_inj h (by rw [FixedBytes.length_eq, FixedBytes.length_eq])
  exact ⟨putU128_injective hserial, howners,
    GenesisPraosLeader.ext (FixedBytes.bytes_injective hkes) (FixedBytes.bytes_injective hvrf)⟩

/-- A pool of one owner, every key of the concrete scheme zero. -/
def StakePoolInfo.oneOwner : StakePoolInfo ed25519 ed25519 ed25519 :=
  ⟨1, [⟨ed25519.zeroKey⟩], ⟨ed25519.zeroKey, ed25519.zeroKey⟩⟩

theorem StakePoolInfo.idBytes_injective_one_owner :
    0 < ed25519.publicWidth ∧ oneOwner.idBytes = oneOwner.idBytes ∧
      (oneOwner.serial = oneOwner.serial ∧ oneOwner.owners = oneOwner.owners ∧
        oneOwner.initialKey = oneOwner.initialKey) :=
  ⟨by decide, rfl, StakePoolInfo.idBytes_injective (by decide) rfl⟩

end RustCardano
