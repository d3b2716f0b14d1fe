import RustCardano.Key

/-!
# Update proposals

`setting.rs`: an update proposal is a bag of optional settings, written as a stream of
`(u16 tag, payload)` records closed by the `End` tag. The reader dispatches on each tag in a
loop; every iteration reads at least the two tag bytes, which is the loop's termination
measure. A record read sets its field, so later records of a field override earlier ones.
-/

namespace RustCardano

open Reader

/-- Modelled from the spec: `ConsensusVersion`, numbered 1 for BFT and 2 for Genesis-Praos. -/
inductive ConsensusVersion where
  | bft
  | genesisPraos
  deriving DecidableEq, Repr

/-- The discriminant, `consensus_version as u16`. -/
def ConsensusVersion.toU16 : ConsensusVersion → UInt16
  | .bft => 1
  | .genesisPraos => 2

/-- `ConsensusVersion::from_u16`. -/
def ConsensusVersion.fromU16 (v : UInt16) : Option ConsensusVersion :=
  match v.toNat with
  | 1 => some .bft
  | 2 => some .genesisPraos
  | _ => none

@[simp] theorem ConsensusVersion.fromU16_toU16 (v : ConsensusVersion) :
    ConsensusVersion.fromU16 v.toU16 = some v := by
  cases v <;> rfl

/-- Modelled from the spec: `LinearFee`, three `u64` coefficients. -/
structure LinearFee where
  constant : UInt64
  coefficient : UInt64
  certificate : UInt64
  deriving DecidableEq, Repr

/-- Modelled from the spec: `bft::LeaderId`, a public key of the leaders' scheme, written as
its raw bytes. -/
structure LeaderId (Leader : AsymmetricKey) where
  key : PublicKey Leader
  deriving DecidableEq

/-- `LeaderId::serialize`. -/
def LeaderId.serialize {Leader : AsymmetricKey} (l : LeaderId Leader) : Bytes :=
  serializePublicKey l.key

/-- `LeaderId::read`. -/
def LeaderId.read (Leader : AsymmetricKey) : Reader (LeaderId Leader) := do
  let key ← deserializePublicKey Leader
  pure ⟨key⟩

@[simp] theorem LeaderId.read_serialize {Leader : AsymmetricKey} (l : LeaderId Leader)
    (s : Bytes) : (LeaderId.read Leader).run (l.serialize ++ s) = .ok (l, s) := by
  rw [LeaderId.read, LeaderId.serialize, run_bind_of_ok (deserializePublicKey_serialize _ s)]
  rfl

/-- A leader id's read has every closed property. -/
theorem LeaderId.read_closed {P : ∀ {α : Type}, Reader α → Prop} (hP : Reader.Closed P)
    (Leader : AsymmetricKey) : P (LeaderId.read Leader) :=
  hP.bind (FixedBytes.read_closed hP _) fun _ => hP.pure _

variable {Leader : AsymmetricKey}

/-- `UpdateProposal`: every setting is optional. -/
structure UpdateProposal (Leader : AsymmetricKey) where
  maxNumberOfTransactionsPerBlock : Option UInt32
  bootstrapKeySlotsPercentage : Option UInt8
  consensusVersion : Option ConsensusVersion
  bftLeaders : Option (List (LeaderId Leader))
  /-- Allow the creation of accounts without publishing a certificate. -/
  allowAccountCreation : Option Bool
  linearFees : Option LinearFee
  /-- The slot duration in seconds, at most 255. -/
  slotDuration : Option UInt8
  epochStabilityDepth : Option UInt32
  deriving DecidableEq

/-- `UpdateProposal::new`: no setting present. -/
def UpdateProposal.new : UpdateProposal Leader :=
  ⟨none, none, none, none, none, none, none, none⟩

/-- `UpdateTag`, the record tags of the update stream. -/
inductive UpdateTag where
  | «end»
  | maxNumberOfTransactionsPerBlock
  | bootstrapKeySlotsPercentage
  | consensusVersion
  | bftLeaders
  | allowAccountCreation
  | linearFee
  | slotDuration
  | epochStabilityDepth
  deriving DecidableEq, Repr

/-- The discriminant, `tag as u16`. -/
def UpdateTag.toU16 : UpdateTag → UInt16
  | .«end» => 0
  | .maxNumberOfTransactionsPerBlock => 1
  | .bootstrapKeySlotsPercentage => 2
  | .consensusVersion => 3
  | .bftLeaders => 4
  | .allowAccountCreation => 5
  | .linearFee => 6
  | .slotDuration => 7
  | .epochStabilityDepth => 8

/-- `UpdateTag::from_u16`, derived by `FromPrimitive`. -/
def UpdateTag.fromU16 (v : UInt16) : Option UpdateTag :=
  match v.toNat with
  | 0 => some .«end»
  | 1 => some .maxNumberOfTransactionsPerBlock
  | 2 => some .bootstrapKeySlotsPercentage
  | 3 => some .consensusVersion
  | 4 => some .bftLeaders
  | 5 => some .allowAccountCreation
  | 6 => some .linearFee
  | 7 => some .slotDuration
  | 8 => some .epochStabilityDepth
  | _ => none

@[simp] theorem UpdateTag.fromU16_toU16 (t : UpdateTag) : UpdateTag.fromU16 t.toU16 = some t := by
  cases t <;> rfl

/-- Exactly the tags above 8 are unknown. -/
theorem UpdateTag.fromU16_eq_none {v : UInt16} : UpdateTag.fromU16 v = none ↔ 8 < v.toNat := by
  unfold UpdateTag.fromU16
  split <;> simp only [reduceCtorEq, false_iff, true_iff, Nat.not_lt, imp_false] at * <;> omega

/-! ## Writing -/

/-- One `if let Some(x) = field { put tag; put payload }` block of `serialize`. -/
def optionalRecord {α : Type} (field : Option α) (tag : UpdateTag) (payload : α → Bytes) :
    Bytes :=
  match field with
  | some v => putU16 tag.toU16 ++ payload v
  | none => []

/-- The `BftLeaders` payload: the count as `u8`, then each leader id. -/
def bftLeadersPayload (leaders : List (LeaderId Leader)) : Bytes :=
  putU8 (UInt8.ofNat leaders.length) ++ leaders.flatMap LeaderId.serialize

/-- The `LinearFee` payload: constant, coefficient, certificate. -/
def linearFeePayload (fees : LinearFee) : Bytes :=
  putU64 fees.constant ++ putU64 fees.coefficient ++ putU64 fees.certificate

/-- `UpdateProposal::serialize`: the present fields in tag order, then `End`. -/
def UpdateProposal.serialize (p : UpdateProposal Leader) : Bytes :=
  optionalRecord p.maxNumberOfTransactionsPerBlock .maxNumberOfTransactionsPerBlock putU32 ++
  optionalRecord p.bootstrapKeySlotsPercentage .bootstrapKeySlotsPercentage putU8 ++
  optionalRecord p.consensusVersion .consensusVersion (fun v => putU16 v.toU16) ++
  optionalRecord p.bftLeaders .bftLeaders bftLeadersPayload ++
  optionalRecord p.allowAccountCreation .allowAccountCreation
    (fun b => putU8 (if b then 1 else 0)) ++
  optionalRecord p.linearFees .linearFee linearFeePayload ++
  optionalRecord p.slotDuration .slotDuration putU8 ++
  optionalRecord p.epochStabilityDepth .epochStabilityDepth putU32 ++
  putU16 UpdateTag.«end».toU16

/-! ## Reading -/

/-- What one record of the stream sets: its tag's field, to the value read. -/
inductive UpdateField (Leader : AsymmetricKey) where
  | maxNumberOfTransactionsPerBlock (v : UInt32)
  | bootstrapKeySlotsPercentage (v : UInt8)
  | consensusVersion (v : ConsensusVersion)
  | bftLeaders (v : List (LeaderId Leader))
  | allowAccountCreation (v : Bool)
  | linearFees (v : LinearFee)
  | slotDuration (v : UInt8)
  | epochStabilityDepth (v : UInt32)
  deriving DecidableEq

/-- The assignment `update.field = Some(value)` of a record's arm. -/
def UpdateField.set : UpdateField Leader → UpdateProposal Leader → UpdateProposal Leader
  | .maxNumberOfTransactionsPerBlock v, u => { u with maxNumberOfTransactionsPerBlock := some v }
  | .bootstrapKeySlotsPercentage v, u => { u with bootstrapKeySlotsPercentage := some v }
  | .consensusVersion v, u => { u with consensusVersion := some v }
  | .bftLeaders v, u => { u with bftLeaders := some v }
  | .allowAccountCreation v, u => { u with allowAccountCreation := some v }
  | .linearFees v, u => { u with linearFees := some v }
  | .slotDuration v, u => { u with slotDuration := some v }
  | .epochStabilityDepth v, u => { u with epochStabilityDepth := some v }

/-- The reads of one arm of the tag dispatch in `UpdateProposal::read`. `End` reads nothing
and answers `none`, which ends the loop. -/
def UpdateTag.readPayload (Leader : AsymmetricKey) : UpdateTag → Reader (Option (UpdateField Leader))
  | .«end» => pure none
  | .maxNumberOfTransactionsPerBlock => do
    let v ← getU32
    pure (some (.maxNumberOfTransactionsPerBlock v))
  | .bootstrapKeySlotsPercentage => do
    let v ← getU8
    pure (some (.bootstrapKeySlotsPercentage v))
  | .consensusVersion => do
    let version_u16 ← getU16
    match ConsensusVersion.fromU16 version_u16 with
    | some version => pure (some (.consensusVersion version))
    | none => fail (.read (.structureInvalid s!"Unrecognized consensus version {version_u16}"))
  | .bftLeaders => do
    let len ← getU8
    let leaders ← readVec (LeaderId.read Leader) len.toNat
    pure (some (.bftLeaders leaders))
  | .allowAccountCreation => do
    let boolean ← getU8
    pure (some (.allowAccountCreation (boolean != 0)))
  | .linearFee => do
    let constant ← getU64
    let coefficient ← getU64
    let certificate ← getU64
    pure (some (.linearFees ⟨constant, coefficient, certificate⟩))
  | .slotDuration => do
    let v ← getU8
    pure (some (.slotDuration v))
  | .epochStabilityDepth => do
    let v ← getU32
    pure (some (.epochStabilityDepth v))

/-- One iteration of the loop in `UpdateProposal::read`: a `u16` tag and its payload. A tag
that `from_u16` does not know reaches `panic!`. -/
def readRecord (Leader : AsymmetricKey) : Reader (Option (UpdateField Leader)) := do
  let tag ← getU16
  match UpdateTag.fromU16 tag with
  | some t => t.readPayload Leader
  | none => fail (.panic s!"Unrecognized update tag {tag}.")

/-- Every payload decoder is built from the reader primitives and fails only with
`ReadError`s. -/
theorem UpdateTag.readPayload_closed {P : ∀ {α : Type}, Reader α → Prop} (hP : Reader.Closed P)
    (t : UpdateTag) : P (t.readPayload Leader) := by
  cases t
  case «end» => exact hP.pure _
  case consensusVersion =>
    refine hP.bind hP.getU16 fun v => ?_
    split
    · exact hP.pure _
    · exact hP.failRead _
  case bftLeaders =>
    exact hP.bind hP.getU8 fun _ =>
      hP.bind (hP.readVec (LeaderId.read_closed hP _) _) fun _ => hP.pure _
  case linearFee =>
    exact hP.bind hP.getU64 fun _ => hP.bind hP.getU64 fun _ =>
      hP.bind hP.getU64 fun _ => hP.pure _
  case maxNumberOfTransactionsPerBlock | epochStabilityDepth =>
    exact hP.bind hP.getU32 fun _ => hP.pure _
  case bootstrapKeySlotsPercentage | allowAccountCreation | slotDuration =>
    exact hP.bind hP.getU8 fun _ => hP.pure _

/-- Every record consumes at least its two tag bytes. -/
theorem readRecord_length {buf rest : Bytes} {r : Option (UpdateField Leader)}
    (h : (readRecord Leader).run buf = .ok (r, rest)) : rest.length + 2 ≤ buf.length := by
  obtain ⟨tag, mid, htag, hpayload⟩ := run_bind_eq_ok.mp h
  have hmid := getU16_length htag
  have hrest : rest.length ≤ mid.length := by
    split at hpayload
    · exact UpdateTag.readPayload_closed shrinks_closed _ _ _ _ hpayload
    · cases hpayload
  omega

/-- The loop of `UpdateProposal::read`, from the proposal built so far. -/
def UpdateProposal.readFrom (update : UpdateProposal Leader) (buf : Bytes) :
    Except Failure (UpdateProposal Leader × Bytes) :=
  match h : (readRecord Leader).run buf with
  | .ok (none, rest) => .ok (update, rest)
  | .ok (some field, rest) => UpdateProposal.readFrom (field.set update) rest
  | .error e => .error e
termination_by buf.length
decreasing_by have := readRecord_length h; omega

/-- `UpdateProposal::read`. -/
def UpdateProposal.read (Leader : AsymmetricKey) : Reader (UpdateProposal Leader) :=
  ⟨UpdateProposal.readFrom .new⟩

/-! ## One iteration -/

namespace UpdateProposal

variable {update : UpdateProposal Leader} {buf rest : Bytes}

/-- The `End` record stops the loop with the proposal built so far. -/
theorem readFrom_of_none (h : (readRecord Leader).run buf = .ok (none, rest)) :
    update.readFrom buf = .ok (update, rest) := by
  rw [readFrom]
  split <;> simp_all

/-- A record of a field sets it and the loop goes on after it. -/
theorem readFrom_of_some {field : UpdateField Leader}
    (h : (readRecord Leader).run buf = .ok (some field, rest)) :
    update.readFrom buf = (field.set update).readFrom rest := by
  rw [readFrom]
  split <;> simp_all

/-- A record that fails to read fails the loop with its error. -/
theorem readFrom_of_error {e : Failure} (h : (readRecord Leader).run buf = .error e) :
    update.readFrom buf = .error e := by
  rw [readFrom]
  split <;> simp_all

end UpdateProposal

/-- A record with a known tag reads that tag's payload. -/
theorem readRecord_putU16 (t : UpdateTag) (buf : Bytes) :
    (readRecord Leader).run (putU16 t.toU16 ++ buf) = (t.readPayload Leader).run buf := by
  rw [readRecord, run_bind_of_ok (getU16_putU16 _ _), UpdateTag.fromU16_toU16]

/-- A leader list of fewer than 256 entries, written as `serialize` writes it, reads back. -/
theorem UpdateTag.readPayload_bftLeadersPayload {ls : List (LeaderId Leader)}
    (hlt : ls.length < 256) (rest : Bytes) :
    (UpdateTag.bftLeaders.readPayload Leader).run (bftLeadersPayload ls ++ rest) =
      .ok (some (.bftLeaders ls), rest) := by
  have hlen : (UInt8.ofNat ls.length).toNat = ls.length := Nat.mod_eq_of_lt hlt
  rw [UpdateTag.readPayload, bftLeadersPayload, List.append_assoc, run_bind_of_ok (getU8_putU8 _ _),
    hlen, run_bind_of_ok (readVec_flatMap LeaderId.read_serialize ls rest)]
  rfl

/-! ## Record streams -/

/-- A record of the update stream: its tag, the payload bytes after the tag, and the field
value that the tag's decoder reads from them. -/
structure UpdateRecord (Leader : AsymmetricKey) where
  tag : UpdateTag
  payload : Bytes
  field : UpdateField Leader

namespace UpdateRecord

/-- The record on the wire: the tag as `u16`, then the payload. -/
def bytes (r : UpdateRecord Leader) : Bytes := putU16 r.tag.toU16 ++ r.payload

/-- The tag's decoder reads exactly the payload, whatever follows it, and yields the field. -/
def Accepted (r : UpdateRecord Leader) : Prop :=
  ∀ rest, (r.tag.readPayload Leader).run (r.payload ++ rest) = .ok (some r.field, rest)

end UpdateRecord

/-- The proposal that records build from `update`, each setting its field in turn. -/
def UpdateProposal.setAll (update : UpdateProposal Leader) (records : List (UpdateRecord Leader)) :
    UpdateProposal Leader :=
  records.foldl (fun u r => r.field.set u) update

/-- Reading accepted records closed by `End` sets each record's field in order and stops
right after `End`. -/
theorem UpdateProposal.readFrom_records (records : List (UpdateRecord Leader))
    (haccepted : ∀ r ∈ records, r.Accepted) (update : UpdateProposal Leader) (s : Bytes) :
    update.readFrom (records.flatMap UpdateRecord.bytes ++ putU16 UpdateTag.«end».toU16 ++ s) =
      .ok (update.setAll records, s) := by
  induction records generalizing update with
  | nil => exact readFrom_of_none (readRecord_putU16 .«end» s)
  | cons r records ih =>
    have hr := haccepted r (List.mem_cons_self r records)
    have hrest := ih (fun r' hr' => haccepted r' (List.mem_cons_of_mem r hr')) (r.field.set update)
    simp only [List.flatMap_cons, UpdateRecord.bytes, List.append_assoc] at hrest ⊢
    rw [readFrom_of_some ((readRecord_putU16 r.tag _).trans (hr _)), hrest]
    rfl

/-! ## The value of each setting

The spec's account of a record stream, written without the reader's assignments: each
setting holds the value of the last record of that setting, and is absent when no record sets
it. `setAll`, the reader's fold of `UpdateField.set`, is proved equal to it. -/

/-- The last value present in a list of optional values, `none` when there is none. -/
def lastSome {α : Type} (l : List (Option α)) : Option α :=
  (l.filterMap id).getLast?

/-- Proposals taken in order: each setting holds the value of the last proposal that sets it,
and is absent when none does. -/
def UpdateProposal.merge (ps : List (UpdateProposal Leader)) : UpdateProposal Leader :=
  ⟨lastSome (ps.map (·.maxNumberOfTransactionsPerBlock)),
    lastSome (ps.map (·.bootstrapKeySlotsPercentage)), lastSome (ps.map (·.consensusVersion)),
    lastSome (ps.map (·.bftLeaders)), lastSome (ps.map (·.allowAccountCreation)),
    lastSome (ps.map (·.linearFees)), lastSome (ps.map (·.slotDuration)),
    lastSome (ps.map (·.epochStabilityDepth))⟩

/-- `u ⊕ p`: each field from `p` when present there, from `u` otherwise. -/
def UpdateProposal.override (u p : UpdateProposal Leader) : UpdateProposal Leader :=
  ⟨p.maxNumberOfTransactionsPerBlock.or u.maxNumberOfTransactionsPerBlock,
    p.bootstrapKeySlotsPercentage.or u.bootstrapKeySlotsPercentage,
    p.consensusVersion.or u.consensusVersion, p.bftLeaders.or u.bftLeaders,
    p.allowAccountCreation.or u.allowAccountCreation, p.linearFees.or u.linearFees,
    p.slotDuration.or u.slotDuration, p.epochStabilityDepth.or u.epochStabilityDepth⟩

/-- A value before more optional values is the last one only when none of them is present. -/
theorem lastSome_cons {α : Type} (o : Option α) (l : List (Option α)) :
    lastSome (o :: l) = (lastSome l).or o := by
  cases o with
  | none => exact Option.or_none.symm
  | some a =>
    show (a :: l.filterMap id).getLast? = (l.filterMap id).getLast?.or (some a)
    rw [List.getLast?_cons]
    cases (l.filterMap id).getLast? <;> rfl

namespace UpdateProposal

/-- The merge of `p` and the proposals after it is `p` overridden by their merge. -/
theorem merge_cons (p : UpdateProposal Leader) (ps : List (UpdateProposal Leader)) :
    merge (p :: ps) = p.override (merge ps) := by
  simp only [merge, override, List.map_cons, lastSome_cons]

end UpdateProposal

/-- One leader id of the concrete scheme: 32 zero bytes. -/
def zeroLeader : LeaderId ed25519 := ⟨ed25519.zeroKey⟩

/-- Records for concrete runs: a slot duration of 7, a list of one leader, then a slot
duration of 9. -/
def sampleRecords : List (UpdateRecord ed25519) :=
  [⟨.slotDuration, [7], .slotDuration 7⟩,
    ⟨.bftLeaders, bftLeadersPayload [zeroLeader], .bftLeaders [zeroLeader]⟩,
    ⟨.slotDuration, [9], .slotDuration 9⟩]

/-- Each sample record's decoder reads its payload into its field. -/
theorem sampleRecords_accepted : ∀ r ∈ sampleRecords, r.Accepted := by
  intro r hr
  simp only [sampleRecords, List.mem_cons, List.mem_singleton, List.not_mem_nil, or_false] at hr
  rcases hr with rfl | rfl | rfl
  case inr.inl => exact UpdateTag.readPayload_bftLeadersPayload (by decide)
  all_goals exact fun _ => rfl

/-- The sample stream reads to a leader list and a slot duration of 9. -/
theorem UpdateProposal.read_sampleRecords :
    (UpdateProposal.read ed25519).run
        (sampleRecords.flatMap UpdateRecord.bytes ++ putU16 UpdateTag.«end».toU16 ++ []) =
      .ok ({ (.new : UpdateProposal ed25519) with
          bftLeaders := some [zeroLeader], slotDuration := some 9 }, []) :=
  (readFrom_records _ sampleRecords_accepted .new []).trans rfl

/-! ## What `read` accepts -/

/-- What an arm of the tag dispatch answers: `End` reads nothing and answers `none`, and every
other tag answers a field; a leader list has fewer than 256 entries, its count being a `u8`. -/
theorem UpdateTag.readPayload_eq_ok {t : UpdateTag} {buf rest : Bytes}
    {r : Option (UpdateField Leader)} (h : (t.readPayload Leader).run buf = .ok (r, rest)) :
    (t = .«end» ∧ r = none ∧ rest = buf) ∨
      ∃ f, r = some f ∧ ∀ ls, f = .bftLeaders ls → ls.length < 256 := by
  cases t
  case «end» =>
    cases h
    exact .inl ⟨rfl, rfl, rfl⟩
  case bftLeaders =>
    obtain ⟨len, mid, -, h⟩ := run_bind_eq_ok.mp h
    obtain ⟨ls, mid', hls, h⟩ := run_bind_eq_ok.mp h
    cases h
    exact .inr ⟨_, rfl, fun _ h => by cases h; exact readVec_length hls ▸ len.toNat_lt_size⟩
  case consensusVersion =>
    obtain ⟨v, mid, -, h⟩ := run_bind_eq_ok.mp h
    split at h
    · cases h
      exact .inr ⟨_, rfl, fun _ h => by cases h⟩
    · cases h
  case linearFee =>
    obtain ⟨_, _, -, h⟩ := run_bind_eq_ok.mp h
    obtain ⟨_, _, -, h⟩ := run_bind_eq_ok.mp h
    obtain ⟨_, _, -, h⟩ := run_bind_eq_ok.mp h
    cases h
    exact .inr ⟨_, rfl, fun _ h => by cases h⟩
  all_goals
    obtain ⟨_, _, -, h⟩ := run_bind_eq_ok.mp h
    cases h
    exact .inr ⟨_, rfl, fun _ h => by cases h⟩

/-- A payload that reads as `none` whatever follows it is the empty payload of `End`: the loop
stops only there. -/
theorem UpdateTag.readPayload_eq_none {t : UpdateTag} {payload : Bytes}
    (h : ∀ s, (t.readPayload Leader).run (payload ++ s) = .ok (none, s)) :
    t = .«end» ∧ payload = [] := by
  rcases readPayload_eq_ok (h []) with ⟨rfl, -, hrest⟩ | ⟨f, hf, -⟩
  · exact ⟨rfl, (List.append_eq_nil.mp hrest.symm).1⟩
  · cases hf

/-- A `u16` that names a tag is that tag's code. -/
theorem UpdateTag.toU16_of_fromU16 {v : UInt16} {t : UpdateTag} (h : UpdateTag.fromU16 v = some t) :
    v = t.toU16 := by
  apply UInt16.toNat.inj
  unfold UpdateTag.fromU16 at h
  split at h <;> cases h <;> assumption

/-- What one iteration accepts: a known tag, then a payload that the tag's decoder reads,
whatever follows it, into the iteration's answer. -/
theorem readRecord_eq_ok {buf rest : Bytes} {r : Option (UpdateField Leader)}
    (h : (readRecord Leader).run buf = .ok (r, rest)) :
    ∃ (t : UpdateTag) (payload : Bytes), buf = putU16 t.toU16 ++ payload ++ rest ∧
      ∀ s, (t.readPayload Leader).run (payload ++ s) = .ok (r, s) := by
  obtain ⟨tag, mid, htag, hpayload⟩ := run_bind_eq_ok.mp h
  split at hpayload
  next t ht =>
    obtain ⟨payload, rfl, hrun⟩ := UpdateTag.readPayload_closed prefixed_closed t _ _ _ hpayload
    refine ⟨t, payload, ?_, hrun⟩
    rw [getU16_eq_ok htag, UpdateTag.toU16_of_fromU16 ht, List.append_assoc]
  next => cases hpayload

/-- From any stream position, what the loop accepts is records that their tags' decoders
accept, then `End`: the proposal is theirs set in order on the one it started from. -/
theorem UpdateProposal.readFrom_eq_ok (update : UpdateProposal Leader) (buf : Bytes)
    {p : UpdateProposal Leader} {rest : Bytes} (h : update.readFrom buf = .ok (p, rest)) :
    ∃ records : List (UpdateRecord Leader), (∀ r ∈ records, r.Accepted) ∧
      buf = records.flatMap UpdateRecord.bytes ++ putU16 UpdateTag.«end».toU16 ++ rest ∧
      p = update.setAll records := by
  induction update, buf using UpdateProposal.readFrom.induct with
  | case1 update buf rest' hrec =>
    rw [readFrom_of_none hrec] at h
    cases h
    obtain ⟨t, payload, rfl, hrun⟩ := readRecord_eq_ok hrec
    obtain ⟨rfl, rfl⟩ := UpdateTag.readPayload_eq_none hrun
    exact ⟨[], List.forall_mem_nil _, rfl, rfl⟩
  | case2 update buf field rest' hrec ih =>
    rw [readFrom_of_some hrec] at h
    obtain ⟨records, haccepted, rfl, rfl⟩ := ih h
    obtain ⟨t, payload, rfl, hrun⟩ := readRecord_eq_ok hrec
    refine ⟨⟨t, payload, field⟩ :: records, ?_, ?_, rfl⟩
    · rintro r (_ | ⟨_, hr⟩)
      exacts [hrun, haccepted r hr]
    · simp only [List.flatMap_cons, UpdateRecord.bytes, List.append_assoc]
  | case3 update buf e hrec =>
    rw [readFrom_of_error hrec] at h
    cases h

/-- The record that one `if let Some(x)` block of `serialize` writes, as a list of at most one. -/
def optionalRecords {α : Type} (field : Option α) (tag : UpdateTag) (payload : α → Bytes)
    (value : α → UpdateField Leader) : List (UpdateRecord Leader) :=
  (field.map fun v => ⟨tag, payload v, value v⟩).toList

/-- The record of one `if let Some(x)` block is written as `serialize` writes it. -/
theorem optionalRecords_bytes {α : Type} (field : Option α) (tag : UpdateTag)
    (payload : α → Bytes) (value : α → UpdateField Leader) :
    (optionalRecords field tag payload value).flatMap UpdateRecord.bytes =
      optionalRecord field tag payload := by
  cases field <;> simp [optionalRecords, optionalRecord, UpdateRecord.bytes]

/-- The records `serialize` writes: the present fields, in tag order. -/
def UpdateProposal.records (p : UpdateProposal Leader) : List (UpdateRecord Leader) :=
  optionalRecords p.maxNumberOfTransactionsPerBlock .maxNumberOfTransactionsPerBlock putU32
    .maxNumberOfTransactionsPerBlock ++
  optionalRecords p.bootstrapKeySlotsPercentage .bootstrapKeySlotsPercentage putU8
    .bootstrapKeySlotsPercentage ++
  optionalRecords p.consensusVersion .consensusVersion (fun v => putU16 v.toU16)
    .consensusVersion ++
  optionalRecords p.bftLeaders .bftLeaders bftLeadersPayload .bftLeaders ++
  optionalRecords p.allowAccountCreation .allowAccountCreation
    (fun b => putU8 (if b then 1 else 0)) .allowAccountCreation ++
  optionalRecords p.linearFees .linearFee linearFeePayload .linearFees ++
  optionalRecords p.slotDuration .slotDuration putU8 .slotDuration ++
  optionalRecords p.epochStabilityDepth .epochStabilityDepth putU32 .epochStabilityDepth

/-- `serialize` writes the proposal's records, then `End`. -/
theorem UpdateProposal.serialize_eq_records (p : UpdateProposal Leader) :
    p.serialize = p.records.flatMap UpdateRecord.bytes ++ putU16 UpdateTag.«end».toU16 := by
  simp only [serialize, records, List.flatMap_append, optionalRecords_bytes, List.append_assoc]

/-- Setting two runs of records is setting the first, then the second. -/
theorem UpdateProposal.setAll_append (u : UpdateProposal Leader)
    (rs rs' : List (UpdateRecord Leader)) : u.setAll (rs ++ rs') = (u.setAll rs).setAll rs' :=
  List.foldl_append _ _ _ _

/-- The record of one optional field, set on `u`, is the field's own update `upd`. -/
theorem UpdateProposal.setAll_optionalRecords {α : Type} (value : α → UpdateField Leader)
    (upd : Option α → UpdateProposal Leader → UpdateProposal Leader)
    (hnone : ∀ u, upd none u = u) (hsome : ∀ v u, (value v).set u = upd (some v) u)
    (field : Option α) (tag : UpdateTag) (payload : α → Bytes) (u : UpdateProposal Leader) :
    u.setAll (optionalRecords field tag payload value) = upd field u := by
  cases field with
  | none => exact (hnone u).symm
  | some v => exact hsome v u

/-- Setting the records of `p` on `u` overrides exactly the fields present in `p`. -/
theorem UpdateProposal.setAll_records (u p : UpdateProposal Leader) :
    u.setAll p.records = u.override p := by
  simp only [records, setAll_append]
  rw [setAll_optionalRecords .maxNumberOfTransactionsPerBlock (fun o u => { u with
      maxNumberOfTransactionsPerBlock := o.or u.maxNumberOfTransactionsPerBlock })
      (fun _ => rfl) (fun _ _ => rfl),
    setAll_optionalRecords .bootstrapKeySlotsPercentage (fun o u => { u with
      bootstrapKeySlotsPercentage := o.or u.bootstrapKeySlotsPercentage })
      (fun _ => rfl) (fun _ _ => rfl),
    setAll_optionalRecords .consensusVersion (fun o u => { u with consensusVersion := o.or u.consensusVersion })
      (fun _ => rfl) (fun _ _ => rfl),
    setAll_optionalRecords .bftLeaders (fun o u => { u with bftLeaders := o.or u.bftLeaders })
      (fun _ => rfl) (fun _ _ => rfl),
    setAll_optionalRecords .allowAccountCreation (fun o u => { u with
      allowAccountCreation := o.or u.allowAccountCreation })
      (fun _ => rfl) (fun _ _ => rfl),
    setAll_optionalRecords .linearFees (fun o u => { u with linearFees := o.or u.linearFees })
      (fun _ => rfl) (fun _ _ => rfl),
    setAll_optionalRecords .slotDuration (fun o u => { u with slotDuration := o.or u.slotDuration })
      (fun _ => rfl) (fun _ _ => rfl),
    setAll_optionalRecords .epochStabilityDepth (fun o u => { u with epochStabilityDepth := o.or u.epochStabilityDepth })
      (fun _ => rfl) (fun _ _ => rfl)]
  rfl

/-- Setting the fields of `p` in tag order on the empty proposal gives `p` back. -/
theorem UpdateProposal.new_setAll_records (p : UpdateProposal Leader) :
    UpdateProposal.new.setAll p.records = p := by
  rw [setAll_records]
  cases p
  simp [override, new]

/-- Every record `serialize` writes is accepted by its tag's decoder, provided the leader list
fits the `u8` count that precedes it. -/
theorem UpdateProposal.records_accepted (p : UpdateProposal Leader)
    (hleaders : ∀ ls, p.bftLeaders = some ls → ls.length < 256) :
    ∀ r ∈ p.records, r.Accepted := by
  intro r hr rest
  simp only [records, optionalRecords, List.mem_append, Option.mem_toList, Option.mem_def,
    Option.map_eq_some'] at hr
  rcases hr with ((((((⟨v, -, rfl⟩ | ⟨v, -, rfl⟩) | ⟨v, -, rfl⟩) | ⟨ls, hls, rfl⟩) | ⟨b, -, rfl⟩) |
    ⟨fees, -, rfl⟩) | ⟨v, -, rfl⟩) | ⟨v, -, rfl⟩
  · rw [UpdateTag.readPayload, run_bind_of_ok (getU32_putU32 v rest)]
    rfl
  · rw [UpdateTag.readPayload, run_bind_of_ok (getU8_putU8 v rest)]
    rfl
  · rw [UpdateTag.readPayload, run_bind_of_ok (getU16_putU16 _ rest),
      ConsensusVersion.fromU16_toU16]
    rfl
  · exact UpdateTag.readPayload_bftLeadersPayload (hleaders ls hls) rest
  · exact (run_bind_of_ok (getU8_putU8 _ rest)).trans (by cases b <;> rfl)
  · rw [UpdateTag.readPayload, linearFeePayload, List.append_assoc, List.append_assoc,
      run_bind_of_ok (getU64_putU64 _ _), run_bind_of_ok (getU64_putU64 _ _),
      run_bind_of_ok (getU64_putU64 _ _)]
    rfl
  · rw [UpdateTag.readPayload, run_bind_of_ok (getU8_putU8 v rest)]
    rfl
  · rw [UpdateTag.readPayload, run_bind_of_ok (getU32_putU32 v rest)]
    rfl

/-- `UpdateProposal::read` inverts `serialize` on every proposal whose leader list, when
present, has fewer than 256 entries, and leaves the suffix unread. -/
theorem UpdateProposal.read_serialize_of_leaders_fit (p : UpdateProposal Leader)
    (hleaders : ∀ ls, p.bftLeaders = some ls → ls.length < 256) (s : Bytes) :
    (UpdateProposal.read Leader).run (p.serialize ++ s) = .ok (p, s) := by
  rw [serialize_eq_records]
  exact (readFrom_records _ (p.records_accepted hleaders) .new s).trans
    (by rw [new_setAll_records])

theorem UpdateProposal.read_serialize_one_leader :
    (∀ ls, ({ (UpdateProposal.new : UpdateProposal ed25519) with bftLeaders := some [zeroLeader] } :
      UpdateProposal ed25519).bftLeaders = some ls → ls.length < 256) ∧
    (UpdateProposal.read ed25519).run
        (({ (UpdateProposal.new : UpdateProposal ed25519) with bftLeaders := some [zeroLeader] } :
          UpdateProposal ed25519).serialize ++ []) =
      .ok ({ (UpdateProposal.new : UpdateProposal ed25519) with
        bftLeaders := some [zeroLeader] }, []) := by
  have hleaders : ∀ ls, ({ (UpdateProposal.new : UpdateProposal ed25519) with bftLeaders := some [zeroLeader] } :
      UpdateProposal ed25519).bftLeaders = some ls → ls.length < 256 := by
    rintro ls ⟨⟩
    decide
  exact ⟨hleaders, read_serialize_of_leaders_fit _ hleaders []⟩

/-- A proposal with only a leader list whose count byte wraps to 0 and whose first leader
begins with two zero bytes reads back with an empty leader list: the zeros read as `End`. -/
theorem UpdateProposal.read_serialize_wrapped_leaders (ls : List (LeaderId Leader))
    (hcount : UInt8.ofNat ls.length = 0) {tail : Bytes}
    (hzeros : ls.flatMap LeaderId.serialize = putU16 UpdateTag.«end».toU16 ++ tail) (s : Bytes) :
    (UpdateProposal.read Leader).run
        (({ (UpdateProposal.new : UpdateProposal Leader) with bftLeaders := some ls }).serialize ++ s) =
      .ok ({ (UpdateProposal.new : UpdateProposal Leader) with bftLeaders := some [] },
        tail ++ (putU16 UpdateTag.«end».toU16 ++ s)) := by
  have hbytes : ({ (UpdateProposal.new : UpdateProposal Leader) with bftLeaders := some ls } :
      UpdateProposal Leader).serialize ++ s = putU16 UpdateTag.bftLeaders.toU16 ++
      (putU8 0 ++ (putU16 UpdateTag.«end».toU16 ++ (tail ++ (putU16 UpdateTag.«end».toU16 ++ s)))) := by
    simp only [serialize, optionalRecord, new, bftLeadersPayload, hcount, hzeros, List.append_nil,
      List.nil_append, List.append_assoc]
  have hbft : (readRecord Leader).run (putU16 UpdateTag.bftLeaders.toU16 ++
      (putU8 0 ++ (putU16 UpdateTag.«end».toU16 ++ (tail ++ (putU16 UpdateTag.«end».toU16 ++ s))))) =
      .ok (some (.bftLeaders []), putU16 UpdateTag.«end».toU16 ++
        (tail ++ (putU16 UpdateTag.«end».toU16 ++ s))) :=
    (readRecord_putU16 _ _).trans rfl
  rw [UpdateProposal.read, hbytes]
  exact (readFrom_of_some hbft).trans (readFrom_of_none (readRecord_putU16 .«end» _))

/-- The zero leader's bytes start with the `End` tag's code. -/
theorem zeroLeader_serialize :
    zeroLeader.serialize = putU16 UpdateTag.«end».toU16 ++ List.replicate 30 0 := rfl

/-- With 256 leaders `serialize` writes the count `256 as u8`, that is 0: the reader takes an
empty leader list, and the round trip fails. -/
theorem UpdateProposal.read_serialize_256_leaders :
    ¬ ∀ (p : UpdateProposal ed25519) (s : Bytes),
      (UpdateProposal.read ed25519).run (p.serialize ++ s) = .ok (p, s) := by
  intro h
  have hzeros : (zeroLeader :: List.replicate 255 zeroLeader).flatMap LeaderId.serialize =
      putU16 UpdateTag.«end».toU16 ++
        (List.replicate 30 0 ++ (List.replicate 255 zeroLeader).flatMap LeaderId.serialize) := by
    rw [List.flatMap_cons, zeroLeader_serialize, List.append_assoc]
  have hread := (read_serialize_wrapped_leaders (zeroLeader :: List.replicate 255 zeroLeader)
    (by rw [List.length_cons, List.length_replicate]; rfl) hzeros []).symm.trans
    (h { (UpdateProposal.new : UpdateProposal ed25519) with
      bftLeaders := some (zeroLeader :: List.replicate 255 zeroLeader) } [])
  injection hread with hpair
  injection hpair with hproposal
  injection hproposal with _ _ _ hleaders
  exact List.cons_ne_nil _ _ (Option.some.inj hleaders).symm

/-- A record whose tag `from_u16` does not know, after any stream position, panics. -/
theorem UpdateProposal.readFrom_unknown_tag (update : UpdateProposal Leader) {tag : UInt16}
    (htag : 8 < tag.toNat) (rest : Bytes) :
    update.readFrom (putU16 tag ++ rest) = .error (.panic s!"Unrecognized update tag {tag}.") := by
  apply readFrom_of_error
  rw [readRecord, run_bind_of_ok (getU16_putU16 _ _), UpdateTag.fromU16_eq_none.mpr htag]
  rfl

/-- `UpdateProposal::read` panics on the unknown tag 9, where the spec asks for `UnknownTag`. -/
theorem UpdateProposal.read_tag_nine :
    8 < (9 : UInt16).toNat ∧
    (UpdateProposal.read ed25519).run (putU16 9 ++ []) =
      .error (.panic s!"Unrecognized update tag {(9 : UInt16)}.") :=
  ⟨by decide, readFrom_unknown_tag .new (by decide) []⟩

/-! ## Settings -/

/-- `Settings`, the parameters in force. The leaders and the fees are shared through `Arc`;
the model keeps their values. `epoch_stability_depth` is a `usize`, 64 bits wide on the
node's targets. -/
structure Settings (Leader : AsymmetricKey) where
  maxNumberOfTransactionsPerBlock : UInt32
  /-- `d * 100`. -/
  bootstrapKeySlotsPercentage : UInt8
  consensusVersion : ConsensusVersion
  bftLeaders : List (LeaderId Leader)
  /-- Allow the creation of accounts without the certificate. -/
  allowAccountCreation : Bool
  linearFees : LinearFee
  slotDuration : UInt8
  epochStabilityDepth : UInt64
  deriving DecidableEq

/-- `SLOTS_PERCENTAGE_RANGE`. -/
def slotsPercentageRange : UInt8 := 100

/-- `Settings::new`: a hundred transactions per block, BFT with no leaders, no account
creation, zero fees, ten-second slots and a stability depth of ten blocks. -/
def Settings.new : Settings Leader :=
  ⟨100, slotsPercentageRange, .bft, [], false, ⟨0, 0, 0⟩, 10, 10⟩

/-- One `if let Some(v) = field { new_state.<field> = v; }` block of `Settings::apply`. -/
def ifLetSome {α σ : Type} (field : Option α) (set : α → σ → σ) (state : σ) : σ :=
  match field with
  | some v => set v state
  | none => state

/-- `Settings::apply`: a clone of the settings, then one block per field of the update, in
the fields' order; `epoch_stability_depth as usize` widens the `u32`. -/
def Settings.apply (s : Settings Leader) (update : UpdateProposal Leader) : Settings Leader :=
  let newState := s
  let newState := ifLetSome update.maxNumberOfTransactionsPerBlock
    (fun v st => { st with maxNumberOfTransactionsPerBlock := v }) newState
  let newState := ifLetSome update.bootstrapKeySlotsPercentage
    (fun v st => { st with bootstrapKeySlotsPercentage := v }) newState
  let newState := ifLetSome update.consensusVersion
    (fun v st => { st with consensusVersion := v }) newState
  let newState := ifLetSome update.bftLeaders
    (fun leaders st => { st with bftLeaders := leaders }) newState
  let newState := ifLetSome update.allowAccountCreation
    (fun v st => { st with allowAccountCreation := v }) newState
  let newState := ifLetSome update.linearFees
    (fun v st => { st with linearFees := v }) newState
  let newState := ifLetSome update.slotDuration
    (fun v st => { st with slotDuration := v }) newState
  ifLetSome update.epochStabilityDepth
    (fun v st => { st with epochStabilityDepth := v.toUInt64 }) newState

/-- `apply` in the spec's words: the settings with each field present in the proposal
replaced by the proposal's value, the stability depth widened from `u32`, and every other
field kept. -/
def Settings.overwrite (s : Settings Leader) (p : UpdateProposal Leader) : Settings Leader :=
  ⟨p.maxNumberOfTransactionsPerBlock.getD s.maxNumberOfTransactionsPerBlock,
    p.bootstrapKeySlotsPercentage.getD s.bootstrapKeySlotsPercentage,
    p.consensusVersion.getD s.consensusVersion, p.bftLeaders.getD s.bftLeaders,
    p.allowAccountCreation.getD s.allowAccountCreation, p.linearFees.getD s.linearFees,
    p.slotDuration.getD s.slotDuration,
    (p.epochStabilityDepth.map UInt32.toUInt64).getD s.epochStabilityDepth⟩

/-- A block writes the field's value when the field is present and keeps the state otherwise:
either way it is the setter applied to `field.getD` of what the state holds. -/
theorem ifLetSome_eq_getD {α σ : Type} (field : Option α) {set : α → σ → σ} (get : σ → α)
    (hset : ∀ st, set (get st) st = st) (st : σ) :
    ifLetSome field set st = set (field.getD (get st)) st := by
  cases field with
  | none => exact (hset st).symm
  | some v => rfl

/-- `apply` is the spec's field-by-field overwrite. -/
theorem Settings.apply_eq_overwrite (s : Settings Leader) (p : UpdateProposal Leader) :
    s.apply p = s.overwrite p := by
  obtain ⟨a, b, c, d, e, f, g, h⟩ := p
  simp only [apply]
  rw [ifLetSome_eq_getD a maxNumberOfTransactionsPerBlock,
    ifLetSome_eq_getD b bootstrapKeySlotsPercentage, ifLetSome_eq_getD c consensusVersion,
    ifLetSome_eq_getD d bftLeaders, ifLetSome_eq_getD e allowAccountCreation,
    ifLetSome_eq_getD f linearFees, ifLetSome_eq_getD g slotDuration]
  · cases h <;> rfl
  all_goals exact fun _ => rfl

/-- A default of an `or` is the first value, else the second, else the default. -/
theorem getD_or {α : Type} (o o' : Option α) (d : α) : (o.or o').getD d = o.getD (o'.getD d) := by
  cases o <;> rfl

/-- Of two optional values of which one is absent, the order of `or` does not matter. -/
theorem or_comm_of_none {α : Type} {o o' : Option α} (h : o = none ∨ o' = none) :
    o.or o' = o'.or o := by
  rcases h with rfl | rfl
  · rw [Option.none_or, Option.or_none]
  · rw [Option.none_or, Option.or_none]

/-- Overwriting with `p`, then with `q`, is overwriting with `p ⊕ q`. -/
theorem Settings.overwrite_overwrite (s : Settings Leader) (p q : UpdateProposal Leader) :
    (s.overwrite p).overwrite q = s.overwrite (p.override q) := by
  simp only [overwrite, UpdateProposal.override, getD_or, Option.map_or']

/-- Applying `p`, then `q`, is applying `p ⊕ q`: each field from `q` when present there, from
`p` otherwise. -/
theorem Settings.apply_apply (s : Settings Leader) (p q : UpdateProposal Leader) :
    (s.apply p).apply q = s.apply (p.override q) := by
  rw [apply_eq_overwrite, apply_eq_overwrite, apply_eq_overwrite, overwrite_overwrite]

/-- Overriding a proposal with itself changes nothing. -/
theorem UpdateProposal.override_self (p : UpdateProposal Leader) : p.override p = p := by
  simp only [override, Option.or_self]

/-- No field is present in both proposals. -/
def UpdateProposal.Disjoint (p q : UpdateProposal Leader) : Prop :=
  (p.maxNumberOfTransactionsPerBlock = none ∨ q.maxNumberOfTransactionsPerBlock = none) ∧
  (p.bootstrapKeySlotsPercentage = none ∨ q.bootstrapKeySlotsPercentage = none) ∧
  (p.consensusVersion = none ∨ q.consensusVersion = none) ∧
  (p.bftLeaders = none ∨ q.bftLeaders = none) ∧
  (p.allowAccountCreation = none ∨ q.allowAccountCreation = none) ∧
  (p.linearFees = none ∨ q.linearFees = none) ∧
  (p.slotDuration = none ∨ q.slotDuration = none) ∧
  (p.epochStabilityDepth = none ∨ q.epochStabilityDepth = none)

/-- Proposals that set disjoint fields override each other in either order. -/
theorem UpdateProposal.override_comm {p q : UpdateProposal Leader} (h : p.Disjoint q) :
    p.override q = q.override p := by
  obtain ⟨h₁, h₂, h₃, h₄, h₅, h₆, h₇, h₈⟩ := h
  rw [override, override, or_comm_of_none h₁, or_comm_of_none h₂, or_comm_of_none h₃,
    or_comm_of_none h₄, or_comm_of_none h₅, or_comm_of_none h₆, or_comm_of_none h₇,
    or_comm_of_none h₈]

/-- `apply` overwrites exactly the fields present in the proposal, with the stability depth
widened from `u32`, and keeps every other field. So applying `p` then `q` is applying `p ⊕ q`,
applying a proposal twice is applying it once, and proposals that set disjoint fields commute. -/
theorem Settings.apply_overwrites (s : Settings Leader) (p q : UpdateProposal Leader) :
    s.apply p = s.overwrite p ∧ (s.apply p).apply q = s.apply (p.override q) ∧
      (s.apply p).apply p = s.apply p ∧
      (p.Disjoint q → (s.apply p).apply q = (s.apply q).apply p) :=
  ⟨apply_eq_overwrite s p, apply_apply s p q, by rw [apply_apply, UpdateProposal.override_self],
    fun h => by rw [apply_apply, apply_apply, UpdateProposal.override_comm h]⟩

/-! ## Decoded proposals re-encode -/

/-- The leader list of a proposal, when present, fits the `u8` count `serialize` writes
before it. -/
def UpdateProposal.LeadersFit (p : UpdateProposal Leader) : Prop :=
  ∀ ls, p.bftLeaders = some ls → ls.length < 256

/-- The empty proposal has no leader list. -/
theorem UpdateProposal.new_leadersFit : (UpdateProposal.new : UpdateProposal Leader).LeadersFit :=
  fun _ h => Option.noConfusion h

/-- Only the `BftLeaders` arm reads a leader list, and its count is a `u8`: the list has fewer
than 256 entries. -/
theorem UpdateTag.readPayload_leaders_lt {t : UpdateTag} {buf rest : Bytes}
    {ls : List (LeaderId Leader)}
    (h : (t.readPayload Leader).run buf = .ok (some (.bftLeaders ls), rest)) : ls.length < 256 := by
  rcases readPayload_eq_ok h with ⟨-, hnone, -⟩ | ⟨f, hf, hfit⟩
  · cases hnone
  · cases hf
    exact hfit ls rfl

/-- Accepted records keep the leader list within its count, from any proposal that has it. -/
theorem UpdateProposal.LeadersFit.setAll {u : UpdateProposal Leader} (hu : u.LeadersFit)
    {records : List (UpdateRecord Leader)} (haccepted : ∀ r ∈ records, r.Accepted) :
    (u.setAll records).LeadersFit := by
  induction records generalizing u with
  | nil => exact hu
  | cons r records ih =>
    refine ih ?_ fun r' hr' => haccepted r' (List.mem_cons_of_mem r hr')
    have hr := haccepted r (List.mem_cons_self r records) []
    show (r.field.set u).LeadersFit
    cases hfield : r.field
    case bftLeaders ls =>
      rw [hfield] at hr
      rintro _ ⟨⟩
      exact UpdateTag.readPayload_leaders_lt hr
    all_goals exact hu

/-- Every proposal `UpdateProposal::read` returns is written by `serialize` as a stream that
reads back to it, whatever follows: decoding, encoding and decoding again gives the first
decoding. The `u8` leader count of `serialize` never wraps on a decoded proposal, since `read`
took its leaders under such a count. -/
theorem UpdateProposal.read_serialize_read {buf rest : Bytes} {p : UpdateProposal Leader}
    (h : (UpdateProposal.read Leader).run buf = .ok (p, rest)) (s : Bytes) :
    (UpdateProposal.read Leader).run (p.serialize ++ s) = .ok (p, s) := by
  obtain ⟨records, haccepted, -, rfl⟩ := readFrom_eq_ok .new buf h
  have hfit := new_leadersFit.setAll haccepted
  rw [serialize_eq_records]
  exact (readFrom_records _ (records_accepted _ hfit) .new s).trans (by rw [new_setAll_records])

theorem UpdateProposal.read_serialize_read_sample :
    (UpdateProposal.read ed25519).run
        (sampleRecords.flatMap UpdateRecord.bytes ++ putU16 UpdateTag.«end».toU16 ++ []) =
      .ok ({ (.new : UpdateProposal ed25519) with
          bftLeaders := some [zeroLeader], slotDuration := some 9 }, []) ∧
    (UpdateProposal.read ed25519).run
        (({ (.new : UpdateProposal ed25519) with
            bftLeaders := some [zeroLeader], slotDuration := some 9 } :
          UpdateProposal ed25519).serialize ++ []) =
      .ok ({ (.new : UpdateProposal ed25519) with
          bftLeaders := some [zeroLeader], slotDuration := some 9 }, []) :=
  ⟨read_sampleRecords, read_serialize_read read_sampleRecords []⟩

/-- A run of update proposals applied one after the other overwrites the settings field by
field: each field holds the value of the last proposal that sets it, and its value before the
run when none does. -/
theorem Settings.foldl_apply (s : Settings Leader) (ps : List (UpdateProposal Leader)) :
    ps.foldl Settings.apply s = s.overwrite (UpdateProposal.merge ps) := by
  induction ps generalizing s with
  | nil => rfl
  | cons p ps ih =>
    rw [List.foldl_cons, ih, apply_eq_overwrite, overwrite_overwrite, UpdateProposal.merge_cons]

end RustCardano
