import RustCardano.Key

/-!
# Blocks

`block/mod.rs`: a block is its header, written inside the length-prefixed `HeaderRaw`, then
its messages' raw forms one after the other; the number of messages is not written.
`deserialize` reads messages while the header's declared content size has bytes left, and
subtracts each message's size from it. The subtraction has no overrun check, so with Rust's
overflow checks a message larger than what is left panics.
-/

namespace RustCardano

open Reader

/-- Modelled from the spec: the wire form shared by `HeaderRaw` and `MessageRaw`, the bytes
behind their length as a `u16`. -/
def serializeSized (bytes : Bytes) : Bytes := putU16 (UInt16.ofNat bytes.length) ++ bytes

/-- Modelled from the spec: the reader shared by `HeaderRaw` and `MessageRaw`, a `u16` length
and that many bytes. -/
def readSized : Reader Bytes := do
  let len ← getU16
  getSlice len.toNat

/-- Modelled from the spec: `HeaderRaw`, the header's bytes behind a `u16` length. -/
structure HeaderRaw where
  bytes : Bytes
  deriving DecidableEq

/-- `HeaderRaw::serialize`. -/
def HeaderRaw.serialize (h : HeaderRaw) : Bytes := serializeSized h.bytes

/-- `HeaderRaw::deserialize`. -/
def HeaderRaw.deserialize : Reader HeaderRaw := do
  let bytes ← readSized
  pure ⟨bytes⟩

/-- Modelled from the spec: `MessageRaw`, a message's bytes behind a `u16` length. -/
structure MessageRaw where
  bytes : Bytes
  deriving DecidableEq

/-- `MessageRaw::serialize`. -/
def MessageRaw.serialize (m : MessageRaw) : Bytes := serializeSized m.bytes

/-- `MessageRaw::deserialize`. -/
def MessageRaw.deserialize : Reader MessageRaw := do
  let bytes ← readSized
  pure ⟨bytes⟩

/-- `MessageRaw::size_bytes_plus_size`: the bytes and their two-byte length. -/
def MessageRaw.sizeBytesPlusSize (m : MessageRaw) : Nat := m.bytes.length + 2

/-- `message_size as u32` keeps the size of any message that fits its `u16` length. -/
theorem MessageRaw.toNat_sizeBytesPlusSize {m : MessageRaw} (h : m.bytes.length < 2 ^ 16) :
    (UInt32.ofNat m.sizeBytesPlusSize).toNat = m.sizeBytesPlusSize :=
  UInt32.toNat_ofNat_of_lt (by simp only [sizeBytesPlusSize, UInt32.size]; omega)

/-- Modelled from the spec: `mempack::read_from_raw`, a value read from the whole of a raw
buffer; a reader that leaves bytes of the frame unread is an error. -/
def readFromRaw {α : Type} (r : Reader α) (raw : Bytes) : Except Failure α :=
  match r.run raw with
  | .ok (a, []) => .ok a
  | .ok (_, _ :: _) => .error (.read (.structureInvalid "unconsumed data"))
  | .error e => .error e

/-- The parts of a block that live outside this file: the header's codec and the accessors
of its content hash and size, the messages' raw forms, and the content hash function. -/
structure BlockFormat (Header Message : Type) where
  /-- `Header::serialize`. -/
  headerSerialize : Header → Bytes
  /-- `Header::read`. -/
  headerRead : Reader Header
  /-- `header.common.block_content_size`. -/
  blockContentSize : Header → UInt32
  /-- `header.block_content_hash()`. -/
  blockContentHash : Header → Hash 32
  /-- `Message::to_raw`. -/
  toRaw : Message → MessageRaw
  /-- `Message::from_raw`: its decoders' failures come through unchanged, so a `ReadError` or
  the panic of a decoder inside it (an update proposal's reader panics on an unknown tag). -/
  fromRaw : MessageRaw → Except Failure Message
  /-- `Hash::hash_bytes`, Blake2b-256. -/
  hashBytes : Bytes → Hash 32

/-- `BlockContents(Vec<Message>)`. -/
structure BlockContents (Message : Type) where
  messages : List Message
  deriving DecidableEq

/-- `Block`: a header and the contents. -/
structure Block (Header Message : Type) where
  header : Header
  contents : BlockContents Message
  deriving DecidableEq

variable {Header Message : Type} (F : BlockFormat Header Message)

/-- The raw forms of messages, written one after the other. -/
def BlockFormat.messagesBytes (messages : List Message) : Bytes :=
  messages.flatMap fun m => (F.toRaw m).serialize

@[simp] theorem BlockFormat.messagesBytes_nil : F.messagesBytes [] = [] := rfl

@[simp] theorem BlockFormat.messagesBytes_cons (m : Message) (ms : List Message) :
    F.messagesBytes (m :: ms) = (F.toRaw m).serialize ++ F.messagesBytes ms := rfl

/-- `BlockContents::compute_hash_size`: the hash and the length of the messages' raw forms,
written one after the other. -/
def BlockContents.computeHashSize (c : BlockContents Message) : Hash 32 × Nat :=
  (F.hashBytes (F.messagesBytes c.messages), (F.messagesBytes c.messages).length)

/-- `Block::is_consistent`: the header's content hash and size are those of the contents. -/
def Block.isConsistent (b : Block Header Message) : Bool :=
  (b.contents.computeHashSize F).1 == F.blockContentHash b.header &&
    (b.contents.computeHashSize F).2 == (F.blockContentSize b.header).toNat

/-- `Block::serialize`: the header inside its `HeaderRaw`, then each message's raw form. -/
def Block.serialize (b : Block Header Message) : Bytes :=
  (HeaderRaw.mk (F.headerSerialize b.header)).serialize ++ F.messagesBytes b.contents.messages

/-- Bytes under `2 ^ 16` long read back from their length-prefixed frame. -/
theorem readSized_serializeSized {bytes : Bytes} (h : bytes.length < 2 ^ 16) (s : Bytes) :
    readSized.run (serializeSized bytes ++ s) = .ok (bytes, s) := by
  have hlen : (UInt16.ofNat bytes.length).toNat = bytes.length := Nat.mod_eq_of_lt h
  rw [readSized, serializeSized, List.append_assoc, run_bind_of_ok (getU16_putU16 _ _), hlen,
    getSlice_append]

/-- Whatever `readSized` accepts is the sized form of the bytes it returns, then the rest; the
bytes fit the `u16` length they were read with. -/
theorem readSized_eq_ok {buf bytes rest : Bytes} (h : readSized.run buf = .ok (bytes, rest)) :
    bytes.length < 2 ^ 16 ∧ buf = serializeSized bytes ++ rest := by
  obtain ⟨len, mid, hlen, hbytes⟩ := run_bind_eq_ok.mp h
  obtain ⟨hn, rfl⟩ := getSlice_eq_ok.mp hbytes
  have hlen' : UInt16.ofNat bytes.length = len := by
    rw [hn]
    exact UInt16.toNat.inj (Nat.mod_eq_of_lt len.toNat_lt_size)
  exact ⟨hn ▸ len.toNat_lt_size, by rw [getU16_eq_ok hlen, serializeSized, hlen', List.append_assoc]⟩

/-- A raw header under `2 ^ 16` bytes reads back from its frame. -/
theorem HeaderRaw.deserialize_serialize {h : HeaderRaw} (hlt : h.bytes.length < 2 ^ 16)
    (s : Bytes) : HeaderRaw.deserialize.run (h.serialize ++ s) = .ok (h, s) := by
  rw [deserialize, serialize, run_bind_of_ok (readSized_serializeSized hlt s)]
  rfl

/-- A raw message under `2 ^ 16` bytes reads back from its frame. -/
theorem MessageRaw.deserialize_serialize {m : MessageRaw} (h : m.bytes.length < 2 ^ 16)
    (s : Bytes) : MessageRaw.deserialize.run (m.serialize ++ s) = .ok (m, s) := by
  rw [deserialize, serialize, run_bind_of_ok (readSized_serializeSized h s)]
  rfl

/-- Whatever `HeaderRaw::deserialize` accepts is the frame of the header it returns. -/
theorem HeaderRaw.deserialize_eq_ok {buf rest : Bytes} {h : HeaderRaw}
    (hread : HeaderRaw.deserialize.run buf = .ok (h, rest)) : buf = h.serialize ++ rest := by
  obtain ⟨bytes, mid, hbytes, hpure⟩ := run_bind_eq_ok.mp hread
  cases hpure
  exact (readSized_eq_ok hbytes).2

/-- Whatever `MessageRaw::deserialize` accepts is the frame of the message it returns, and the
message fits its `u16` length. -/
theorem MessageRaw.deserialize_eq_ok {buf rest : Bytes} {m : MessageRaw}
    (h : MessageRaw.deserialize.run buf = .ok (m, rest)) :
    m.bytes.length < 2 ^ 16 ∧ buf = m.serialize ++ rest := by
  obtain ⟨bytes, mid, hbytes, hpure⟩ := run_bind_eq_ok.mp h
  cases hpure
  exact readSized_eq_ok hbytes

@[simp] theorem MessageRaw.serialize_length (m : MessageRaw) :
    m.serialize.length = m.sizeBytesPlusSize := by
  rw [serialize, serializeSized, List.length_append, putU16_length, sizeBytesPlusSize, Nat.add_comm]

/-- A message read consumes its size, and its length fits the `u16` it was read from. -/
theorem MessageRaw.deserialize_length {buf rest : Bytes} {m : MessageRaw}
    (h : MessageRaw.deserialize.run buf = .ok (m, rest)) :
    m.bytes.length < 2 ^ 16 ∧ rest.length + m.sizeBytesPlusSize = buf.length := by
  obtain ⟨hlt, rfl⟩ := deserialize_eq_ok h
  exact ⟨hlt, by rw [List.length_append, serialize_length, Nat.add_comm]⟩

/-- The `while serialized_content_size > 0` loop of `Block::deserialize`, from the messages
read so far; `serialized_content_size -= message_size as u32` is checked. -/
def Block.readContents (serializedContentSize : UInt32) (messages : List Message) (buf : Bytes) :
    Except Failure (List Message × Bytes) :=
  if 0 < serializedContentSize then
    match h : MessageRaw.deserialize.run buf with
    | .error e => .error e
    | .ok (messageRaw, rest) =>
      match F.fromRaw messageRaw with
      | .error e => .error e
      | .ok message =>
        match checkedSub serializedContentSize (UInt32.ofNat messageRaw.sizeBytesPlusSize) with
        | .error e => .error e
        | .ok remaining => Block.readContents remaining (messages ++ [message]) rest
  else .ok (messages, buf)
termination_by buf.length
decreasing_by
  have := (MessageRaw.deserialize_length h).2
  simp only [MessageRaw.sizeBytesPlusSize] at this
  omega

/-- `Block::deserialize`: the `HeaderRaw`, the header read from the whole of it, then the
messages of the declared content size. -/
def Block.deserialize : Reader (Block Header Message) := do
  let headerRaw ← HeaderRaw.deserialize
  let header ← lift (readFromRaw F.headerRead headerRaw.bytes)
  let messages ← ⟨Block.readContents F (F.blockContentSize header) []⟩
  pure ⟨header, ⟨messages⟩⟩

/-- The checked subtraction succeeds when the subtrahend is not larger. -/
theorem checkedSub_of_le {a b : UInt32} (h : b.toNat ≤ a.toNat) :
    checkedSub a b = .ok (a - b) :=
  if_pos h

/-- A checked subtraction that succeeds did not overrun, and its result is the difference. -/
theorem checkedSub_eq_ok {a b r : UInt32} (h : checkedSub a b = .ok r) :
    b.toNat ≤ a.toNat ∧ r.toNat = a.toNat - b.toNat := by
  unfold checkedSub at h
  split_ifs at h with hle
  cases h
  exact ⟨hle, UInt32.toNat_sub_of_le _ _ hle⟩

/-- The checked subtraction panics when the subtrahend is larger. -/
theorem checkedSub_of_lt {a b : UInt32} (h : a.toNat < b.toNat) :
    checkedSub a b = .error subtractOverflow :=
  if_neg (Nat.not_le.mpr h)

/-! ## The content loop -/

/-- What the block codec needs of the codecs outside this file: the header and the messages
read back from their own bytes, and both fit the `u16` length of their raw forms. -/
structure BlockFormat.RoundTrips : Prop where
  headerRead_serialize : ∀ h s, F.headerRead.run (F.headerSerialize h ++ s) = .ok (h, s)
  header_lt : ∀ h, (F.headerSerialize h).length < 2 ^ 16
  fromRaw_toRaw : ∀ m, F.fromRaw (F.toRaw m) = .ok m
  message_lt : ∀ m, (F.toRaw m).bytes.length < 2 ^ 16

/-- With no content size left, the loop stops and returns the messages read so far. -/
theorem Block.readContents_zero (acc : List Message) (buf : Bytes) :
    Block.readContents F 0 acc buf = .ok (acc, buf) := by
  rw [Block.readContents, if_neg (by decide)]

/-- One turn of the loop: a message read and accepted, and its size taken off the counter. -/
theorem Block.readContents_step {c c' : UInt32} {acc : List Message} {buf rest : Bytes}
    {raw : MessageRaw} {m : Message} (hc : 0 < c)
    (hraw : MessageRaw.deserialize.run buf = .ok (raw, rest)) (hm : F.fromRaw raw = .ok m)
    (hsub : checkedSub c (UInt32.ofNat raw.sizeBytesPlusSize) = .ok c') :
    Block.readContents F c acc buf = Block.readContents F c' (acc ++ [m]) rest := by
  rw [Block.readContents, if_pos hc]
  split <;> simp_all

/-- A message read and accepted whose size the counter cannot pay for stops the loop with the
subtraction's panic. -/
theorem Block.readContents_overrun {c : UInt32} {acc : List Message} {buf rest : Bytes}
    {raw : MessageRaw} {m : Message} (hc : 0 < c)
    (hraw : MessageRaw.deserialize.run buf = .ok (raw, rest)) (hm : F.fromRaw raw = .ok m)
    (hover : c.toNat < raw.sizeBytesPlusSize) :
    Block.readContents F c acc buf = .error subtractOverflow := by
  have hsize := MessageRaw.toNat_sizeBytesPlusSize (MessageRaw.deserialize_length hraw).1
  rw [Block.readContents, if_pos hc]
  split <;> simp_all [checkedSub_of_lt (hsize ▸ hover)]

/-- From a counter equal to the length of the raw messages that start the buffer, the loop
reads exactly those messages, in order, and stops at the end of them. -/
theorem Block.readContents_messagesBytes (hF : F.RoundTrips) (ms : List Message) (c : UInt32)
    (acc : List Message) (s : Bytes) (hc : c.toNat = (F.messagesBytes ms).length) :
    Block.readContents F c acc (F.messagesBytes ms ++ s) = .ok (acc ++ ms, s) := by
  induction ms generalizing c acc with
  | nil =>
    obtain rfl : c = 0 := UInt32.toNat.inj hc
    simpa using readContents_zero F acc s
  | cons m ms ih =>
    have hsize := MessageRaw.toNat_sizeBytesPlusSize (hF.message_lt m)
    have hlen : c.toNat = (F.toRaw m).sizeBytesPlusSize + (F.messagesBytes ms).length := by
      rw [hc, BlockFormat.messagesBytes_cons, List.length_append, MessageRaw.serialize_length]
    have hle : (UInt32.ofNat (F.toRaw m).sizeBytesPlusSize).toNat ≤ c.toNat := by omega
    have hpos : (0 : UInt32).toNat < c.toNat := by
      rw [UInt32.toNat_zero, hlen, MessageRaw.sizeBytesPlusSize]
      omega
    rw [BlockFormat.messagesBytes_cons, List.append_assoc,
      readContents_step F hpos (MessageRaw.deserialize_serialize (hF.message_lt m) _)
        (hF.fromRaw_toRaw m) (checkedSub_of_le hle),
      ih _ _ (by rw [UInt32.toNat_sub_of_le _ _ hle]; omega)]
    simp

/-- Whatever the loop returns, it read raw messages that `from_raw` accepted, in order: the
bytes it consumed are exactly those raw messages, and they are as long as the counter it
started from. -/
theorem Block.readContents_eq_ok {c : UInt32} {acc ms : List Message} {buf rest : Bytes}
    (h : Block.readContents F c acc buf = .ok (ms, rest)) :
    ∃ raws news, ms = acc ++ news ∧
      List.Forall₂ (fun raw m => F.fromRaw raw = .ok m) raws news ∧
      buf = raws.flatMap MessageRaw.serialize ++ rest ∧
      (raws.flatMap MessageRaw.serialize).length = c.toNat := by
  induction c, acc, buf using Block.readContents.induct F with
  | case4 c acc buf hc raw rest' hraw m hm c' hsub ih =>
    rw [readContents_step F hc hraw hm hsub] at h
    obtain ⟨raws, news, rfl, hall, hbuf, hlen⟩ := ih h
    obtain ⟨hle, hc'⟩ := checkedSub_eq_ok hsub
    rw [MessageRaw.toNat_sizeBytesPlusSize (MessageRaw.deserialize_length hraw).1] at hle hc'
    refine ⟨raw :: raws, m :: news, by simp, .cons hm hall, ?_, ?_⟩
    · rw [(MessageRaw.deserialize_eq_ok hraw).2, hbuf, List.flatMap_cons, List.append_assoc]
    · rw [List.flatMap_cons, List.length_append, MessageRaw.serialize_length, hlen, hc']
      omega
  | case5 c acc buf hc =>
    rw [readContents, if_neg hc] at h
    cases h
    have : c.toNat = 0 := Nat.eq_zero_of_not_pos hc
    exact ⟨[], [], by simp, .nil, rfl, this.symm⟩
  | _ c acc buf hc =>
    rw [readContents, if_pos hc] at h
    split at h <;> simp_all

/-! ## Whole blocks -/

/-- A frame read whole is what its reader read, with nothing left. -/
theorem readFromRaw_eq_ok {α : Type} {r : Reader α} {raw : Bytes} {a : α}
    (h : readFromRaw r raw = .ok a) : r.run raw = .ok (a, []) := by
  unfold readFromRaw at h
  split at h
  · next heq =>
    cases h
    exact heq
  · cases h
  · cases h

/-- A header reads back whole from its serialization. -/
theorem BlockFormat.RoundTrips.readFromRaw_header (hF : F.RoundTrips) (h : Header) :
    readFromRaw F.headerRead (F.headerSerialize h) = .ok h := by
  rw [readFromRaw, ← List.append_nil (F.headerSerialize h), hF.headerRead_serialize]

/-- The framing of a block, up to its content loop: the header comes back from its `HeaderRaw`
and the loop starts on the bytes after it, from the header's declared content size. -/
theorem Block.deserialize_serialize_header (hF : F.RoundTrips) (header : Header) (buf : Bytes) :
    (Block.deserialize F).run ((HeaderRaw.mk (F.headerSerialize header)).serialize ++ buf) =
      (do
        let messages ← (⟨Block.readContents F (F.blockContentSize header) []⟩ : Reader _)
        pure (Block.mk header ⟨messages⟩)).run buf := by
  rw [Block.deserialize, run_bind_of_ok (HeaderRaw.deserialize_serialize (hF.header_lt header) _),
    hF.readFromRaw_header, run_bind_of_ok (run_lift_ok _ _)]

/-- A block format for concrete runs: the header is its content size alone, as a `u32`, each
message is one byte, and every hash is zero. -/
def BlockFormat.sizeOnly : BlockFormat UInt32 UInt8 where
  headerSerialize := putU32
  headerRead := getU32
  blockContentSize := id
  blockContentHash := fun _ => ⟨List.replicate 32 0, List.length_replicate _ _⟩
  toRaw := fun b => ⟨[b]⟩
  fromRaw := fun raw => match raw.bytes with
    | [b] => .ok b
    | _ => .error (.read (.structureInvalid "message"))
  hashBytes := fun _ => ⟨List.replicate 32 0, List.length_replicate _ _⟩

/-- The size-only format round-trips its headers and messages. -/
theorem BlockFormat.sizeOnly_roundTrips : BlockFormat.sizeOnly.RoundTrips where
  headerRead_serialize h s := by
    dsimp only [sizeOnly]
    exact getU32_putU32 h s
  header_lt _ := by simp [sizeOnly, putU32]
  fromRaw_toRaw _ := rfl
  message_lt _ := by simp [sizeOnly]

/-- A block whose declared content size is positive but smaller than the size of its first
message panics on the content counter's subtraction, whatever follows. -/
theorem Block.deserialize_overrun_panics (hF : F.RoundTrips) (header : Header) (m : Message)
    (ms : List Message) (hpos : 0 < (F.blockContentSize header).toNat)
    (hover : (F.blockContentSize header).toNat < (F.toRaw m).sizeBytesPlusSize) (s : Bytes) :
    (Block.deserialize F).run ((Block.mk header ⟨m :: ms⟩).serialize F ++ s) =
      .error subtractOverflow := by
  rw [Block.serialize, List.append_assoc, deserialize_serialize_header F hF,
    BlockFormat.messagesBytes_cons, List.append_assoc]
  exact run_bind_of_error (readContents_overrun F hpos
    (MessageRaw.deserialize_serialize (hF.message_lt m) _) (hF.fromRaw_toRaw m) hover)

theorem Block.deserialize_size_one_panics :
    BlockFormat.sizeOnly.RoundTrips ∧ 0 < (BlockFormat.sizeOnly.blockContentSize 1).toNat ∧
    (BlockFormat.sizeOnly.blockContentSize 1).toNat <
      (BlockFormat.sizeOnly.toRaw 0).sizeBytesPlusSize ∧
    (Block.deserialize BlockFormat.sizeOnly).run
        ((⟨1, ⟨[0]⟩⟩ : Block UInt32 UInt8).serialize BlockFormat.sizeOnly ++ []) =
      .error subtractOverflow :=
  ⟨BlockFormat.sizeOnly_roundTrips, by decide, by decide,
    Block.deserialize_overrun_panics _ BlockFormat.sizeOnly_roundTrips 1 0 [] (by decide)
      (by decide) []⟩

/-- What `Block::deserialize` returns: a header read from the whole of a `HeaderRaw`, and the
messages that the content loop read after it from the header's declared content size. -/
theorem Block.deserialize_parts {buf rest : Bytes} {b : Block Header Message}
    (h : (Block.deserialize F).run buf = .ok (b, rest)) :
    ∃ (headerRaw : HeaderRaw) (mid : Bytes), buf = headerRaw.serialize ++ mid ∧
      readFromRaw F.headerRead headerRaw.bytes = .ok b.header ∧
      Block.readContents F (F.blockContentSize b.header) [] mid =
        .ok (b.contents.messages, rest) := by
  obtain ⟨headerRaw, mid, hraw, h⟩ := run_bind_eq_ok.mp h
  obtain ⟨header, mid', hheader, h⟩ := run_bind_eq_ok.mp h
  obtain ⟨messages, _, hloop, hpure⟩ := run_bind_eq_ok.mp h
  cases hpure
  obtain ⟨hread, rfl⟩ := run_lift_eq_ok hheader
  exact ⟨headerRaw, _, HeaderRaw.deserialize_eq_ok hraw, hread, hloop⟩

/-- Whatever `Block::deserialize` accepts is a `HeaderRaw` whose bytes read as the block's
header, then raw messages that `from_raw` turns into the block's messages, in order, whose
encodings take exactly the header's declared content size; no message straddles the end of
the contents. -/
theorem Block.deserialize_eq_raws {buf rest : Bytes} {b : Block Header Message}
    (h : (Block.deserialize F).run buf = .ok (b, rest)) :
    ∃ (headerRaw : HeaderRaw) (raws : List MessageRaw),
      buf = headerRaw.serialize ++ raws.flatMap MessageRaw.serialize ++ rest ∧
      readFromRaw F.headerRead headerRaw.bytes = .ok b.header ∧
      List.Forall₂ (fun raw m => F.fromRaw raw = .ok m) raws b.contents.messages ∧
      (raws.flatMap MessageRaw.serialize).length = (F.blockContentSize b.header).toNat := by
  obtain ⟨headerRaw, mid, rfl, hread, hloop⟩ := deserialize_parts F h
  obtain ⟨raws, news, hnews, hall, rfl, hlen⟩ := readContents_eq_ok F hloop
  rw [List.nil_append] at hnews
  exact ⟨headerRaw, raws, (List.append_assoc _ _ _).symm, hread, hnews ▸ hall, hlen⟩

/-- Raw messages that `from_raw` accepted are the raw forms of the messages it returned, when
`to_raw` gives back the raw form a message was read from. -/
theorem BlockFormat.messagesBytes_of_forall₂
    (htoRaw : ∀ raw m, F.fromRaw raw = .ok m → F.toRaw m = raw) {raws : List MessageRaw}
    {ms : List Message} (h : List.Forall₂ (fun raw m => F.fromRaw raw = .ok m) raws ms) :
    F.messagesBytes ms = raws.flatMap MessageRaw.serialize := by
  induction h with
  | nil => rfl
  | cons hm _ ih => rw [messagesBytes_cons, htoRaw _ _ hm, ih, List.flatMap_cons]

/-- When `to_raw` gives back the raw form a message was read from, every block that
`Block::deserialize` accepts passes the size half of `is_consistent`: its header declares the
length of its own messages' raw forms. -/
theorem Block.deserialize_size_consistent
    (htoRaw : ∀ raw m, F.fromRaw raw = .ok m → F.toRaw m = raw) {buf rest : Bytes}
    {b : Block Header Message} (h : (Block.deserialize F).run buf = .ok (b, rest)) :
    (b.contents.computeHashSize F).2 = (F.blockContentSize b.header).toNat := by
  obtain ⟨_, _, -, -, hloop⟩ := deserialize_parts F h
  obtain ⟨raws, news, hnews, hall, -, hlen⟩ := readContents_eq_ok F hloop
  rw [List.nil_append] at hnews
  rw [BlockContents.computeHashSize, hnews, F.messagesBytes_of_forall₂ htoRaw hall, hlen]

/-- When the header codec and the messages' raw forms are canonical, what they accept being
what they write, whatever `Block::deserialize` accepts is the block's own serialization:
`serialize` writes back exactly the bytes read. -/
theorem Block.deserialize_eq_serialize
    (hheader : ∀ bytes h, readFromRaw F.headerRead bytes = .ok h → F.headerSerialize h = bytes)
    (htoRaw : ∀ raw m, F.fromRaw raw = .ok m → F.toRaw m = raw) {buf rest : Bytes}
    {b : Block Header Message} (h : (Block.deserialize F).run buf = .ok (b, rest)) :
    buf = b.serialize F ++ rest := by
  obtain ⟨⟨headerBytes⟩, mid, rfl, hread, hloop⟩ := deserialize_parts F h
  obtain ⟨raws, news, hnews, hall, rfl, -⟩ := readContents_eq_ok F hloop
  rw [List.nil_append] at hnews
  rw [Block.serialize, hheader _ _ hread, hnews, F.messagesBytes_of_forall₂ htoRaw hall,
    List.append_assoc]

/-- `from_raw` of the concrete format reads one byte back, as `to_raw` wrote it. -/
theorem BlockFormat.sizeOnly_toRaw_fromRaw :
    ∀ raw m, BlockFormat.sizeOnly.fromRaw raw = .ok m → BlockFormat.sizeOnly.toRaw m = raw := by
  rintro ⟨_ | ⟨b, _ | ⟨_, _⟩⟩⟩ m h <;> cases h
  rfl

/-- A block of two one-byte messages reads back from its serialization. -/
theorem Block.deserialize_two_messages :
    (Block.deserialize BlockFormat.sizeOnly).run
        ((⟨6, ⟨[7, 9]⟩⟩ : Block UInt32 UInt8).serialize BlockFormat.sizeOnly ++ []) =
      .ok (⟨6, ⟨[7, 9]⟩⟩, []) := by
  rw [Block.serialize, List.append_assoc,
    deserialize_serialize_header _ BlockFormat.sizeOnly_roundTrips,
    run_bind_of_ok
      (readContents_messagesBytes _ BlockFormat.sizeOnly_roundTrips [7, 9] 6 [] [] rfl)]
  rfl

theorem Block.deserialize_eq_raws_two_messages :
    (Block.deserialize BlockFormat.sizeOnly).run
        ((⟨6, ⟨[7, 9]⟩⟩ : Block UInt32 UInt8).serialize BlockFormat.sizeOnly ++ []) =
      .ok (⟨6, ⟨[7, 9]⟩⟩, []) ∧
    ∃ (headerRaw : HeaderRaw) (raws : List MessageRaw),
      (⟨6, ⟨[7, 9]⟩⟩ : Block UInt32 UInt8).serialize BlockFormat.sizeOnly ++ [] =
        headerRaw.serialize ++ raws.flatMap MessageRaw.serialize ++ [] ∧
      readFromRaw BlockFormat.sizeOnly.headerRead headerRaw.bytes = .ok 6 ∧
      List.Forall₂ (fun raw m => BlockFormat.sizeOnly.fromRaw raw = .ok m) raws [7, 9] ∧
      (raws.flatMap MessageRaw.serialize).length =
        (BlockFormat.sizeOnly.blockContentSize 6).toNat :=
  ⟨Block.deserialize_two_messages, Block.deserialize_eq_raws _ Block.deserialize_two_messages⟩

theorem Block.deserialize_size_consistent_two_messages :
    (∀ raw m, BlockFormat.sizeOnly.fromRaw raw = .ok m → BlockFormat.sizeOnly.toRaw m = raw) ∧
    (Block.deserialize BlockFormat.sizeOnly).run
        ((⟨6, ⟨[7, 9]⟩⟩ : Block UInt32 UInt8).serialize BlockFormat.sizeOnly ++ []) =
      .ok (⟨6, ⟨[7, 9]⟩⟩, []) ∧
    ((⟨[7, 9]⟩ : BlockContents UInt8).computeHashSize BlockFormat.sizeOnly).2 =
      (BlockFormat.sizeOnly.blockContentSize 6).toNat :=
  ⟨BlockFormat.sizeOnly_toRaw_fromRaw, Block.deserialize_two_messages,
    Block.deserialize_size_consistent _ BlockFormat.sizeOnly_toRaw_fromRaw
      Block.deserialize_two_messages⟩

/-- The concrete header codec is canonical: a `u32` frame read whole is the value's four
bytes. -/
theorem BlockFormat.sizeOnly_headerSerialize_of_read :
    ∀ bytes h, readFromRaw BlockFormat.sizeOnly.headerRead bytes = .ok h →
      BlockFormat.sizeOnly.headerSerialize h = bytes := by
  intro bytes h hread
  have hbytes := getU32_eq_ok (readFromRaw_eq_ok hread)
  rw [List.append_nil] at hbytes
  exact hbytes.symm

theorem Block.deserialize_eq_serialize_two_messages :
    (∀ bytes h, readFromRaw BlockFormat.sizeOnly.headerRead bytes = .ok h →
      BlockFormat.sizeOnly.headerSerialize h = bytes) ∧
    (∀ raw m, BlockFormat.sizeOnly.fromRaw raw = .ok m → BlockFormat.sizeOnly.toRaw m = raw) ∧
    (Block.deserialize BlockFormat.sizeOnly).run
        ((⟨6, ⟨[7, 9]⟩⟩ : Block UInt32 UInt8).serialize BlockFormat.sizeOnly ++ []) =
      .ok (⟨6, ⟨[7, 9]⟩⟩, []) ∧
    (⟨6, ⟨[7, 9]⟩⟩ : Block UInt32 UInt8).serialize BlockFormat.sizeOnly ++ [] =
      (⟨6, ⟨[7, 9]⟩⟩ : Block UInt32 UInt8).serialize BlockFormat.sizeOnly ++ [] :=
  ⟨BlockFormat.sizeOnly_headerSerialize_of_read, BlockFormat.sizeOnly_toRaw_fromRaw,
    Block.deserialize_two_messages,
    Block.deserialize_eq_serialize _ BlockFormat.sizeOnly_headerSerialize_of_read
      BlockFormat.sizeOnly_toRaw_fromRaw Block.deserialize_two_messages⟩

end RustCardano
