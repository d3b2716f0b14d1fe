import RustCardano.Packer

/-!
# The CBOR subset

`raw_cbor`, as far as the HD address payload uses it: unsigned integers, definite byte strings,
indefinite arrays, and byte strings that hold CBOR. Every item starts with a header byte: the
major type in its top three bits, and in the low five bits either the argument itself (below
24) or the width of the big-endian argument that follows. The writer picks the shortest form;
the reader accepts every width.
-/

namespace RustCardano

open Reader

/-- Modelled from the spec: `raw_cbor::Type`, the major types the HD payload uses. -/
inductive CborType where
  | unsignedInteger
  | bytes
  | array
  deriving DecidableEq, Repr

/-- The major type's number, the top three bits of a header byte. -/
def CborType.major : CborType → Nat
  | .unsignedInteger => 0
  | .bytes => 2
  | .array => 4

/-- The header byte of a major type with the given low five bits. -/
def CborType.header (ty : CborType) (info : Nat) : UInt8 := UInt8.ofNat (ty.major * 32 + info)

/-- The low five bits and the number of argument bytes of the shortest form of an argument. -/
def argumentForm (n : Nat) : Nat × Nat :=
  if n < 24 then (n, 0)
  else if n < 2 ^ 8 then (24, 1)
  else if n < 2 ^ 16 then (25, 2)
  else if n < 2 ^ 32 then (26, 4)
  else (27, 8)

/-- Modelled from the spec: `Serializer::write_type`, the header of a major type with its
argument in the shortest form. -/
def writeType (ty : CborType) (len : UInt64) : Bytes :=
  ty.header (argumentForm len.toNat).1 :: beBytes (argumentForm len.toNat).2 len.toNat

/-- Modelled from the spec: the argument a header's low five bits announce; 28 to 31 announce
none. -/
def readArgument (info : Nat) : Reader Nat :=
  if info < 24 then pure info
  else if info = 24 then getBE 1
  else if info = 25 then getBE 2
  else if info = 26 then getBE 4
  else if info = 27 then getBE 8
  else fail (.read (.structureInvalid "cbor: invalid argument"))

/-- A header of any major type other than the one expected is `StructureInvalid`. -/
def unexpectedType : Failure := .read (.structureInvalid "cbor: unexpected type")

/-- Modelled from the spec: `RawCbor`'s header read, of the expected major type. -/
def readType (ty : CborType) : Reader UInt64 := do
  let b ← getU8
  if b.toNat / 32 = ty.major then
    let n ← readArgument (b.toNat % 32)
    pure (UInt64.ofNat n)
  else fail unexpectedType

/-! ## Items -/

/-- Modelled from the spec: `Serializer::write_unsigned_integer`. -/
def writeUnsignedInteger (v : UInt64) : Bytes := writeType .unsignedInteger v

/-- Modelled from the spec: `RawCbor::unsigned_integer`. -/
def readUnsignedInteger : Reader UInt64 := readType .unsignedInteger

/-- Modelled from the spec: `Serialize for u32`, the value as `u64`. -/
def serializeU32 (v : UInt32) : Bytes := writeUnsignedInteger v.toUInt64

/-- Modelled from the spec: `Deserialize for u32`, the `u64` narrowed as `as u32`. -/
def deserializeU32 : Reader UInt32 := do
  let v ← readUnsignedInteger
  pure v.toUInt32

/-- Modelled from the spec: `Serializer::write_bytes`, the length and the bytes. -/
def writeBytes (bs : Bytes) : Bytes := writeType .bytes (UInt64.ofNat bs.length) ++ bs

/-- Modelled from the spec: `RawCbor::bytes`. -/
def readBytes : Reader Bytes := do
  let len ← readType .bytes
  getSlice len.toNat

/-- Modelled from the spec: `se::serialize_cbor_in_cbor` on bytes, which are written as a CBOR
byte string and that string's encoding written as a byte string again. -/
def serializeCborInCbor (bs : Bytes) : Bytes := writeBytes (writeBytes bs)

/-- The header of an indefinite array, `0x9f`. -/
def arrayIndefinite : UInt8 := CborType.array.header 31

/-- The break that ends an indefinite array, `0xff`. -/
def breakByte : UInt8 := 0xff

/-- Modelled from the spec: `se::serialize_indefinite_array`, the indefinite header, the
items, and the break. -/
def serializeIndefiniteArray {α : Type} (write : α → Bytes) (items : List α) : Bytes :=
  arrayIndefinite :: items.flatMap write ++ [breakByte]

/-- A reader consumes when whatever it leaves is shorter than what it got. -/
def Reader.Consumes {α : Type} (r : Reader α) : Prop :=
  ∀ buf a rest, r.run buf = .ok (a, rest) → rest.length < buf.length

/-- The items of an indefinite array, after its header, up to the break, from the items read
so far. -/
def readIndefinite {α : Type} (item : Reader α) (hitem : item.Consumes) (acc : List α) :
    Bytes → Except Failure (List α × Bytes)
  | [] => .error (.read (.notEnough 1 0))
  | b :: rest =>
    if b = breakByte then .ok (acc, rest)
    else match h : item.run (b :: rest) with
      | .ok (a, rest') => readIndefinite item hitem (acc ++ [a]) rest'
      | .error e => .error e
termination_by buf => buf.length
decreasing_by exact hitem _ _ _ h

/-- Modelled from the spec: `Deserialize for Vec<T>` on the indefinite arrays the spec
supports; a definite array is `StructureInvalid`. -/
def readArray {α : Type} (item : Reader α) (hitem : item.Consumes) : Reader (List α) := do
  let b ← getU8
  if b.toNat / 32 = CborType.array.major then
    if b.toNat % 32 = 31 then ⟨readIndefinite item hitem []⟩
    else fail (.read (.structureInvalid "cbor: definite array"))
  else fail unexpectedType

/-! ## Headers -/

/-- A header byte is the major type in the top three bits and the additional information
below. -/
theorem CborType.toNat_header (ty : CborType) {info : Nat} (h : info < 32) :
    (ty.header info).toNat = ty.major * 32 + info := by
  have : ty.major ≤ 4 := by cases ty <;> decide
  exact Nat.mod_eq_of_lt (by omega)

/-- The additional information a length is written with is below 28. -/
theorem argumentForm_fst_lt (n : Nat) : (argumentForm n).1 < 28 := by
  unfold argumentForm
  split_ifs <;> omega

/-- A length is written in at most eight bytes after the header. -/
theorem argumentForm_snd_le (n : Nat) : (argumentForm n).2 ≤ 8 := by
  unfold argumentForm
  split_ifs <;> simp

/-- Every argument below `2 ^ 64` reads back from its shortest form. -/
theorem readArgument_argumentForm {n : Nat} (h : n < 2 ^ 64) (s : Bytes) :
    (readArgument (argumentForm n).1).run (beBytes (argumentForm n).2 n ++ s) = .ok (n, s) := by
  unfold argumentForm
  split_ifs with h0
  · rw [readArgument, if_pos h0, beBytes_zero, List.nil_append, run_pure]
  · rw [readArgument, if_neg (by decide), if_pos rfl, getBE_beBytes, Nat.mod_eq_of_lt (by omega)]
  · rw [readArgument, if_neg (by decide), if_neg (by decide), if_pos rfl, getBE_beBytes,
      Nat.mod_eq_of_lt (by omega)]
  · rw [readArgument, if_neg (by decide), if_neg (by decide), if_neg (by decide), if_pos rfl,
      getBE_beBytes, Nat.mod_eq_of_lt (by omega)]
  · rw [readArgument, if_neg (by decide), if_neg (by decide), if_neg (by decide),
      if_neg (by decide), if_pos rfl, getBE_beBytes, Nat.mod_eq_of_lt (by omega)]

/-- A header of any major type and any `u64` argument reads back as that argument. -/
theorem readType_writeType (ty : CborType) (len : UInt64) (s : Bytes) :
    (readType ty).run (writeType ty len ++ s) = .ok (len, s) := by
  have hinfo := argumentForm_fst_lt len.toNat
  have hmod : (ty.major * 32 + (argumentForm len.toNat).1) % 32 = (argumentForm len.toNat).1 := by
    omega
  rw [readType, writeType, List.cons_append, run_bind_of_ok (getU8_cons _ _),
    CborType.toNat_header ty (by omega), if_pos (by omega), hmod,
    run_bind_of_ok (readArgument_argumentForm len.toNat_lt_size s), run_pure,
    UInt64.toNat.inj (UInt64.toNat_ofNat_of_lt len.toNat_lt_size)]

/-- A CBOR header with its argument takes at most nine bytes. -/
theorem writeType_length (ty : CborType) (len : UInt64) : (writeType ty len).length ≤ 9 := by
  simp only [writeType, List.length_cons, beBytes_length]
  have := argumentForm_snd_le len.toNat
  omega

/-- The header byte of a non-negative integer is below `0x20`, so it is never the break. -/
theorem writeUnsignedInteger_head (v : UInt64) :
    ∃ b rest, writeUnsignedInteger v = b :: rest ∧ b ≠ breakByte := by
  refine ⟨_, _, rfl, fun h => ?_⟩
  have hinfo := argumentForm_fst_lt v.toNat
  have hbyte := congrArg UInt8.toNat h
  rw [CborType.toNat_header _ (by omega), show breakByte.toNat = 255 from rfl] at hbyte
  simp only [CborType.major] at hbyte
  omega

/-! ## Item round trips -/

/-- A `u32` takes its header byte and at most four argument bytes. -/
theorem serializeU32_length (v : UInt32) : (serializeU32 v).length ≤ 5 := by
  have hv : v.toUInt64.toNat < 2 ^ 32 := v.toNat_lt_size
  have hwidth : (argumentForm v.toUInt64.toNat).2 ≤ 4 := by
    unfold argumentForm
    split_ifs <;> simp only <;> omega
  simp only [serializeU32, writeUnsignedInteger, writeType, List.length_cons, beBytes_length]
  omega

/-- A `u32` reads back from its CBOR encoding, whatever follows. -/
theorem deserializeU32_serializeU32 (v : UInt32) (s : Bytes) :
    deserializeU32.run (serializeU32 v ++ s) = .ok (v, s) := by
  rw [deserializeU32, serializeU32, writeUnsignedInteger, readUnsignedInteger,
    run_bind_of_ok (readType_writeType _ _ s), run_pure]
  congr
  exact UInt32.toNat.inj (UInt32.toNat_ofNat_of_lt v.toNat_lt_size)

/-- A byte string shorter than `2 ^ 64` reads back from its CBOR encoding, whatever follows. -/
theorem readBytes_writeBytes {bs : Bytes} (h : bs.length < 2 ^ 64) (s : Bytes) :
    readBytes.run (writeBytes bs ++ s) = .ok (bs, s) := by
  rw [readBytes, writeBytes, List.append_assoc, run_bind_of_ok (readType_writeType _ _ _),
    UInt64.toNat_ofNat_of_lt h, getSlice_append]

/-- A CBOR byte string takes at most nine bytes more than its contents. -/
theorem writeBytes_length (bs : Bytes) : (writeBytes bs).length ≤ bs.length + 9 := by
  have := writeType_length .bytes (UInt64.ofNat bs.length)
  simp only [writeBytes, List.length_append]
  omega

/-- Reading a header's argument has every closed property. -/
theorem readArgument_closed {P : ∀ {α : Type}, Reader α → Prop} (hP : Reader.Closed P)
    (info : Nat) : P (readArgument info) :=
  iteInduction (fun _ => hP.pure _) fun _ => iteInduction (fun _ => hP.getBE 1) fun _ =>
    iteInduction (fun _ => hP.getBE 2) fun _ => iteInduction (fun _ => hP.getBE 4) fun _ =>
      iteInduction (fun _ => hP.getBE 8) fun _ => hP.failRead _

section Closed

variable {P : ∀ {α : Type}, Reader α → Prop} (hP : Reader.Closed P)

include hP

/-- Reading a header of a given major type has every closed property. -/
theorem readType_closed (ty : CborType) : P (readType ty) :=
  hP.bind hP.getU8 fun _ => by
    split_ifs
    · exact hP.bind (readArgument_closed hP _) fun _ => hP.pure _
    · exact hP.failRead _

/-- Reading a CBOR `u32` has every closed property. -/
theorem deserializeU32_closed : P deserializeU32 :=
  hP.bind (readType_closed hP _) fun _ => hP.pure _

end Closed

/-- A header read always takes its header byte. -/
theorem readType_consumes (ty : CborType) : (readType ty).Consumes := by
  intro buf v rest h
  obtain ⟨b, mid, hb, h⟩ := run_bind_eq_ok.mp h
  rw [getU8_eq_ok.mp hb, List.length_cons]
  split_ifs at h
  · obtain ⟨n, mid', hn, hpure⟩ := run_bind_eq_ok.mp h
    cases hpure
    exact Nat.lt_succ_of_le (readArgument_closed shrinks_closed _ _ _ _ hn)
  · cases h

/-- A CBOR `u32` read takes at least its header byte. -/
theorem deserializeU32_consumes : deserializeU32.Consumes := by
  intro buf v rest h
  obtain ⟨w, mid, hw, hpure⟩ := run_bind_eq_ok.mp h
  cases hpure
  exact readType_consumes _ _ _ _ hw

/-! ## Indefinite arrays -/

section Indefinite

variable {α : Type} {item : Reader α} {hitem : item.Consumes}

/-- The break byte ends an indefinite array with the items read so far. -/
theorem readIndefinite_break (acc : List α) (rest : Bytes) :
    readIndefinite item hitem acc (breakByte :: rest) = .ok (acc, rest) := by
  rw [readIndefinite, if_pos rfl]

/-- One turn of the loop: a byte other than the break starts an item. -/
theorem readIndefinite_of_ok {acc : List α} {b : UInt8} {rest rest' : Bytes} {a : α}
    (hb : b ≠ breakByte) (h : item.run (b :: rest) = .ok (a, rest')) :
    readIndefinite item hitem acc (b :: rest) = readIndefinite item hitem (acc ++ [a]) rest' := by
  rw [readIndefinite, if_neg hb]
  split <;> simp_all

/-- An item that fails to read fails the array with its error. -/
theorem readIndefinite_of_error {acc : List α} {b : UInt8} {rest : Bytes} {e : Failure}
    (hb : b ≠ breakByte) (h : item.run (b :: rest) = .error e) :
    readIndefinite item hitem acc (b :: rest) = .error e := by
  rw [readIndefinite, if_neg hb]
  split <;> simp_all

/-- Items that read back from their own bytes, none of which starts with the break, read back
whole from the array's body, and the loop stops after the break. -/
theorem readIndefinite_flatMap {write : α → Bytes} (hr : ∀ a s, item.run (write a ++ s) = .ok (a, s))
    (hw : ∀ a, ∃ b rest, write a = b :: rest ∧ b ≠ breakByte) (items acc : List α) (s : Bytes) :
    readIndefinite item hitem acc (items.flatMap write ++ breakByte :: s) =
      .ok (acc ++ items, s) := by
  induction items generalizing acc with
  | nil => simpa using readIndefinite_break acc s
  | cons a as ih =>
    obtain ⟨b, rest, hab, hb⟩ := hw a
    have hitem := hr a (as.flatMap write ++ breakByte :: s)
    rw [hab, List.cons_append] at hitem
    rw [List.flatMap_cons, List.append_assoc, hab, List.cons_append, readIndefinite_of_ok hb hitem,
      ih]
    simp

/-- The loop panics only where an item does. -/
theorem readIndefinite_panicsOnly {allowed : String → Prop} (hpanic : PanicsOnly allowed item)
    (acc : List α) (buf : Bytes) {msg : String}
    (h : readIndefinite item hitem acc buf = .error (.panic msg)) : allowed msg := by
  induction acc, buf using readIndefinite.induct item hitem with
  | case1 acc =>
    rw [readIndefinite] at h
    cases h
  | case2 acc rest =>
    rw [readIndefinite_break] at h
    cases h
  | case3 acc b rest hb a rest' hrun ih =>
    rw [readIndefinite_of_ok hb hrun] at h
    exact ih h
  | case4 acc b rest hb e hrun =>
    rw [readIndefinite_of_error hb hrun] at h
    cases h
    exact hpanic _ _ hrun

/-- Every item takes at least one byte and the break takes one: the loop returns fewer items
and bytes than it was given. -/
theorem readIndefinite_length {acc items : List α} {buf rest : Bytes}
    (h : readIndefinite item hitem acc buf = .ok (items, rest)) :
    items.length + rest.length < acc.length + buf.length := by
  induction acc, buf using readIndefinite.induct item hitem with
  | case1 acc =>
    rw [readIndefinite] at h
    cases h
  | case2 acc rest' =>
    rw [readIndefinite_break] at h
    cases h
    rw [List.length_cons]
    omega
  | case3 acc b rest' hb a rest'' hrun ih =>
    rw [readIndefinite_of_ok hb hrun] at h
    have hshorter := hitem _ _ _ hrun
    have := ih h
    rw [List.length_append, List.length_singleton] at this
    omega
  | case4 acc b rest' hb e hrun =>
    rw [readIndefinite_of_error hb hrun] at h
    cases h

/-- An array holds fewer items than the bytes it was read from. -/
theorem readArray_length {buf rest : Bytes} {items : List α}
    (h : (readArray item hitem).run buf = .ok (items, rest)) : items.length < buf.length := by
  obtain ⟨b, mid, hb, h⟩ := run_bind_eq_ok.mp h
  rw [getU8_eq_ok.mp hb, List.length_cons]
  split_ifs at h
  · have := readIndefinite_length h
    rw [List.length_nil] at this
    omega
  · cases h
  · cases h

/-- An array reader panics only where its item reader does. -/
theorem readArray_panicsOnly {allowed : String → Prop} (hpanic : PanicsOnly allowed item) :
    PanicsOnly allowed (readArray item hitem) :=
  panicsOnly_closed.bind panicsOnly_closed.getU8 fun _ => by
    split_ifs
    · exact readIndefinite_panicsOnly hpanic []
    · exact panicsOnly_fail_read _
    · exact panicsOnly_fail_read _

/-- Items whose encodings read back and never start with the break byte read back from their
indefinite array, whatever follows. -/
theorem readArray_serializeIndefiniteArray {write : α → Bytes}
    (hr : ∀ a s, item.run (write a ++ s) = .ok (a, s))
    (hw : ∀ a, ∃ b rest, write a = b :: rest ∧ b ≠ breakByte) (items : List α) (s : Bytes) :
    (readArray item hitem).run (serializeIndefiniteArray write items ++ s) = .ok (items, s) := by
  have hmajor : arrayIndefinite.toNat / 32 = CborType.array.major := rfl
  have hinfo : arrayIndefinite.toNat % 32 = 31 := rfl
  rw [readArray, serializeIndefiniteArray, List.cons_append, List.cons_append,
    run_bind_of_ok (getU8_cons _ _), if_pos hmajor, if_pos hinfo, List.append_assoc,
    List.singleton_append]
  exact readIndefinite_flatMap hr hw items [] s

end Indefinite

end RustCardano
