import Mathlib.Data.List.Basic
import Mathlib.Algebra.Group.Nat.Basic

/-!
# Big-endian packing and the read buffer

`chain_core::packer::Codec` writes fixed-width integers big-endian and
`chain_core::mempack::ReadBuf` reads them back with a length check. Neither is
among this repository's files: both are modelled here from the specification, and
every codec of the model is built from them. A reader runs on the unread part of
the buffer and returns what it read with the bytes after it.
-/

namespace RustCardano

/-- Raw bytes, as a `Vec<u8>` or a `&[u8]`. -/
abbrev Bytes := List UInt8

/-- Modelled from the spec: `mempack::ReadError`, the errors every decoder propagates. -/
inductive ReadError where
  /-- `NotEnough{requested, remaining}`: the buffer ends before the read. -/
  | notEnough (requested remaining : Nat)
  /-- `StructureInvalid(msg)`: the bytes do not form a value of the type. -/
  | structureInvalid (msg : String)
  /-- `UnknownTag(u32)`: a tag outside the closed tag registry. -/
  | unknownTag (tag : UInt32)
  deriving DecidableEq, Repr

/-- How a call ends when it returns no value: the error it propagates with `?`, or a
panic, which aborts the thread and is not an error value any caller can handle. -/
inductive Failure where
  | read (e : ReadError)
  | panic (msg : String)
  deriving DecidableEq, Repr

/-- The message of Rust's overflow check on `-` (`-=`) of unsigned integers. -/
def subtractOverflow : Failure := .panic "attempt to subtract with overflow"

/-- `a - b` on an unsigned integer under Rust's overflow check. -/
def checkedSub {α : Type} [LE α] [Sub α] [DecidableRel (fun a b : α => a ≤ b)] (a b : α) :
    Except Failure α :=
  if b ≤ a then .ok (a - b) else .error subtractOverflow

/-- The only failure of a checked subtraction is its overflow panic. -/
theorem checkedSub_eq_error {α : Type} [LE α] [Sub α] [DecidableRel (fun a b : α => a ≤ b)]
    {a b : α} {e : Failure} (h : checkedSub a b = .error e) : e = subtractOverflow := by
  unfold checkedSub at h
  split_ifs at h
  exact (Except.error.inj h).symm

/-- A reader over the unread part of a `ReadBuf`. -/
structure Reader (α : Type) where
  run : Bytes → Except Failure (α × Bytes)

namespace Reader

variable {α β : Type}

instance : Monad Reader where
  pure a := ⟨fun buf => .ok (a, buf)⟩
  bind r f := ⟨fun buf => match r.run buf with
    | .ok (a, rest) => (f a).run rest
    | .error e => .error e⟩

/-- Stop with `e`, reading nothing. -/
def fail (e : Failure) : Reader α := ⟨fun _ => .error e⟩

/-- A computation that reads nothing. -/
def lift (x : Except Failure α) : Reader α :=
  ⟨fun buf => match x with
    | .ok a => .ok (a, buf)
    | .error e => .error e⟩

@[simp] theorem run_pure (a : α) (buf : Bytes) :
    (pure a : Reader α).run buf = .ok (a, buf) := rfl

@[simp] theorem run_fail (e : Failure) (buf : Bytes) :
    (fail e : Reader α).run buf = .error e := rfl

@[simp] theorem run_lift_ok (a : α) (buf : Bytes) :
    (lift (.ok a) : Reader α).run buf = .ok (a, buf) := rfl

@[simp] theorem run_lift_error (e : Failure) (buf : Bytes) :
    (lift (.error e) : Reader α).run buf = .error e := rfl

/-- A lifted result that succeeds is the value, with the buffer untouched. -/
theorem run_lift_eq_ok {x : Except Failure α} {buf rest : Bytes} {a : α}
    (h : (lift x).run buf = .ok (a, rest)) : x = .ok a ∧ rest = buf := by
  cases x with
  | ok b => cases h; exact ⟨rfl, rfl⟩
  | error e => cases h

/-- One step of `bind`: run the first reader, then the continuation on what it left. -/
theorem run_bind (r : Reader α) (f : α → Reader β) (buf : Bytes) :
    (r >>= f).run buf = match r.run buf with
      | .ok (a, rest) => (f a).run rest
      | .error e => .error e := rfl

/-- A bind whose first reader succeeds continues on the bytes that reader left. -/
theorem run_bind_of_ok {r : Reader α} {f : α → Reader β} {buf rest : Bytes} {a : α}
    (h : r.run buf = .ok (a, rest)) : (r >>= f).run buf = (f a).run rest := by
  rw [run_bind, h]

/-- A failing first reader fails the whole `bind` with its error. -/
theorem run_bind_of_error {r : Reader α} {f : α → Reader β} {buf : Bytes} {e : Failure}
    (h : r.run buf = .error e) : (r >>= f).run buf = .error e := by
  rw [run_bind, h]

/-- Inversion of a successful bind: both readers succeeded, one after the other. -/
theorem run_bind_eq_ok {r : Reader α} {f : α → Reader β} {buf rest : Bytes} {b : β} :
    (r >>= f).run buf = .ok (b, rest) ↔
      ∃ a mid, r.run buf = .ok (a, mid) ∧ (f a).run mid = .ok (b, rest) := by
  rw [run_bind]
  constructor
  · intro h
    split at h
    · exact ⟨_, _, ‹_›, h⟩
    · cases h
  · rintro ⟨a, mid, hr, hf⟩
    rw [hr]
    exact hf

/-- A reader shrinks the buffer when whatever it leaves is no longer than what it got. -/
def Shrinks (r : Reader α) : Prop :=
  ∀ buf a rest, r.run buf = .ok (a, rest) → rest.length ≤ buf.length

/-- `pure` consumes nothing. -/
theorem shrinks_pure (a : α) : Shrinks (pure a : Reader α) := by
  intro buf b rest h
  cases h
  exact le_rfl

/-- A failure never returns a rest. -/
theorem shrinks_fail (e : Failure) : Shrinks (fail e : Reader α) := by
  intro buf a rest h
  cases h

/-- Two readers that never grow the buffer compose into one. -/
theorem Shrinks.bind {r : Reader α} {f : α → Reader β} (hr : Shrinks r)
    (hf : ∀ a, Shrinks (f a)) : Shrinks (r >>= f) := by
  intro buf b rest h
  obtain ⟨a, mid, h₁, h₂⟩ := run_bind_eq_ok.mp h
  exact (hf a _ _ _ h₂).trans (hr _ _ _ h₁)

/-- Every panic of a reader, on any buffer, carries a message that `allowed` admits. With
`allowed` false everywhere the reader never panics: every malformed input comes back as a
`ReadError`, as the spec asks of every decoder. -/
def PanicsOnly (allowed : String → Prop) {α : Type} (r : Reader α) : Prop :=
  ∀ buf msg, r.run buf = .error (.panic msg) → allowed msg

variable {allowed : String → Prop}

/-- `pure` never fails. -/
theorem panicsOnly_pure (a : α) : PanicsOnly allowed (pure a : Reader α) := by
  intro buf msg h
  cases h

/-- A `ReadError` failure is not a panic. -/
theorem panicsOnly_fail_read (e : ReadError) : PanicsOnly allowed (fail (.read e) : Reader α) := by
  intro buf msg h
  cases h

/-- A panic of a `bind` is a panic of one of its two parts. -/
theorem PanicsOnly.bind {r : Reader α} {f : α → Reader β} (hr : PanicsOnly allowed r)
    (hf : ∀ a, PanicsOnly allowed (f a)) : PanicsOnly allowed (r >>= f) := by
  intro buf msg h
  rw [run_bind] at h
  split at h
  next => exact hf _ _ _ h
  next e he =>
    cases h
    exact hr _ _ he

/-- A reader decides on the bytes it takes alone: it takes a prefix of the buffer, and on that
prefix followed by anything else it returns the same value and leaves what follows. -/
def Prefixed (r : Reader α) : Prop :=
  ∀ buf a rest, r.run buf = .ok (a, rest) →
    ∃ taken, buf = taken ++ rest ∧ ∀ s, r.run (taken ++ s) = .ok (a, s)

/-- `pure` takes the empty prefix. -/
theorem prefixed_pure (a : α) : Prefixed (pure a : Reader α) := by
  intro buf b rest h
  cases h
  exact ⟨[], rfl, fun _ => rfl⟩

/-- A failure never returns, so it is vacuously prefixed. -/
theorem prefixed_fail (e : Failure) : Prefixed (fail e : Reader α) := by
  intro buf a rest h
  cases h

/-- Two readers that decide on their prefix compose into one that does. -/
theorem Prefixed.bind {r : Reader α} {f : α → Reader β} (hr : Prefixed r)
    (hf : ∀ a, Prefixed (f a)) : Prefixed (r >>= f) := by
  intro buf b rest h
  obtain ⟨a, mid, h₁, h₂⟩ := run_bind_eq_ok.mp h
  obtain ⟨taken₁, rfl, hr'⟩ := hr _ _ _ h₁
  obtain ⟨taken₂, rfl, hf'⟩ := hf a _ _ _ h₂
  refine ⟨taken₁ ++ taken₂, (List.append_assoc _ _ _).symm, fun s => ?_⟩
  rw [List.append_assoc, run_bind_of_ok (hr' _), hf']

end Reader

open Reader

/-- `ReadBuf::get_slice(n)`: the next `n` bytes, or `NotEnough` when fewer remain. -/
def getSlice (n : Nat) : Reader Bytes :=
  ⟨fun buf => if n ≤ buf.length then .ok (buf.take n, buf.drop n)
    else .error (.read (.notEnough n buf.length))⟩

/-- A slice read succeeds exactly on a buffer that starts with `n` bytes, and splits it there. -/
theorem getSlice_eq_ok {n : Nat} {buf bs rest : Bytes} :
    (getSlice n).run buf = .ok (bs, rest) ↔ bs.length = n ∧ buf = bs ++ rest := by
  simp only [getSlice]
  split
  · simp only [Except.ok.injEq, Prod.mk.injEq]
    constructor
    · rintro ⟨rfl, rfl⟩
      simp [*]
    · rintro ⟨rfl, rfl⟩
      simp
  · simp only [reduceCtorEq, false_iff, not_and]
    rintro rfl rfl
    simp_all

@[simp] theorem getSlice_append (bs s : Bytes) :
    (getSlice bs.length).run (bs ++ s) = .ok (bs, s) :=
  getSlice_eq_ok.mpr ⟨rfl, rfl⟩

/-- A buffer shorter than the slice is `NotEnough`, naming the bytes asked for and those left. -/
theorem getSlice_of_lt {n : Nat} {buf : Bytes} (h : buf.length < n) :
    (getSlice n).run buf = .error (.read (.notEnough n buf.length)) := by
  simp [getSlice, Nat.not_le.mpr h]

/-- `get_slice` leaves a suffix of the buffer. -/
theorem shrinks_getSlice (n : Nat) : Shrinks (getSlice n) := by
  intro buf bs rest h
  obtain ⟨-, rfl⟩ := getSlice_eq_ok.mp h
  simp

/-! ## Big-endian integers -/

/-- The `n` big-endian bytes of `x`, most significant first; `x` counts modulo `256 ^ n`. -/
def beBytes : Nat → Nat → Bytes
  | 0, _ => []
  | n + 1, x => beBytes n (x / 256) ++ [UInt8.ofNat x]

/-- The number that big-endian bytes spell. -/
def beNat (bs : Bytes) : Nat := bs.foldl (fun acc b => acc * 256 + b.toNat) 0

@[simp] theorem beBytes_zero (x : Nat) : beBytes 0 x = [] := rfl

@[simp] theorem beBytes_length (n x : Nat) : (beBytes n x).length = n := by
  induction n generalizing x with
  | zero => rfl
  | succ n ih => simp [beBytes, ih]

/-- Appending a byte shifts the big-endian number by a byte and adds it. -/
theorem beNat_append_singleton (bs : Bytes) (b : UInt8) :
    beNat (bs ++ [b]) = beNat bs * 256 + b.toNat := by
  simp [beNat, List.foldl_append]

/-- Decoding the `n` bytes of `x` gives `x` back, modulo the width. -/
theorem beNat_beBytes (n x : Nat) : beNat (beBytes n x) = x % 256 ^ n := by
  induction n generalizing x with
  | zero => simp [beBytes, beNat, Nat.mod_one]
  | succ n ih =>
    rw [beBytes, beNat_append_singleton, ih, Nat.pow_succ, Nat.mul_comm (256 ^ n), Nat.mod_mul]
    have hbyte : (UInt8.ofNat x).toNat = x % 256 := rfl
    omega

/-- `get_uN`'s common part: `n` bytes read as a big-endian number. -/
def getBE (n : Nat) : Reader Nat := do
  let bs ← getSlice n
  pure (beNat bs)

/-- A big-endian number of `k` bytes is below `256 ^ k`. -/
theorem beNat_lt (bs : Bytes) : beNat bs < 256 ^ bs.length := by
  induction bs using List.reverseRecOn with
  | nil => decide
  | append_singleton bs b ih =>
    have hstep := Nat.mul_le_mul_right 256 (Nat.succ_le_of_lt ih)
    have hb := b.toNat_lt_size
    rw [beNat_append_singleton, List.length_append, List.length_singleton, Nat.pow_succ]
    simp only [UInt8.size, Nat.succ_eq_add_one] at hstep hb
    omega

/-- Big-endian bytes are the bytes of the number they spell. -/
theorem beBytes_beNat (bs : Bytes) : beBytes bs.length (beNat bs) = bs := by
  induction bs using List.reverseRecOn with
  | nil => rfl
  | append_singleton bs b ih =>
    have hb := b.toNat_lt_size
    simp only [UInt8.size] at hb
    have hdiv : (beNat bs * 256 + b.toNat) / 256 = beNat bs := by omega
    have hbyte : UInt8.ofNat (beNat bs * 256 + b.toNat) = b :=
      UInt8.toNat.inj (show (beNat bs * 256 + b.toNat) % 256 = b.toNat by omega)
    rw [List.length_append, List.length_singleton, beBytes, beNat_append_singleton, hdiv, hbyte, ih]

/-- `n` big-endian bytes read back to the number modulo `256 ^ n`. -/
theorem getBE_beBytes (n x : Nat) (s : Bytes) :
    (getBE n).run (beBytes n x ++ s) = .ok (x % 256 ^ n, s) := by
  have h := getSlice_append (beBytes n x) s
  rw [beBytes_length] at h
  rw [getBE, run_bind_of_ok h, run_pure, beNat_beBytes]

/-- `ReadBuf::get_u8`: the next byte. -/
def getU8 : Reader UInt8 :=
  ⟨fun buf => match buf with
    | b :: rest => .ok (b, rest)
    | [] => .error (.read (.notEnough 1 0))⟩

/-- `ReadBuf::get_u16`. -/
def getU16 : Reader UInt16 := do
  let v ← getBE 2
  pure (UInt16.ofNat v)

/-- `ReadBuf::get_u32`. -/
def getU32 : Reader UInt32 := do
  let v ← getBE 4
  pure (UInt32.ofNat v)

/-- `ReadBuf::get_u64`. -/
def getU64 : Reader UInt64 := do
  let v ← getBE 8
  pure (UInt64.ofNat v)

/-- `ReadBuf::get_u128`; Rust's `u128` is a 128-bit vector here. -/
def getU128 : Reader (BitVec 128) := do
  let v ← getBE 16
  pure (BitVec.ofNat 128 v)

/-- `Codec::put_u8`. -/
def putU8 (v : UInt8) : Bytes := [v]

/-- `Codec::put_u16`. -/
def putU16 (v : UInt16) : Bytes := beBytes 2 v.toNat

/-- `Codec::put_u32`. -/
def putU32 (v : UInt32) : Bytes := beBytes 4 v.toNat

/-- `Codec::put_u64`. -/
def putU64 (v : UInt64) : Bytes := beBytes 8 v.toNat

/-- `Codec::put_u128`. -/
def putU128 (v : BitVec 128) : Bytes := beBytes 16 v.toNat

@[simp] theorem getU8_cons (b : UInt8) (s : Bytes) : getU8.run (b :: s) = .ok (b, s) := rfl

@[simp] theorem getU8_nil : getU8.run [] = .error (.read (.notEnough 1 0)) := rfl

/-- `get_u8` accepts exactly a nonempty buffer and returns its first byte. -/
theorem getU8_eq_ok {buf rest : Bytes} {b : UInt8} :
    getU8.run buf = .ok (b, rest) ↔ buf = b :: rest := by
  cases buf with
  | nil => simp [getU8]
  | cons c s =>
    simp only [getU8, Except.ok.injEq, Prod.mk.injEq, List.cons.injEq]

@[simp] theorem getU8_putU8 (v : UInt8) (s : Bytes) : getU8.run (putU8 v ++ s) = .ok (v, s) :=
  rfl

@[simp] theorem getU16_putU16 (v : UInt16) (s : Bytes) :
    getU16.run (putU16 v ++ s) = .ok (v, s) := by
  have hv : v.toNat < 256 ^ 2 := v.toNat_lt_size
  rw [getU16, putU16, run_bind_of_ok (getBE_beBytes 2 _ s), run_pure,
    Nat.mod_eq_of_lt hv, show UInt16.ofNat v.toNat = v from UInt16.toNat.inj (Nat.mod_eq_of_lt hv)]

@[simp] theorem getU32_putU32 (v : UInt32) (s : Bytes) :
    getU32.run (putU32 v ++ s) = .ok (v, s) := by
  have hv : v.toNat < 256 ^ 4 := v.toNat_lt_size
  rw [getU32, putU32, run_bind_of_ok (getBE_beBytes 4 _ s), run_pure,
    Nat.mod_eq_of_lt hv, show UInt32.ofNat v.toNat = v from UInt32.toNat.inj (Nat.mod_eq_of_lt hv)]

@[simp] theorem getU64_putU64 (v : UInt64) (s : Bytes) :
    getU64.run (putU64 v ++ s) = .ok (v, s) := by
  have hv : v.toNat < 256 ^ 8 := v.toNat_lt_size
  rw [getU64, putU64, run_bind_of_ok (getBE_beBytes 8 _ s), run_pure,
    Nat.mod_eq_of_lt hv, show UInt64.ofNat v.toNat = v from UInt64.toNat.inj (Nat.mod_eq_of_lt hv)]

@[simp] theorem getU128_putU128 (v : BitVec 128) (s : Bytes) :
    getU128.run (putU128 v ++ s) = .ok (v, s) := by
  have hv : v.toNat < 256 ^ 16 := v.isLt
  rw [getU128, putU128, run_bind_of_ok (getBE_beBytes 16 _ s), run_pure,
    Nat.mod_eq_of_lt hv, BitVec.ofNat_toNat, BitVec.setWidth_eq]

/-- Sixteen big-endian bytes determine the `u128`: the read inverts the write. -/
theorem putU128_injective : Function.Injective putU128 := fun a b h => by
  have hread := getU128_putU128 a []
  rw [h, getU128_putU128] at hread
  exact (Prod.mk.inj (Except.ok.inj hread)).1.symm

@[simp] theorem putU128_length (v : BitVec 128) : (putU128 v).length = 16 := beBytes_length _ _

@[simp] theorem putU8_length (v : UInt8) : (putU8 v).length = 1 := rfl

@[simp] theorem putU16_length (v : UInt16) : (putU16 v).length = 2 := beBytes_length _ _

/-- `get_u8` leaves a suffix of the buffer. -/
theorem shrinks_getU8 : Shrinks getU8 := by
  intro buf a rest h
  cases buf with
  | nil => cases h
  | cons b s =>
    cases h
    exact Nat.le_succ _

/-- Whatever `get_be n` accepts is the `n` big-endian bytes of the number it returns. -/
theorem getBE_eq_ok {n : Nat} {buf rest : Bytes} {v : Nat} (h : (getBE n).run buf = .ok (v, rest)) :
    v < 256 ^ n ∧ buf = beBytes n v ++ rest := by
  obtain ⟨bs, mid, hbs, hv⟩ := run_bind_eq_ok.mp h
  obtain ⟨hlen, rfl⟩ := getSlice_eq_ok.mp hbs
  cases hv
  exact ⟨hlen ▸ beNat_lt bs, by rw [← hlen, beBytes_beNat]⟩

/-- Whatever `get_u16` accepts is the encoding of the value it returns, then the bytes it
leaves. -/
theorem getU16_eq_ok {buf rest : Bytes} {v : UInt16} (h : getU16.run buf = .ok (v, rest)) :
    buf = putU16 v ++ rest := by
  obtain ⟨n, mid, hn, hv⟩ := run_bind_eq_ok.mp h
  cases hv
  obtain ⟨hlt, hbuf⟩ := getBE_eq_ok hn
  rw [hbuf, putU16, show (UInt16.ofNat n).toNat = n from Nat.mod_eq_of_lt hlt]

/-- A tag read consumes its two bytes. -/
theorem getU16_length {buf rest : Bytes} {v : UInt16} (h : getU16.run buf = .ok (v, rest)) :
    rest.length + 2 = buf.length := by
  rw [getU16_eq_ok h, List.length_append, putU16_length, Nat.add_comm]

/-- `get_slice` fails only with `NotEnoughBytes`. -/
theorem panicsOnly_getSlice {allowed : String → Prop} (n : Nat) :
    PanicsOnly allowed (getSlice n) := by
  intro buf msg h
  dsimp only [getSlice] at h
  split at h <;> cases h

/-- `get_u8` fails only with `NotEnoughBytes`. -/
theorem panicsOnly_getU8 {allowed : String → Prop} : PanicsOnly allowed getU8 := by
  intro buf msg h
  cases buf <;> cases h

/-- `get_slice n` decides on its `n` bytes alone. -/
theorem prefixed_getSlice (n : Nat) : Prefixed (getSlice n) := by
  intro buf bs rest h
  obtain ⟨hlen, rfl⟩ := getSlice_eq_ok.mp h
  exact ⟨bs, rfl, fun s => hlen ▸ getSlice_append bs s⟩

/-- `get_u8` decides on its one byte alone. -/
theorem prefixed_getU8 : Prefixed getU8 := by
  intro buf b rest h
  rw [getU8_eq_ok.mp h]
  exact ⟨[b], rfl, fun _ => rfl⟩

/-- Whatever `get_u32` accepts is the encoding of the value it returns, then the bytes it
leaves. -/
theorem getU32_eq_ok {buf rest : Bytes} {v : UInt32} (h : getU32.run buf = .ok (v, rest)) :
    buf = putU32 v ++ rest := by
  obtain ⟨n, mid, hn, hv⟩ := run_bind_eq_ok.mp h
  cases hv
  obtain ⟨hlt, hbuf⟩ := getBE_eq_ok hn
  rw [hbuf, putU32, show (UInt32.ofNat n).toNat = n from Nat.mod_eq_of_lt hlt]

/-- A number below `256 ^ 16`, as a `u128`, is written as its sixteen big-endian bytes. -/
theorem putU128_ofNat {n : Nat} (hlt : n < 256 ^ 16) :
    putU128 (BitVec.ofNat 128 n) = beBytes 16 n := by
  have hlt' : n < 2 ^ 128 := hlt
  rw [putU128, BitVec.toNat_ofNat, Nat.mod_eq_of_lt hlt']

/-- Whatever `get_u128` accepts is the encoding of the value it returns, then the bytes it
leaves. -/
theorem getU128_eq_ok {buf rest : Bytes} {v : BitVec 128} (h : getU128.run buf = .ok (v, rest)) :
    buf = putU128 v ++ rest := by
  obtain ⟨n, mid, hn, hv⟩ := run_bind_eq_ok.mp h
  cases hv
  obtain ⟨hlt, hbuf⟩ := getBE_eq_ok hn
  rw [hbuf, putU128_ofNat hlt]

/-! ## Properties of every reader built from the primitives -/

/-- A property of readers that `pure`, a `ReadError` failure, `get_slice` and `get_u8` have
and that `bind` keeps. Every decoder of the model that fails only with `ReadError`s is built
from these, so each such property is proved of it once. -/
structure Reader.Closed (P : ∀ {α : Type}, Reader α → Prop) : Prop where
  pure : ∀ {α : Type} (a : α), P (pure a : Reader α)
  failRead : ∀ {α : Type} (e : ReadError), P (fail (.read e) : Reader α)
  getSlice : ∀ n, P (getSlice n)
  getU8 : P getU8
  bind : ∀ {α β : Type} {r : Reader α} {f : α → Reader β}, P r → (∀ a, P (f a)) → P (r >>= f)

/-- Never growing the buffer is a closed property. -/
theorem shrinks_closed : Reader.Closed Shrinks :=
  ⟨shrinks_pure, fun _ => shrinks_fail _, shrinks_getSlice, shrinks_getU8, Shrinks.bind⟩

/-- Panicking only with allowed messages is a closed property. -/
theorem panicsOnly_closed {allowed : String → Prop} : Reader.Closed (PanicsOnly allowed) :=
  ⟨panicsOnly_pure, panicsOnly_fail_read, panicsOnly_getSlice, panicsOnly_getU8,
    PanicsOnly.bind⟩

/-- Deciding on the bytes taken is a closed property. -/
theorem prefixed_closed : Reader.Closed Prefixed :=
  ⟨prefixed_pure, fun _ => prefixed_fail _, prefixed_getSlice, prefixed_getU8, Prefixed.bind⟩

namespace Reader.Closed

variable {P : ∀ {α : Type}, Reader α → Prop} (hP : Reader.Closed P)

include hP

/-- `get_be n` has every closed property. -/
theorem getBE (n : Nat) : P (RustCardano.getBE n) := hP.bind (hP.getSlice n) fun _ => hP.pure _

/-- `get_u16` has every closed property. -/
theorem getU16 : P RustCardano.getU16 := hP.bind (hP.getBE 2) fun _ => hP.pure _

/-- `get_u32` has every closed property. -/
theorem getU32 : P RustCardano.getU32 := hP.bind (hP.getBE 4) fun _ => hP.pure _

/-- `get_u64` has every closed property. -/
theorem getU64 : P RustCardano.getU64 := hP.bind (hP.getBE 8) fun _ => hP.pure _

/-- `get_u128` has every closed property. -/
theorem getU128 : P RustCardano.getU128 := hP.bind (hP.getBE 16) fun _ => hP.pure _

end Reader.Closed


/-! ## Vectors -/

/-- `mempack::read_vec(buf, n)`: `n` values read one after the other. -/
def readVec {α : Type} (r : Reader α) : Nat → Reader (List α)
  | 0 => pure []
  | n + 1 => do
    let a ← r
    let as ← readVec r n
    pure (a :: as)

/-- A vector of values that each read back from their own bytes reads back whole. -/
theorem readVec_flatMap {α : Type} {r : Reader α} {ser : α → Bytes}
    (hr : ∀ a s, r.run (ser a ++ s) = .ok (a, s)) (as : List α) (s : Bytes) :
    (readVec r as.length).run (as.flatMap ser ++ s) = .ok (as, s) := by
  induction as with
  | nil => rfl
  | cons a as ih =>
    rw [List.length_cons, readVec, List.flatMap_cons, List.append_assoc,
      run_bind_of_ok (hr a _), run_bind_of_ok ih, run_pure]

/-- Values written at one fixed width, one after the other, take that width each. -/
theorem length_flatMap_of_width {α : Type} {f : α → Bytes} {w : Nat}
    (hw : ∀ a, (f a).length = w) (l : List α) : (l.flatMap f).length = w * l.length := by
  induction l with
  | nil => rfl
  | cons a l ih => rw [List.flatMap_cons, List.length_append, ih, hw, List.length_cons, Nat.mul_succ,
      Nat.add_comm]

/-- Values of one fixed width, written one after the other by an injective writer, are
determined by the bytes once their number is known; so is what follows them. -/
theorem flatMap_append_inj {α : Type} {f : α → Bytes} {w : Nat} (hw : ∀ a, (f a).length = w)
    (hf : Function.Injective f) {l₁ l₂ : List α} {s₁ s₂ : Bytes} (hlen : l₁.length = l₂.length)
    (h : l₁.flatMap f ++ s₁ = l₂.flatMap f ++ s₂) : l₁ = l₂ ∧ s₁ = s₂ := by
  induction l₁ generalizing l₂ with
  | nil =>
    cases l₂ with
    | nil => exact ⟨rfl, h⟩
    | cons => cases hlen
  | cons a l₁ ih =>
    cases l₂ with
    | nil => cases hlen
    | cons b l₂ =>
      rw [List.flatMap_cons, List.flatMap_cons, List.append_assoc, List.append_assoc] at h
      obtain ⟨hab, hrest⟩ := List.append_inj h (by rw [hw, hw])
      obtain ⟨rfl, hs⟩ := ih (Nat.succ.inj hlen) hrest
      exact ⟨by rw [hf hab], hs⟩

/-- `read_vec` returns as many values as it was asked for. -/
theorem readVec_length {α : Type} {r : Reader α} :
    ∀ {n : Nat} {buf rest : Bytes} {as : List α}, (readVec r n).run buf = .ok (as, rest) →
      as.length = n
  | 0, _, _, _, h => by cases h; rfl
  | n + 1, _, _, _, h => by
    obtain ⟨a, mid, -, h⟩ := run_bind_eq_ok.mp h
    obtain ⟨as, mid', has, hpure⟩ := run_bind_eq_ok.mp h
    cases hpure
    exact congrArg (· + 1) (readVec_length has)

/-- Whatever `read_vec` accepts is the encodings of as many values as it was asked for, one
after the other, when the element reader accepts only encodings. -/
theorem readVec_eq_ok {α : Type} {r : Reader α} {ser : α → Bytes}
    (hr : ∀ buf a rest, r.run buf = .ok (a, rest) → buf = ser a ++ rest) :
    ∀ {n : Nat} {buf rest : Bytes} {as : List α}, (readVec r n).run buf = .ok (as, rest) →
      as.length = n ∧ buf = as.flatMap ser ++ rest
  | 0, _, _, _, h => by cases h; exact ⟨rfl, rfl⟩
  | n + 1, _, _, _, h => by
    obtain ⟨a, mid, ha, h⟩ := run_bind_eq_ok.mp h
    obtain ⟨as, mid', has, hpure⟩ := run_bind_eq_ok.mp h
    cases hpure
    obtain ⟨hlen, rfl⟩ := readVec_eq_ok hr has
    exact ⟨congrArg (· + 1) hlen, by rw [hr _ _ _ ha, List.flatMap_cons, List.append_assoc]⟩

/-- Reading `n` values with a reader that has a closed property has it too. -/
theorem Reader.Closed.readVec {P : ∀ {α : Type}, Reader α → Prop} (hP : Reader.Closed P)
    {α : Type} {r : Reader α} (hr : P r) (n : Nat) : P (RustCardano.readVec r n) := by
  induction n with
  | zero => exact hP.pure _
  | succ n ih => exact hP.bind hr fun _ => hP.bind ih fun _ => hP.pure _

end RustCardano
