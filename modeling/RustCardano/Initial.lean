import RustCardano.Cbor
import Mathlib.Logic.Nontrivial.Defs

/-!
# Initial entries

`message/initial.rs`: the `Initial` message carries configuration parameters written one after
the other, with no count and no end mark, and `read` reads parameters until the buffer ends.
`ConfigParam` and its codec live outside this repository's files, so the codec is a parameter.
The loop stops only at the end of the buffer, and a parameter read that succeeded without
taking a byte would keep it going forever, so the model gives the loop a number of turns.
-/

namespace RustCardano

open Reader

/-- The codec of `ConfigParam`, outside this repository's files. -/
structure ConfigParamCodec (ConfigParam : Type) where
  /-- `ConfigParam::serialize`. -/
  serialize : ConfigParam → Bytes
  /-- `Readable for ConfigParam`. -/
  read : Reader ConfigParam

/-- `InitialEnts(Vec<ConfigParam>)`. -/
structure InitialEnts (ConfigParam : Type) where
  configs : List ConfigParam
  deriving DecidableEq

variable {ConfigParam : Type} (P : ConfigParamCodec ConfigParam)

/-- The codec is self-delimiting: a parameter reads back from its bytes, whatever follows them,
and leaves what follows. -/
def ConfigParamCodec.SelfDelimiting : Prop :=
  ∀ c rest, P.read.run (P.serialize c ++ rest) = .ok (c, rest)

/-- `InitialEnts::serialize`: each parameter's bytes, in order. -/
def InitialEnts.serialize (ents : InitialEnts ConfigParam) : Bytes :=
  ents.configs.flatMap P.serialize

/-- The `while !buf.is_end()` loop of `InitialEnts::read`, from the parameters pushed so far,
for at most `fuel` turns: `none` when it has not stopped by then. -/
def InitialEnts.readLoop :
    Nat → List ConfigParam → Bytes → Option (Except Failure (List ConfigParam × Bytes))
  | _, configs, [] => some (.ok (configs, []))
  | 0, _, _ :: _ => none
  | fuel + 1, configs, b :: rest =>
    match P.read.run (b :: rest) with
    | .ok (config, rest') => InitialEnts.readLoop fuel (configs ++ [config]) rest'
    | .error e => some (.error e)

/-- `InitialEnts::read`, its loop given `fuel` turns. -/
def InitialEnts.read (fuel : Nat) (buf : Bytes) :
    Option (Except Failure (InitialEnts ConfigParam × Bytes)) :=
  (InitialEnts.readLoop P fuel [] buf).map fun r => r.map fun (configs, rest) => (⟨configs⟩, rest)

/-- A codec for concrete runs: a parameter is one byte. -/
def ConfigParamCodec.byte : ConfigParamCodec UInt8 where
  serialize := putU8
  read := getU8

/-! ## One turn -/

namespace InitialEnts

variable {P} {fuel : Nat} {configs : List ConfigParam}

/-- At the end of the buffer the loop returns the parameters read so far. -/
theorem readLoop_nil (fuel : Nat) (configs : List ConfigParam) :
    readLoop P fuel configs [] = some (.ok (configs, [])) := by
  cases fuel <;> rfl

/-- A parameter read from a nonempty buffer is pushed and the loop goes on after it. -/
theorem readLoop_of_ok {b : UInt8} {rest rest' : Bytes} {config : ConfigParam}
    (h : P.read.run (b :: rest) = .ok (config, rest')) :
    readLoop P (fuel + 1) configs (b :: rest) = readLoop P fuel (configs ++ [config]) rest' := by
  rw [readLoop, h]

/-- A parameter that fails to read stops the loop with its error. -/
theorem readLoop_of_error {b : UInt8} {rest : Bytes} {e : Failure}
    (h : P.read.run (b :: rest) = .error e) :
    readLoop P (fuel + 1) configs (b :: rest) = some (.error e) := by
  rw [readLoop, h]

/-- With a parameter reader that takes a byte whenever it succeeds, the loop stops within as
many turns as the buffer has bytes: running out of turns stands only for a reader that does
not. -/
theorem readLoop_stops (hconsumes : P.read.Consumes) (configs : List ConfigParam) (buf : Bytes)
    (hfuel : buf.length ≤ fuel) : ∃ r, readLoop P fuel configs buf = some r := by
  induction fuel generalizing configs buf with
  | zero =>
    rw [List.eq_nil_of_length_eq_zero (Nat.le_zero.mp hfuel)]
    exact ⟨_, readLoop_nil 0 configs⟩
  | succ fuel ih =>
    cases buf with
    | nil => exact ⟨_, readLoop_nil _ configs⟩
    | cons b rest =>
      cases hread : P.read.run (b :: rest) with
      | ok read =>
        have hshorter := hconsumes _ _ _ hread
        rw [readLoop_of_ok hread]
        exact ih _ _ (by rw [List.length_cons] at hshorter hfuel; omega)
      | error e => exact ⟨_, readLoop_of_error hread⟩

end InitialEnts

/-- The byte codec takes one byte whenever it reads. -/
theorem ConfigParamCodec.byte_consumes : ConfigParamCodec.byte.read.Consumes := by
  intro buf b rest h
  rw [getU8_eq_ok.mp h, List.length_cons]
  exact Nat.lt_succ_self _

theorem InitialEnts.readLoop_stops_two_bytes :
    ConfigParamCodec.byte.read.Consumes ∧ ([1, 2] : Bytes).length ≤ 2 ∧
      ∃ r, InitialEnts.readLoop ConfigParamCodec.byte 2 [] [1, 2] = some r :=
  ⟨ConfigParamCodec.byte_consumes, by decide,
    InitialEnts.readLoop_stops ConfigParamCodec.byte_consumes [] [1, 2] (by decide)⟩

/-! ## What `read` accepts -/

/-- The codec reads only encodings: whatever `read` accepts is the serialization of the
parameter it returns, then the bytes it leaves. -/
def ConfigParamCodec.Sound : Prop :=
  ∀ buf c rest, P.read.run buf = .ok (c, rest) → buf = P.serialize c ++ rest

namespace InitialEnts

variable {P} {fuel : Nat} {configs : List ConfigParam}

/-- With a codec that reads only encodings, from any parameters pushed so far, the loop returns
them followed by new parameters whose serialization is what it read. -/
theorem readLoop_eq_ok (hP : P.Sound) {acc : List ConfigParam} {buf rest : Bytes}
    (h : readLoop P fuel acc buf = some (.ok (configs, rest))) :
    ∃ news, configs = acc ++ news ∧ buf = news.flatMap P.serialize := by
  induction fuel, acc, buf using readLoop.induct P with
  | case1 fuel acc =>
    rw [readLoop_nil] at h
    cases h
    exact ⟨[], (List.append_nil _).symm, rfl⟩
  | case2 acc b bs => cases h
  | case3 fuel acc b bs config rest' hread ih =>
    rw [readLoop_of_ok hread] at h
    obtain ⟨news, rfl, hnews⟩ := ih h
    refine ⟨config :: news, by rw [List.append_assoc, List.singleton_append], ?_⟩
    rw [hP _ _ _ hread, hnews, List.flatMap_cons]
  | case4 fuel acc b bs e hread =>
    rw [readLoop_of_error hread] at h
    cases h

end InitialEnts

/-- The byte codec reads only encodings. -/
theorem ConfigParamCodec.byte_sound : ConfigParamCodec.byte.Sound :=
  fun _ _ _ h => getU8_eq_ok.mp h

/-- With a codec that reads only encodings, whatever `InitialEnts::read` accepts is the
serialization of the parameters it returns: `serialize` writes the buffer back. -/
theorem InitialEnts.read_eq_serialize_of_sound (hP : P.Sound) {fuel : Nat} {buf rest : Bytes}
    {ents : InitialEnts ConfigParam} (h : InitialEnts.read P fuel buf = some (.ok (ents, rest))) :
    buf = ents.serialize P := by
  obtain ⟨r, hloop, hr⟩ := Option.map_eq_some'.mp h
  rcases r with _ | ⟨configs, rest'⟩ <;> cases hr
  obtain ⟨news, rfl, hnews⟩ := readLoop_eq_ok hP hloop
  exact hnews

theorem InitialEnts.read_eq_serialize_of_sound_two_bytes :
    ConfigParamCodec.byte.Sound ∧
      InitialEnts.read ConfigParamCodec.byte 2 [1, 2] = some (.ok (⟨[1, 2]⟩, [])) ∧
      ([1, 2] : Bytes) = (⟨[1, 2]⟩ : InitialEnts UInt8).serialize ConfigParamCodec.byte :=
  have h : InitialEnts.read ConfigParamCodec.byte 2 [1, 2] = some (.ok (⟨[1, 2]⟩, [])) := rfl
  ⟨ConfigParamCodec.byte_sound, h,
    InitialEnts.read_eq_serialize_of_sound _ ConfigParamCodec.byte_sound h⟩

/-! ## Round trip -/

/-- With a self-delimiting codec and more than one parameter value, as `ConfigParam` has, no
parameter is written as no bytes: the empty encoding would read back as that parameter before
any other. -/
theorem ConfigParamCodec.SelfDelimiting.serialize_ne_nil [Nontrivial ConfigParam]
    {P : ConfigParamCodec ConfigParam} (hP : P.SelfDelimiting) (c : ConfigParam) :
    P.serialize c ≠ [] := by
  intro hnil
  obtain ⟨c', hne⟩ := exists_ne c
  have hself := hP c (P.serialize c' ++ [])
  rw [hnil, List.nil_append, hP c' []] at hself
  exact hne (Prod.mk.inj (Except.ok.inj hself)).1

/-- From any parameters pushed so far, the loop reads back parameters written one after the
other, within as many turns as there are parameters, and stops at the end of the buffer. -/
theorem InitialEnts.readLoop_flatMap [Nontrivial ConfigParam] {P : ConfigParamCodec ConfigParam}
    (hP : P.SelfDelimiting) (configs acc : List ConfigParam) {fuel : Nat}
    (hfuel : configs.length ≤ fuel) :
    readLoop P fuel acc (configs.flatMap P.serialize) = some (.ok (acc ++ configs, [])) := by
  induction configs generalizing acc fuel with
  | nil => rw [List.flatMap_nil, List.append_nil, readLoop_nil]
  | cons c configs ih =>
    cases fuel with
    | zero => exact absurd hfuel (Nat.not_succ_le_zero _)
    | succ fuel =>
      obtain ⟨b, bs, hbs⟩ := List.exists_cons_of_ne_nil (hP.serialize_ne_nil c)
      have hread := hP c (configs.flatMap P.serialize)
      rw [hbs, List.cons_append] at hread
      rw [List.flatMap_cons, hbs, List.cons_append, readLoop_of_ok hread,
        ih (acc ++ [c]) (Nat.le_of_succ_le_succ hfuel), List.append_assoc, List.singleton_append]

/-- For every list of parameters of a self-delimiting codec, `InitialEnts::read` on exactly
its serialization returns the list and consumes the whole buffer, its loop taking one turn per
parameter. -/
theorem InitialEnts.read_serialize_to_end [Nontrivial ConfigParam] (hP : P.SelfDelimiting)
    (ents : InitialEnts ConfigParam) {fuel : Nat} (hfuel : ents.configs.length ≤ fuel) :
    InitialEnts.read P fuel (ents.serialize P) = some (.ok (ents, [])) := by
  rw [read, serialize, readLoop_flatMap hP _ [] hfuel]
  rfl

/-- A codec for concrete runs: a flag as one byte, zero for `false`. -/
def ConfigParamCodec.flag : ConfigParamCodec Bool where
  serialize b := putU8 (if b then 1 else 0)
  read := do
    let byte ← getU8
    pure (byte != 0)

/-- The flag codec reads each of its encodings back, whatever follows. -/
theorem ConfigParamCodec.flag_selfDelimiting : ConfigParamCodec.flag.SelfDelimiting := by
  intro b rest
  cases b <;> rfl

theorem InitialEnts.read_serialize_two_flags :
    ConfigParamCodec.flag.SelfDelimiting ∧
      (⟨[true, false]⟩ : InitialEnts Bool).configs.length ≤ 2 ∧
      InitialEnts.read ConfigParamCodec.flag 2
          ((⟨[true, false]⟩ : InitialEnts Bool).serialize ConfigParamCodec.flag) =
        some (.ok (⟨[true, false]⟩, [])) :=
  ⟨ConfigParamCodec.flag_selfDelimiting, by decide,
    InitialEnts.read_serialize_to_end _ ConfigParamCodec.flag_selfDelimiting _ (by decide)⟩

end RustCardano
