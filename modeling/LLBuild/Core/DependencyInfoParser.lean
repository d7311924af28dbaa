import LLBuild.Basic.BinaryCoding
import LLBuild.Basic.Buffer

/-!
# The format of dependency info

The format of the tools of one platform is a sequence of records, each an opcode, an operand
and a null byte.  The first record gives the version, the others name the inputs and outputs
and the files that were looked for and not found.

`parse` is the parser, with its cursor into the buffer; `assertions` says whether assertions
are enabled.  The null byte at the end of the buffer stops the scan of every operand, unless
it is taken for an opcode.
-/

namespace LLBuild

open List

open BinaryCoding Buffer

namespace DependencyInfoParser

/-- The known opcodes. -/
inductive Opcode
  | version
  | input
  | missing
  | output
  deriving DecidableEq

namespace Opcode

/-- The byte of an opcode. -/
def toByte : Opcode → UInt8
  | version => 0x00
  | input => 0x10
  | missing => 0x11
  | output => 0x40

/-- The opcode of a byte, if it is known. -/
def ofByte (byte : UInt8) : Option Opcode :=
  [version, input, missing, output].find? (fun opcode => opcode.toByte = byte)

theorem ofByte_toByte (opcode : Opcode) :
  ofByte opcode.toByte = some opcode
  := by
  cases opcode <;> rfl

end Opcode

/-- What the parser reports. -/
inductive Action
  | error (message : String) (position : ℕ)
  | actOnVersion (operand : Bytes)
  | actOnInput (operand : Bytes)
  | actOnMissing (operand : Bytes)
  | actOnOutput (operand : Bytes)
  deriving DecidableEq

variable (assertions : Bool) (data : Bytes)

/-- Scan an operand, up to the null byte. -/
def scanOperand : (steps : ℕ) → (cur : ℕ) → Except Fault ℕ
  | 0, _ => .error .unterminated
  | steps + 1, cur => do
    let c ← read data cur
    if c = 0 then return cur
    else
      let cur ← advance data cur 1
      assert assertions (cur < data.length)
      scanOperand steps cur

/-- Handle a record. -/
def actOnRecord (opcode : UInt8) (operand : Bytes) (opcodeStart : ℕ) : Action :=
  match Opcode.ofByte opcode with
  | some .version =>
    if opcodeStart ≠ 0 then .error "invalid duplicate version" opcodeStart
    else .actOnVersion operand
  | some .input => .actOnInput operand
  | some .missing => .actOnMissing operand
  | some .output => .actOnOutput operand
  | none => .error "unknown opcode in file" opcodeStart

/-- Parse records up to the end of the buffer. -/
def parseRecords : (steps : ℕ) → (cur : ℕ) → Except Fault (List Action)
  | 0, _ => .error .unterminated
  | steps + 1, opcodeStart =>
    if opcodeStart = data.length then return []
    else do
      let opcode ← read data opcodeStart
      let operandStart ← advance data opcodeStart 1
      let operandEnd ← scanOperand assertions data (data.length + 1) operandStart
      if assertions then
        let c ← read data operandEnd
        assert assertions (c = 0 ∧ operandEnd < data.length)
      let cur ← advance data operandEnd 1
      let operand := slice data operandStart operandEnd
      -- An empty operand ends the parse.
      if operand = [] then return [.error "empty operand" opcodeStart]
      else
        let actions ← parseRecords steps cur
        return actOnRecord opcode operand opcodeStart :: actions

/-- Parse a buffer. -/
def parse : Except Fault (List Action) :=
  if data.getLast? ≠ some 0 then return [.error "missing null terminator" data.length]
  else do
    let opcode ← read data 0
    if opcode ≠ Opcode.version.toByte then return [.error "missing version record" 0]
    else parseRecords assertions data (data.length + 1) 0

/-! ### A record is read -/

variable {data} {rest operand : Bytes}

/-- The scan of an operand stops at the null byte that follows it. -/
theorem scanOperand_of_at
    (hoperand : 0 ∉ operand) {steps cur : ℕ}
    (hsteps : operand.length < steps) (h : At data cur (operand ++ 0 :: rest)) :
  scanOperand assertions data steps cur = .ok (cur + operand.length)
  := by
  induction operand generalizing steps cur with
  | nil =>
    obtain ⟨steps, rfl⟩ := Nat.exists_eq_add_one.mpr (Nat.zero_lt_of_lt hsteps)
    rw [scanOperand, h.read_eq]
    rfl
  | cons c operand ih =>
    obtain ⟨steps, rfl⟩ := Nat.exists_eq_add_one.mpr (Nat.zero_lt_of_lt hsteps)
    rw [mem_cons, not_or] at hoperand
    have hlt : cur + 1 < data.length := by
      have hlength := h.add_length
      simp only [length_cons, length_append] at hlength
      omega
    have hscan := ih hoperand.2 (Nat.lt_of_succ_lt_succ hsteps) h.tail
    rw [scanOperand, h.read_eq]
    simp only [bind, Except.bind, Ne.symm hoperand.1, if_false, h.advance_eq, assert_of hlt,
      hscan, length_cons]
    congr 1
    omega

/-- A record is read, and the parse goes on after it unless the operand is empty. -/
theorem parseRecords_of_at
    {opcode : UInt8} (hoperand : 0 ∉ operand) (steps : ℕ) {cur : ℕ}
    (h : At data cur (opcode :: (operand ++ 0 :: rest))) :
  parseRecords assertions data (steps + 1) cur
    = if operand = [] then .ok [.error "empty operand" cur]
      else (parseRecords assertions data steps (cur + 1 + operand.length + 1)).map
        (actOnRecord opcode operand cur :: ·)
  := by
  have hlength := h.tail.add_length
  rw [length_append] at hlength
  have hscan := scanOperand_of_at assertions hoperand
    (show operand.length < data.length + 1 by omega) h.tail
  have hend : At data (cur + 1 + operand.length) (0 :: rest) := h.tail.append
  rw [parseRecords, if_neg h.lt_length.ne, h.read_eq]
  simp only [bind, Except.bind, h.advance_eq, hscan, hend.read_eq, hend.advance_eq, true_and,
    assert_of hend.lt_length, h.tail.slice_eq]
  split_ifs
  · rfl
  · cases parseRecords assertions data steps (cur + 1 + operand.length + 1) <;> rfl
  · rfl
  · cases parseRecords assertions data steps (cur + 1 + operand.length + 1) <;> rfl

/-! ### Every read is inside of the buffer -/

/-- Complete records, and a last null byte where the opcode of another record is expected. -/
inductive StopsAtOpcode : Bytes → Prop
  | last : StopsAtOpcode [0]
  | record {opcode : UInt8} {operand rest : Bytes} (hne : operand ≠ []) (hoperand : 0 ∉ operand)
      (h : StopsAtOpcode rest) : StopsAtOpcode (opcode :: (operand ++ 0 :: rest))

namespace StopsAtOpcode

theorem getLast?_eq (h : StopsAtOpcode data) :
  data.getLast? = some 0
  := by
  induction h with
  | last => rfl
  | @record opcode operand rest hne hoperand h ih =>
    have hrest : rest ≠ [] := by
      rintro rfl
      cases ih
    rw [← cons_append, getLast?_append_of_ne_nil _ (cons_ne_nil _ _),
      ← singleton_append, getLast?_append_of_ne_nil _ hrest, ih]

theorem record_iff {opcode : UInt8} (hoperand : 0 ∉ operand) :
  StopsAtOpcode (opcode :: (operand ++ 0 :: rest)) ↔ operand ≠ [] ∧ StopsAtOpcode rest
  := by
  constructor
  · intro h
    generalize hdata : opcode :: (operand ++ 0 :: rest) = data at h
    cases h with
    | last => exact absurd (cons.inj hdata).2 (by simp)
    | @record opcode' operand' rest' hne hoperand' h =>
      obtain ⟨more, rfl, hmore⟩ | ⟨more, rfl, hmore⟩ :=
        append_eq_append_iff.mp (cons.inj hdata).2
      · cases more with
        | nil =>
          rw [append_nil] at hne
          exact ⟨hne, (cons.inj hmore).2 ▸ h⟩
        | cons c more => exact absurd (by simp [(cons.inj hmore).1]) hoperand'
      · cases more with
        | nil =>
          rw [append_nil]
          exact ⟨hne, (cons.inj hmore).2 ▸ h⟩
        | cons c more => exact absurd (by simp [(cons.inj hmore).1]) hoperand
  · exact fun ⟨hne, h⟩ => .record hne hoperand h

end StopsAtOpcode

/-- From the start of a record the parse reaches the end, unless it stops at an opcode. -/
theorem exists_parseRecords_iff
    (hlast : data.getLast? = some 0) {steps cur : ℕ}
    (h : At data cur rest) (hsteps : rest.length < steps) :
  (∃ actions, parseRecords assertions data steps cur = .ok actions) ↔ ¬ StopsAtOpcode rest
  := by
  induction steps generalizing cur rest with
  | zero => cases hsteps
  | succ steps ih =>
    have hsuffix : rest <:+ data := h.drop ▸ drop_suffix cur data
    cases rest with
    | nil =>
      refine iff_of_true ⟨[], ?_⟩ nofun
      rw [parseRecords, if_pos (h.eq_length_iff.mpr rfl)]
      rfl
    | cons opcode tail =>
      by_cases htail : 0 ∈ tail
      · obtain ⟨operand, rest, rfl, hoperand⟩ := eq_append_cons_of_mem htail
        rw [parseRecords_of_at assertions hoperand steps h, StopsAtOpcode.record_iff hoperand]
        split_ifs with hempty
        · exact iff_of_true ⟨_, rfl⟩ (fun h => h.1 hempty)
        · simp only [length_cons, length_append] at hsteps
          have hat : At data (cur + 1 + operand.length + 1) rest := h.tail.append.tail
          rw [not_and, ← ih hat (by omega)]
          constructor
          · rintro ⟨actions, hactions⟩ -
            cases hrest : parseRecords assertions data steps (cur + 1 + operand.length + 1) with
            | ok actions => exact ⟨actions, rfl⟩
            | error fault =>
              rw [hrest] at hactions
              cases hactions
          · intro hrest
            obtain ⟨actions, hactions⟩ := hrest hempty
            exact ⟨_, by rw [hactions]; rfl⟩
      · -- The last byte of the buffer is the opcode, and the operand is read behind it.
        have hzero : (opcode :: tail).getLast? = some 0 := by
          obtain ⟨before, rfl⟩ := hsuffix
          rwa [getLast?_append_of_ne_nil _ (cons_ne_nil _ _)] at hlast
        obtain rfl : tail = [] := by
          cases tail with
          | nil => rfl
          | cons c tail =>
            rw [getLast?_cons_cons] at hzero
            exact absurd (mem_of_getLast? hzero) htail
        obtain rfl : opcode = 0 := by simpa using hzero
        refine iff_of_false ?_ (not_not.mpr .last)
        rintro ⟨actions, hactions⟩
        rw [parseRecords, if_neg h.lt_length.ne, h.read_eq] at hactions
        simp only [bind, Except.bind, h.advance_eq, scanOperand, h.tail.read_nil] at hactions
        cases hactions

/-- **The parser does not leave the buffer**: it comes to its end without a read outside of the
buffer, and no assertion fails, exactly if the buffer is not a sequence of complete records, the
first one with the opcode of a version record, with one more null byte behind them. -/
theorem exists_parse_iff :
  (∃ actions, parse assertions data = .ok actions)
    ↔ ¬ (data.head? = some Opcode.version.toByte ∧ StopsAtOpcode data)
  := by
  rw [parse]
  split_ifs with hlast
  · exact iff_of_true ⟨_, rfl⟩ (fun h => hlast h.2.getLast?_eq)
  · rw [not_not] at hlast
    cases data with
    | nil => cases hlast
    | cons opcode tail =>
      rw [(At.zero (opcode :: tail)).read_eq]
      simp only [bind, Except.bind]
      split_ifs with hopcode
      · exact iff_of_true ⟨_, rfl⟩ (fun h => hopcode (Option.some.inj h.1))
      · rw [exists_parseRecords_iff assertions hlast (At.zero _) (Nat.lt_succ_self _), not_and]
        exact ⟨fun h _ => h, fun h => h (congrArg some (not_not.mp hopcode))⟩

/-- A single null byte is taken for the opcode of a version record, and the operand is read
behind the end of the buffer; so is an operand after a second null byte at the end. -/
theorem parse_outOfBounds :
  (∀ assertions, parse assertions [0x00] = .error (.outOfBounds 1))
    ∧ ∀ assertions, parse assertions [0x00, 0x31, 0x00, 0x00] = .error (.outOfBounds 4)
  := by decide

/-! ### What is written is read back -/

/-- A record. -/
structure Record where
  opcode : Opcode
  operand : Bytes
  deriving DecidableEq

namespace Record

/-- The bytes of a record. -/
def encode (record : Record) : Bytes := record.opcode.toByte :: (record.operand ++ [0])

/-- What the parser reports for a record. -/
def action (record : Record) : Action :=
  match record.opcode with
  | .version => .actOnVersion record.operand
  | .input => .actOnInput record.operand
  | .missing => .actOnMissing record.operand
  | .output => .actOnOutput record.operand

/-- The operand can be read back. -/
structure IsWritable (record : Record) : Prop where
  ne_nil : record.operand ≠ []
  zero_notMem : 0 ∉ record.operand

end Record

/-- The parser reports a record under its opcode; a version record has to be the first. -/
theorem actOnRecord_toByte (record : Record) {cur : ℕ} (h : record.opcode = .version → cur = 0) :
  actOnRecord record.opcode.toByte record.operand cur = record.action
  := by
  rw [actOnRecord, Opcode.ofByte_toByte, Record.action]
  cases hopcode : record.opcode with
  | version => simp [h hopcode]
  | input => rfl
  | missing => rfl
  | output => rfl

/-- A written record is read, and the parse goes on after it. -/
theorem parseRecords_encode_cons
    {record : Record} (hrecord : record.IsWritable) (steps : ℕ) {cur : ℕ}
    (h : At data cur (record.encode ++ rest)) (hversion : record.opcode = .version → cur = 0) :
  parseRecords assertions data (steps + 1) cur
    = (parseRecords assertions data steps (cur + record.encode.length)).map
        (record.action :: ·)
  := by
  have hat : At data cur (record.opcode.toByte :: (record.operand ++ 0 :: rest)) := by
    simpa [Record.encode] using h
  have hlength : cur + record.encode.length = cur + 1 + record.operand.length + 1 := by
    simp only [Record.encode, length_cons, length_append, length_nil]
    omega
  rw [parseRecords_of_at assertions hrecord.zero_notMem steps hat, if_neg hrecord.ne_nil,
    actOnRecord_toByte record hversion, hlength]

/-- The parse of written records that are not version records. -/
theorem parseRecords_encode
    {records : List Record} (hrecords : ∀ record ∈ records, record.IsWritable)
    (hversion : ∀ record ∈ records, record.opcode ≠ .version) {steps cur : ℕ}
    (hsteps : records.length < steps) (h : At data cur (records.flatMap Record.encode)) :
  parseRecords assertions data steps cur = .ok (records.map Record.action)
  := by
  induction records generalizing steps cur with
  | nil =>
    obtain ⟨steps, rfl⟩ := Nat.exists_eq_add_one.mpr (Nat.zero_lt_of_lt hsteps)
    rw [parseRecords, if_pos (h.eq_length_iff.mpr rfl)]
    rfl
  | cons record records ih =>
    obtain ⟨steps, rfl⟩ := Nat.exists_eq_add_one.mpr (Nat.zero_lt_of_lt hsteps)
    rw [forall_mem_cons] at hrecords hversion
    rw [parseRecords_encode_cons assertions hrecords.1 steps h (absurd · hversion.1),
      ih hrecords.2 hversion.2 (Nat.lt_of_succ_lt_succ hsteps) h.append]
    rfl

theorem length_le_encode (records : List Record) :
  records.length ≤ (records.flatMap Record.encode).length
  := by
  induction records with
  | nil => rfl
  | cons record records ih =>
    rw [flatMap_cons, length_append, length_cons, Record.encode, length_cons]
    omega

theorem getLast?_encode (record : Record) (records : List Record) :
  ((record :: records).flatMap Record.encode).getLast? = some 0
  := by
  induction records generalizing record with
  | nil => rw [flatMap_singleton, Record.encode, ← cons_append, getLast?_concat]
  | cons next records ih =>
    rw [flatMap_cons, getLast?_append, ih next]
    rfl

/-- **Written records are read back.**  For a version record that other records follow, the
parser reports each of them with its operand, in order, and no error. -/
theorem parse_encode
    {version : Bytes} {records : List Record} (hversion : Record.IsWritable ⟨.version, version⟩)
    (hrecords : ∀ record ∈ records, record.IsWritable ∧ record.opcode ≠ .version) :
  parse assertions ((⟨.version, version⟩ :: records).flatMap Record.encode)
    = .ok ((⟨.version, version⟩ :: records).map Record.action)
  := by
  have hlength := length_le_encode (⟨.version, version⟩ :: records)
  rw [length_cons] at hlength
  have hlast := getLast?_encode ⟨.version, version⟩ records
  set data := (⟨.version, version⟩ :: records).flatMap Record.encode with hdata
  have hat : At data 0 (Record.encode ⟨.version, version⟩ ++ records.flatMap Record.encode) :=
    hdata ▸ At.zero data
  obtain ⟨steps, hsteps⟩ := Nat.exists_eq_add_one_of_ne_zero (Nat.ne_zero_of_lt hlength)
  have hread : read data 0 = .ok Opcode.version.toByte := by
    have hopcode : At data 0
        (Opcode.version.toByte :: (version ++ [0] ++ records.flatMap Record.encode)) := by
      simpa [Record.encode] using hat
    exact hopcode.read_eq
  rw [parse, if_neg (by simpa using hlast)]
  rw [parseRecords_encode_cons assertions hversion _ hat (fun _ => rfl),
    parseRecords_encode assertions (fun r hr => (hrecords r hr).1) (fun r hr => (hrecords r hr).2)
      (by omega) hat.append]
  rfl

/-- The version `1`, the input `a`, the missing file with the bytes of two opcodes as its name
and the output `b`. -/
theorem parse_encode_four :
  parse true [0x00, 0x31, 0x00, 0x10, 0x61, 0x00, 0x11, 0x10, 0x40, 0x00, 0x40, 0x62, 0x00]
    = .ok [.actOnVersion [0x31], .actOnInput [0x61], .actOnMissing [0x10, 0x40],
        .actOnOutput [0x62]]
  := by
  have hrecords : ∀ record ∈
      [(⟨.input, [0x61]⟩ : Record), ⟨.missing, [0x10, 0x40]⟩, ⟨.output, [0x62]⟩],
      record.IsWritable ∧ record.opcode ≠ .version := by
    intro record hrecord
    refine ⟨⟨?_, ?_⟩, ?_⟩ <;> revert record <;> decide
  have hversion : Record.IsWritable ⟨.version, [0x31]⟩ := ⟨by decide, by decide⟩
  exact parse_encode true hversion hrecords

end DependencyInfoParser

end LLBuild
