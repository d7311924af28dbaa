import LLBuild.Core.Execute
import LLBuild.Ninja.CommandTask

/-!
# The values of the Ninja build as the engine stores them

A value of the Ninja build is an object with a union in it: the file information of one output,
or a pointer to an array with the file information of several outputs.  `toValue` copies the
object as it lies in memory, and the array after it; `fromValue` copies the bytes to a new object
and a new array.

The object has no gaps, and the numbers in it are stored low byte first, as the coding of the
file information has them.  So the bytes of a value with at most one output depend on the value
alone.  For several outputs the pointer is among the bytes.
-/

namespace LLBuild.Ninja

open BinaryCoding Decoder

/-! ### Objects -/

/-- The kind of a value. -/
inductive BuildValueKind where
  | existingInput
  | missingInput
  | successfulCommand
  | failedCommand
  | skippedCommand
deriving DecidableEq

namespace BuildValueKind

def toUInt32 : BuildValueKind → UInt32
  | existingInput => 0
  | missingInput => 1
  | successfulCommand => 2
  | failedCommand => 3
  | skippedCommand => 4

/-- The kind with a number. -/
def ofUInt32? (number : UInt32) : Option BuildValueKind :=
  [existingInput, missingInput, successfulCommand, failedCommand, skippedCommand].find?
    (·.toUInt32 = number)

variable (kind : BuildValueKind)

theorem ofUInt32?_toUInt32 :
  ofUInt32? kind.toUInt32 = some kind
  := by
  cases kind <;> rfl

/-- Read a kind. -/
def decode : Decoder BuildValueKind := do
  let number ← read32
  match ofUInt32? number with
  | some kind => return kind
  | none => failure

theorem reads_decode :
  Decoder.Reads decode (write32 kind.toUInt32) kind
  := by
  intro rest
  rw [decode, StateT.run_bind, reads_read32 kind.toUInt32 rest]
  simp only [Option.bind_eq_bind, Option.bind_some, ofUInt32?_toUInt32]
  rfl

end BuildValueKind

/-- The union of an object: the file information of one output, or a pointer to the file
information of several outputs, which are in an array of their own. -/
inductive ValueData where
  | asOutputInfo (outputInfo : FileInfo)
  | asOutputInfos (address : UInt64) (outputInfos : List FileInfo)
deriving DecidableEq

/-- The bytes of the union, which was all zero before a pointer was stored in it. -/
def ValueData.bytes : ValueData → Bytes
  | asOutputInfo outputInfo => outputInfo.encode
  | asOutputInfos address _ => write64 address ++ FileInfo.zero.encode.drop 8

/-- An object of the class of values. -/
@[ext]
structure ValueObject where
  kind : BuildValueKind
  numOutputInfos : UInt32
  valueData : ValueData
  commandHash : CommandSignature
deriving DecidableEq

namespace ValueObject

variable (v : ValueObject)

/-- The object as it lies in memory. -/
def bytes : Bytes :=
  write32 v.kind.toUInt32 ++ (write32 v.numOutputInfos
    ++ (v.valueData.bytes ++ write64 v.commandHash.value))

/-- The array of the file information of several outputs. -/
def asOutputInfos : List FileInfo :=
  match v.valueData with
  | .asOutputInfo _ => []
  | .asOutputInfos _ outputInfos => outputInfos

/-- The bytes of the object, and of the array if there is one. -/
def toValue : Bytes :=
  if v.numOutputInfos > 1 then v.bytes ++ v.asOutputInfos.flatMap FileInfo.encode else v.bytes

/-- Read an object; the array of several outputs is at a new address. -/
def decode (address : UInt64) : Decoder ValueObject := do
  let kind ← BuildValueKind.decode
  let numOutputInfos ← read32
  if numOutputInfos > 1 then
    let _ ← readBytes 80
    let commandHash ← read64
    let outputInfos ← readMany FileInfo.decode numOutputInfos.toNat
    return ⟨kind, numOutputInfos, .asOutputInfos address outputInfos, ⟨commandHash⟩⟩
  else
    let outputInfo ← FileInfo.decode
    let commandHash ← read64
    return ⟨kind, numOutputInfos, .asOutputInfo outputInfo, ⟨commandHash⟩⟩

/-- The object of a value, the size of which has to be that of the object and the array. -/
def fromValue (address : UInt64) (value : Bytes) : Option ValueObject :=
  match (decode address).run value with
  | some (v, []) => some v
  | _ => none

/-- The file information of the outputs. -/
def outputInfos : List FileInfo :=
  match v.valueData with
  | .asOutputInfo outputInfo => if v.numOutputInfos = 0 then [] else [outputInfo]
  | .asOutputInfos _ outputInfos => outputInfos

/-- The union is what the number of outputs says. -/
def IsWellFormed : Prop :=
  match v.valueData with
  | .asOutputInfo outputInfo =>
      v.numOutputInfos = 1 ∨ v.numOutputInfos = 0 ∧ outputInfo = .zero
  | .asOutputInfos _ outputInfos =>
      1 < outputInfos.length ∧ v.numOutputInfos.toNat = outputInfos.length

end ValueObject

/-- A value: an object the union of which is what the number of outputs says. -/
structure StoredValue extends ValueObject where
  wellFormed : toValueObject.IsWellFormed

namespace StoredValue

/-! ### Making values -/

variable (outputInfo : FileInfo)

def makeExistingInput : StoredValue :=
  ⟨⟨.existingInput, 1, .asOutputInfo outputInfo, {}⟩, .inl rfl⟩

def makeMissingInput : StoredValue :=
  ⟨⟨.missingInput, 0, .asOutputInfo .zero, {}⟩, .inr ⟨rfl, rfl⟩⟩

/-- A successful command with one output. -/
def makeSuccessfulCommand (commandHash : CommandSignature) :
    StoredValue :=
  ⟨⟨.successfulCommand, 1, .asOutputInfo outputInfo, commandHash⟩, .inl rfl⟩

variable (address : UInt64)

/-- A successful command with several outputs, the file information of which is copied to an
array at the address. -/
def makeSuccessfulCommands (outputInfos : List FileInfo)
    (commandHash : CommandSignature) (hseveral : 1 < outputInfos.length)
    (hlength : outputInfos.length < 2 ^ 32) : StoredValue :=
  ⟨⟨.successfulCommand, UInt32.ofNat outputInfos.length, .asOutputInfos address outputInfos,
    commandHash⟩, hseveral, UInt32.toNat_ofNat_of_lt' hlength⟩

def makeFailedCommand : StoredValue :=
  ⟨⟨.failedCommand, 0, .asOutputInfo .zero, {}⟩, .inr ⟨rfl, rfl⟩⟩

def makeSkippedCommand : StoredValue :=
  ⟨⟨.skippedCommand, 0, .asOutputInfo .zero, {}⟩, .inr ⟨rfl, rfl⟩⟩

/-- The values have the same kind, outputs and command hash. -/
structure Same (v w : StoredValue) : Prop where
  kind : v.kind = w.kind
  outputInfos : v.outputInfos = w.outputInfos
  commandHash : v.commandHash = w.commandHash

variable {v w : StoredValue}

/-- The value with its array, if there is one, at another address. -/
def relocate (v : StoredValue) : StoredValue :=
  match v with
  | ⟨⟨kind, numOutputInfos, .asOutputInfo outputInfo, commandHash⟩, h⟩ =>
      ⟨⟨kind, numOutputInfos, .asOutputInfo outputInfo, commandHash⟩, h⟩
  | ⟨⟨kind, numOutputInfos, .asOutputInfos _ outputInfos, commandHash⟩, h⟩ =>
      ⟨⟨kind, numOutputInfos, .asOutputInfos address outputInfos, commandHash⟩, h⟩

open ValueObject

theorem same_relocate (v : StoredValue) :
  (v.relocate address).Same v
  := by
  obtain ⟨⟨kind, numOutputInfos, valueData, commandHash⟩, h⟩ := v
  cases valueData with
  | asOutputInfo outputInfo | asOutputInfos address' outputInfos => exact ⟨rfl, rfl, rfl⟩

/-! ### Round trips -/

/-- The object is read back, with its array at the new address. -/
theorem reads_decode (v : StoredValue) :
  Decoder.Reads (decode address) v.toValue (v.relocate address).toValueObject
  := by
  obtain ⟨⟨kind, numOutputInfos, valueData, commandHash⟩, h⟩ := v
  cases valueData with
  | asOutputInfo outputInfo =>
    have hone : ¬ numOutputInfos > 1 := by
      obtain hone | ⟨hzero, -⟩ : numOutputInfos = 1 ∨ numOutputInfos = 0 ∧ outputInfo = .zero := h
      · rw [hone]
        decide
      · rw [hzero]
        decide
    rw [toValue, if_neg hone]
    refine (BuildValueKind.reads_decode kind).bind ((reads_read32 numOutputInfos).bind ?_)
    rw [if_neg hone]
    exact (FileInfo.reads_decode outputInfo).pair (reads_read64 commandHash.value) _
  | asOutputInfos address' outputInfos =>
    obtain ⟨hlength, hnumber⟩ : 1 < outputInfos.length
      ∧ numOutputInfos.toNat = outputInfos.length := h
    have hseveral : numOutputInfos > 1 := by
      rw [gt_iff_lt, UInt32.lt_iff_toNat_lt, hnumber]
      exact hlength
    have hunion : (ValueData.asOutputInfos address' outputInfos).bytes.length = 80 := by
      rfl
    have hinfos := reads_readMany FileInfo.reads_decode outputInfos
    rw [← hnumber] at hinfos
    rw [toValue, if_pos hseveral, bytes, List.append_assoc, List.append_assoc, List.append_assoc]
    refine (BuildValueKind.reads_decode kind).bind ((reads_read32 numOutputInfos).bind ?_)
    rw [if_pos hseveral, ← hunion]
    refine (reads_readBytes _).bind ?_
    exact (reads_read64 commandHash.value).pair hinfos _

/-- **Values are read back.** -/
theorem fromValue_toValue (v : StoredValue) :
  fromValue address v.toValue = some (v.relocate address).toValueObject
  := by
  have hrun := reads_decode address v []
  rw [List.append_nil] at hrun
  rw [fromValue, hrun]

/-- A value with at most one output has no array. -/
theorem exists_asOutputInfo (hone : v.outputInfos.length ≤ 1) :
  ∃ outputInfo, v.valueData = .asOutputInfo outputInfo
    ∧ ((v.numOutputInfos = 1 ∧ v.outputInfos = [outputInfo])
      ∨ (v.numOutputInfos = 0 ∧ v.outputInfos = [] ∧ outputInfo = .zero))
  := by
  obtain ⟨⟨kind, numOutputInfos, valueData, commandHash⟩, h⟩ := v
  cases valueData with
  | asOutputInfo outputInfo =>
    refine ⟨outputInfo, rfl, ?_⟩
    obtain rfl | ⟨rfl, rfl⟩ : numOutputInfos = 1 ∨ numOutputInfos = 0 ∧ outputInfo = .zero := h
    · exact .inl ⟨rfl, rfl⟩
    · exact .inr ⟨rfl, rfl, rfl⟩
  | asOutputInfos address outputInfos => exact absurd h.1 (Nat.not_lt.mpr hone)

/-- A value with at most one output is determined by its kind, its output and its command hash. -/
theorem Same.eq (h : v.Same w) (hone : v.outputInfos.length ≤ 1) :
  v.toValueObject = w.toValueObject
  := by
  obtain ⟨hkind, hinfos, hhash⟩ := h
  have hone' : w.outputInfos.length ≤ 1 := by rwa [← hinfos]
  obtain ⟨outputInfo, hdata, hv⟩ := exists_asOutputInfo hone
  obtain ⟨outputInfo', hdata', hw⟩ := exists_asOutputInfo hone'
  have hsame : v.numOutputInfos = w.numOutputInfos ∧ outputInfo = outputInfo' := by
    obtain ⟨hnumber, hone⟩ | ⟨hnumber, hnone, hzero⟩ := hv
    · obtain ⟨hnumber', hone'⟩ | ⟨-, hnone', -⟩ := hw
      · rw [hone, hone'] at hinfos
        exact ⟨hnumber.trans hnumber'.symm, List.singleton_inj.mp hinfos⟩
      · rw [hone, hnone'] at hinfos
        cases hinfos
    · obtain ⟨-, hone'⟩ | ⟨hnumber', -, hzero'⟩ := hw
      · rw [hnone, hone'] at hinfos
        cases hinfos
      · exact ⟨hnumber.trans hnumber'.symm, hzero.trans hzero'.symm⟩
  refine ValueObject.ext hkind hsame.1 ?_ hhash
  rw [hdata, hdata', hsame.2]

/-- A task that reports the value its rule has leaves the time at which it was computed. -/
theorem computedAt_taskIsComplete {Key Value : Type} [LinearOrder Key] [DecidableEq Value]
    [Inhabited Value] {client : Client Key Value} {task : Key} {value : Value}
    {s : Engine Key Value} (h : (s.ruleInfo client task).result.value = value) :
  ((s.taskIsComplete client task value false).ruleInfo client task).result.computedAt
    = (s.ruleInfo client task).result.computedAt
  := by
  rw [Engine.taskIsComplete]
  split_ifs
  · rw [Engine.ruleInfo_setFinishedTaskInfos, Engine.ruleInfo_setRuleInfo_self, RuleInfo.setValue]
    rw [if_pos ⟨rfl, h.symm⟩]
  · rfl

/-- What is stored of a value with several outputs tells the address of their array. -/
theorem exists_same_ne (v : StoredValue) (hseveral : 1 < v.outputInfos.length) :
  ∃ w : StoredValue, w.Same v ∧ w.toValue ≠ v.toValue
  := by
  obtain ⟨⟨kind, numOutputInfos, valueData, commandHash⟩, h⟩ := v
  cases valueData with
  | asOutputInfo outputInfo =>
    have hone : (if numOutputInfos = 0 then [] else [outputInfo]).length ≤ 1 := by
      split_ifs <;> simp
    exact absurd hseveral (Nat.not_lt.mpr hone)
  | asOutputInfos address outputInfos =>
    refine ⟨relocate (address + 1) _, same_relocate _ _, ?_⟩
    intro heq
    have hnumber : numOutputInfos > 1 := by
      rw [gt_iff_lt, UInt32.lt_iff_toNat_lt, h.2]
      exact h.1
    simp only [relocate, toValue, if_pos hnumber, bytes, ValueData.bytes, List.append_assoc,
      List.append_cancel_left_eq] at heq
    have hlength (value : UInt64) : (write64 value).length = 8 := rfl
    have hwritten : write64 (address + 1) = write64 address :=
      (List.append_inj heq ((hlength _).trans (hlength _).symm)).1
    have hread := reads_read64 (address + 1) []
    rw [hwritten, reads_read64 address []] at hread
    have haddress : address = address + 1 := (Prod.mk.inj (Option.some.inj hread)).1
    exact absurd haddress.symm (by simp)

/-- **Values are faithful.**  Every value is read back from what is stored, with the same kind,
outputs and command hash.  What is stored depends on nothing else, and a task that completes with
such a value again does not change the time at which its rule was computed, exactly if there is at
most one output. -/
theorem value_faithful_iff (Key : Type) [LinearOrder Key] (v : StoredValue) :
  (∀ address, ∃ v' : StoredValue, fromValue address v.toValue = some v'.toValueObject
    ∧ v'.Same v)
    ∧ ((∀ w : StoredValue, w.Same v → w.toValue = v.toValue
        ∧ ∀ (client : Client Key Bytes) (task : Key) (s : Engine Key Bytes),
          (s.ruleInfo client task).result.value = v.toValue →
          ((s.taskIsComplete client task w.toValue false).ruleInfo client task).result.computedAt
            = (s.ruleInfo client task).result.computedAt)
      ↔ v.outputInfos.length ≤ 1)
  := by
  refine ⟨fun address => ⟨v.relocate address, fromValue_toValue address v,
    same_relocate address v⟩, ?_, ?_⟩
  · intro hstored
    by_contra hseveral
    obtain ⟨w, hsame, hne⟩ := exists_same_ne v (not_le.mp hseveral)
    exact hne (hstored w hsame).1
  · intro hone w hw
    have hsame : w.toValueObject = v.toValueObject := hw.eq (by rwa [hw.outputInfos])
    refine ⟨congrArg toValue hsame, ?_⟩
    intro client task s hvalue
    rw [hsame]
    exact computedAt_taskIsComplete hvalue

/-- The value of a command with two outputs, in an array at the address. -/
def twoOutputs : StoredValue :=
  makeSuccessfulCommands address [.zero, .zero] ⟨1⟩ (by decide) (by decide)

/-- The rule of the command after a first run. -/
def builtRule : RuleInfo ℕ Bytes :=
  ⟨0, ⟨(twoOutputs 4096).toValue, 0, 1, 1, []⟩, .incomplete, false⟩

/-- Two values of a command with the same two outputs, in arrays at different addresses, are
stored differently, and the second one counts as a change. -/
theorem value_relocated :
  (twoOutputs 8192).kind = (twoOutputs 4096).kind
    ∧ (twoOutputs 8192).outputInfos = (twoOutputs 4096).outputInfos
    ∧ (twoOutputs 8192).commandHash = (twoOutputs 4096).commandHash
    ∧ (twoOutputs 8192).toValue ≠ (twoOutputs 4096).toValue
    ∧ builtRule.result.computedAt = 1
    ∧ (builtRule.setValue 2 (twoOutputs 8192).toValue false).result.computedAt = 2
  := by decide

end StoredValue

end LLBuild.Ninja
