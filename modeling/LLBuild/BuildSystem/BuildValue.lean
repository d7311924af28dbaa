import LLBuild.Basic.FileInfo
import LLBuild.Basic.StringList
import Mathlib.Data.List.Basic

/-!
# Build values

The values the build system computes for its keys, their construction functions
(`makeInvalid` to `makeSuccessfulCommandWithOutputSignature`) and their binary coding
`toData`, `fromData`.  Which parts of a value are coded depends on its kind
(`kindHasSignature`, `kindHasOutputInfo`, `kindHasStringList`).  Every value made by a
construction function is read back from its data, and the data is consumed to its end
(`BuildValue.fromData_toData`).
-/

namespace LLBuild

open List

open BinaryCoding Decoder

/-- The kinds of build values, in the order of their codes. -/
inductive BuildValue.Kind where
  | invalid
  | virtualInput
  | existingInput
  | missingInput
  | directoryContents
  | directoryTreeSignature
  | directoryTreeStructureSignature
  | staleFileRemoval
  | missingOutput
  | failedInput
  | successfulCommand
  | failedCommand
  | propagatedFailureCommand
  | cancelledCommand
  | skippedCommand
  | target
  | filteredDirectoryContents
  | successfulCommandWithOutputSignature
deriving DecidableEq

/-- The storage of the output infos: one info in place, or an array of them. -/
inductive BuildValue.OutputStorage where
  | asOutputInfo (info : FileInfo)
  | asOutputInfos (infos : List FileInfo)
deriving DecidableEq

/-- A value computed for a build key. -/
structure BuildValue where
  kind : BuildValue.Kind := .invalid
  numOutputInfos : UInt32 := 0
  signature : UInt64 := 0
  valueData : BuildValue.OutputStorage := .asOutputInfo .zero
  stringValues : StringList := {}
deriving DecidableEq

namespace BuildValue

/-! ### Kinds -/

namespace Kind

/-- The code of a kind. -/
def toByte : Kind → UInt8
  | invalid => 0
  | virtualInput => 1
  | existingInput => 2
  | missingInput => 3
  | directoryContents => 4
  | directoryTreeSignature => 5
  | directoryTreeStructureSignature => 6
  | staleFileRemoval => 7
  | missingOutput => 8
  | failedInput => 9
  | successfulCommand => 10
  | failedCommand => 11
  | propagatedFailureCommand => 12
  | cancelledCommand => 13
  | skippedCommand => 14
  | target => 15
  | filteredDirectoryContents => 16
  | successfulCommandWithOutputSignature => 17

/-- The kinds in the order of their codes. -/
def all : List Kind :=
  [invalid, virtualInput, existingInput, missingInput, directoryContents,
    directoryTreeSignature, directoryTreeStructureSignature, staleFileRemoval, missingOutput,
    failedInput, successfulCommand, failedCommand, propagatedFailureCommand,
    cancelledCommand, skippedCommand, target, filteredDirectoryContents,
    successfulCommandWithOutputSignature]

/-- The kind with a given code, if the code names one. -/
def ofByte? (code : UInt8) : Option Kind := all[code.toNat]?

variable (kind : Kind)

theorem ofByte?_toByte :
  ofByte? kind.toByte = some kind
  := by
  cases kind <;> rfl

def encode : Bytes := write8 kind.toByte

def decode : Decoder Kind := do
  let code ← read8
  match ofByte? code with
  | some kind => return kind
  | none => failure

theorem reads_decode :
  Reads decode kind.encode kind
  := by
  intro rest
  rw [decode, StateT.run_bind, encode, reads_read8]
  simp only [Option.bind_eq_bind, Option.bind_some, ofByte?_toByte]
  rfl

def kindHasSignature : Kind → Bool
  | directoryTreeSignature | directoryTreeStructureSignature
  | successfulCommandWithOutputSignature => true
  | _ => false

def kindHasStringList : Kind → Bool
  | directoryContents | filteredDirectoryContents | staleFileRemoval => true
  | _ => false

def kindHasOutputInfo : Kind → Bool
  | existingInput | successfulCommand | successfulCommandWithOutputSignature
  | directoryContents => true
  | _ => false

end Kind

open Kind

/-! ### Output infos -/

variable (value : BuildValue)

def hasMultipleOutputs : Bool := 1 < value.numOutputInfos.toNat

/-- The command succeeded, with or without a signature of its outputs. -/
def isSuccessfulCommand : Bool :=
  value.kind = .successfulCommand || value.kind = .successfulCommandWithOutputSignature

/-- The `n`-th output info, read from the array when there are several. -/
def getNthOutputInfo (n : ℕ) : Option FileInfo :=
  match value.hasMultipleOutputs, value.valueData with
  | true, .asOutputInfos infos => infos[n]?
  | false, .asOutputInfo info => some info
  | _, _ => none

/-- The output infos of a value, in order. -/
def outputInfos : List FileInfo :=
  (range value.numOutputInfos.toNat).filterMap value.getNthOutputInfo

/-- Store output infos: in place when there is one, in an array otherwise. -/
def ofOutputInfos (kind : Kind) (infos : List FileInfo) (signature : UInt64 := 0) :
    BuildValue :=
  let numOutputInfos := UInt32.ofNat infos.length
  { kind := kind
    numOutputInfos := numOutputInfos
    signature := signature
    valueData :=
      if numOutputInfos = 1 then .asOutputInfo (infos.headD .zero)
      else .asOutputInfos (infos.take numOutputInfos.toNat) }

/-! ### Construction functions -/

def makeInvalid : BuildValue := { kind := .invalid }

def makeVirtualInput : BuildValue := { kind := .virtualInput }

def makeExistingInput (outputInfo : FileInfo) : BuildValue :=
  ofOutputInfos .existingInput [outputInfo]

def makeMissingInput : BuildValue := { kind := .missingInput }

def makeDirectoryContents (directoryInfo : FileInfo) (values : CStrings) : BuildValue :=
  { ofOutputInfos .directoryContents [directoryInfo] with
    stringValues := .ofValues values }

def makeDirectoryTreeSignature (signature : UInt64) : BuildValue :=
  { kind := .directoryTreeSignature, signature := signature }

def makeDirectoryTreeStructureSignature (signature : UInt64) : BuildValue :=
  { kind := .directoryTreeStructureSignature, signature := signature }

def makeMissingOutput : BuildValue := { kind := .missingOutput }

def makeFailedInput : BuildValue := { kind := .failedInput }

variable (outputInfos : List FileInfo)

def makeSuccessfulCommand : BuildValue :=
  ofOutputInfos .successfulCommand outputInfos

def makeFailedCommand : BuildValue := { kind := .failedCommand }

def makePropagatedFailureCommand : BuildValue := { kind := .propagatedFailureCommand }

def makeCancelledCommand : BuildValue := { kind := .cancelledCommand }

def makeSkippedCommand : BuildValue := { kind := .skippedCommand }

def makeTarget : BuildValue := { kind := .target }

variable (values : CStrings)

def makeStaleFileRemoval : BuildValue :=
  { kind := .staleFileRemoval, stringValues := .ofValues values }

def makeFilteredDirectoryContents : BuildValue :=
  { kind := .filteredDirectoryContents, stringValues := .ofValues values }

def makeSuccessfulCommandWithOutputSignature
    (signature : UInt64) : BuildValue :=
  ofOutputInfos .successfulCommandWithOutputSignature outputInfos signature

/-- The values a client can build. -/
inductive Made : BuildValue → Prop where
  | invalid : Made makeInvalid
  | virtualInput : Made makeVirtualInput
  | existingInput (info : FileInfo) : Made (makeExistingInput info)
  | missingInput : Made makeMissingInput
  | directoryContents (info : FileInfo) (values : CStrings) :
      Made (makeDirectoryContents info values)
  | directoryTreeSignature (signature : UInt64) : Made (makeDirectoryTreeSignature signature)
  | directoryTreeStructureSignature (signature : UInt64) :
      Made (makeDirectoryTreeStructureSignature signature)
  | missingOutput : Made makeMissingOutput
  | failedInput : Made makeFailedInput
  | successfulCommand (infos : List FileInfo) : Made (makeSuccessfulCommand infos)
  | failedCommand : Made makeFailedCommand
  | propagatedFailureCommand : Made makePropagatedFailureCommand
  | cancelledCommand : Made makeCancelledCommand
  | skippedCommand : Made makeSkippedCommand
  | target : Made makeTarget
  | staleFileRemoval (values : CStrings) : Made (makeStaleFileRemoval values)
  | filteredDirectoryContents (values : CStrings) : Made (makeFilteredDirectoryContents values)
  | successfulCommandWithOutputSignature (infos : List FileInfo) (signature : UInt64) :
      Made (makeSuccessfulCommandWithOutputSignature infos signature)

/-! ### Coding -/

def toData : Bytes :=
  value.kind.encode ++
    ((if value.kind.kindHasSignature then write64 value.signature else []) ++
      ((if value.kind.kindHasOutputInfo then
          write32 value.numOutputInfos ++ value.outputInfos.flatMap FileInfo.encode
        else []) ++
        (if value.kind.kindHasStringList then value.stringValues.encode else [])))

/-- Read `numOutputInfos` and the infos, into the array when there are several. -/
def decodeOutputInfos : Decoder (UInt32 × OutputStorage) := do
  let numOutputInfos ← read32
  let infos ← readMany FileInfo.decode numOutputInfos.toNat
  if 1 < numOutputInfos.toNat then
    return (numOutputInfos, .asOutputInfos infos)
  else
    return (numOutputInfos, .asOutputInfo (infos.headD .zero))

/-- Read a value whose data is not empty. -/
def decode : Decoder BuildValue := do
  let kind ← Kind.decode
  let signature ← optional kind.kindHasSignature read64 0
  let (numOutputInfos, valueData) ←
    optional kind.kindHasOutputInfo decodeOutputInfos (0, .asOutputInfo .zero)
  let stringValues ← optional kind.kindHasStringList StringList.decode {}
  return { kind, numOutputInfos, signature, valueData, stringValues }

/-- The value coded by `data`; the data has to be consumed to its end. -/
def fromData (data : Bytes) : Option BuildValue :=
  match data with
  | [] => some makeInvalid
  | data => match decode.run data with
    | some (value, []) => some value
    | _ => none

/-! ### Round trip -/

theorem filterMap_getElem?_range {α : Type} (l : List α) :
  (range l.length).filterMap (l[·]?) = l
  := by
  induction l with
  | nil => rfl
  | cons a l ih =>
    rw [length_cons, range_succ_eq_map, filterMap_cons]
    simpa [Function.comp_def] using ih

variable {value : BuildValue}

/-- The output infos of a value are determined by their number and the storage. -/
theorem outputInfos_eq
    {infos : List FileInfo}
    (hlength : infos.length = value.numOutputInfos.toNat)
    (hdata : value.valueData
      = if 1 < infos.length then .asOutputInfos infos else .asOutputInfo (infos.headD .zero)) :
  value.outputInfos = infos
  := by
  rw [outputInfos, ← hlength]
  nth_rewrite 2 [← filterMap_getElem?_range infos]
  apply filterMap_congr
  intro n hn
  have hn : n < infos.length := by simpa using hn
  by_cases hone : 1 < infos.length
  · simp [getNthOutputInfo, hasMultipleOutputs, ← hlength, hdata, hone]
  · obtain ⟨info, rfl⟩ : ∃ info, infos = [info] := by
      rw [← length_eq_one_iff]
      omega
    obtain rfl : n = 0 := by simpa using hn
    simp [getNthOutputInfo, hasMultipleOutputs, ← hlength, hdata]

/-- The infos stored are those the 32-bit count does not lose. -/
theorem outputInfos_ofOutputInfos (kind : Kind) (infos : List FileInfo) (signature : UInt64) :
  (ofOutputInfos kind infos signature).outputInfos = infos.take (infos.length % 2 ^ 32)
  := by
  have hnum : (UInt32.ofNat infos.length).toNat = infos.length % 2 ^ 32 := UInt32.toNat_ofNat'
  have hone : UInt32.ofNat infos.length = 1 ↔ infos.length % 2 ^ 32 = 1 := by
    rw [← UInt32.toNat_inj]
    rfl
  have hlength : (infos.take (infos.length % 2 ^ 32)).length = infos.length % 2 ^ 32 := by
    rw [length_take, Nat.min_eq_left (Nat.mod_le _ _)]
  rcases Nat.lt_trichotomy (infos.length % 2 ^ 32) 1 with h | h | h
  · have hzero : infos.length % 2 ^ 32 = 0 := by omega
    rw [outputInfos, ofOutputInfos]
    simp only [hnum, hzero]
    rfl
  · apply outputInfos_eq
    · rw [hlength]
      exact hnum.symm
    · rw [ofOutputInfos]
      simp only [hone.mpr h, h]
      cases infos <;> rfl
  · apply outputInfos_eq
    · rw [hlength]
      exact hnum.symm
    · rw [hlength, if_pos h, ofOutputInfos]
      have hne : UInt32.ofNat infos.length ≠ 1 := by
        rw [ne_eq, hone]
        omega
      simp only [hne, if_false, hnum]

/-- What the coding relies on: the parts of a value that its kind does not code have their
default, and the coded infos are as many as `numOutputInfos` says. -/
structure WellFormed (value : BuildValue) : Prop where
  signature_eq : value.kind.kindHasSignature = false → value.signature = 0
  length_outputInfos : value.kind.kindHasOutputInfo = true →
    value.outputInfos.length = value.numOutputInfos.toNat
  outputInfos_eq_nil : value.kind.kindHasOutputInfo = false → value.outputInfos = []
  stringValues_packed : value.kind.kindHasStringList = true →
    ∃ strings, value.stringValues = .ofValues strings
  stringValues_eq : value.kind.kindHasStringList = false → value.stringValues = {}

/-- A value that carries nothing but its kind and a signature. -/
theorem wellFormed_ofKind
    {kind : Kind} {signature : UInt64} (hsignature : kind.kindHasSignature = false → signature = 0)
    (hinfo : kind.kindHasOutputInfo = false) (hstrings : kind.kindHasStringList = false) :
  WellFormed { kind := kind, signature := signature }
  := by
  constructor
  · exact hsignature
  · simp [hinfo]
  · intro _
    rfl
  · simp [hstrings]
  · intro _
    rfl

/-- A value that carries output infos and a signature. -/
theorem wellFormed_ofOutputInfos
    {kind : Kind} (infos : List FileInfo) {signature : UInt64}
    (hsignature : kind.kindHasSignature = false → signature = 0)
    (hinfo : kind.kindHasOutputInfo = true) (hstrings : kind.kindHasStringList = false) :
  WellFormed (ofOutputInfos kind infos signature)
  := by
  constructor
  · exact hsignature
  · intro _
    rw [outputInfos_ofOutputInfos, length_take, Nat.min_eq_left (Nat.mod_le _ _)]
    exact UInt32.toNat_ofNat'.symm
  · simp [ofOutputInfos, hinfo]
  · simp [ofOutputInfos, hstrings]
  · intro _
    rfl

/-- A value that carries a list of strings and no output info. -/
theorem wellFormed_ofStrings
    {kind : Kind}
    (hinfo : kind.kindHasOutputInfo = false) (hstrings : kind.kindHasStringList = true) :
  WellFormed { kind := kind, stringValues := .ofValues values }
  := by
  constructor
  · intro _
    rfl
  · simp [hinfo]
  · intro _
    rfl
  · intro _
    use values
  · simp [hstrings]

theorem Made.wellFormed (h : Made value) :
  WellFormed value
  := by
  cases h with
  | existingInput info => exact wellFormed_ofOutputInfos [info] (fun _ => rfl) rfl rfl
  | directoryContents info values =>
    constructor
    · intro _
      rfl
    · intro _
      exact congrArg length (outputInfos_ofOutputInfos .directoryContents [info] 0)
    · simp [makeDirectoryContents, ofOutputInfos, kindHasOutputInfo]
    · intro _
      use values
      rfl
    · simp [makeDirectoryContents, ofOutputInfos, kindHasStringList]
  | directoryTreeSignature signature | directoryTreeStructureSignature signature =>
    exact wellFormed_ofKind nofun rfl rfl
  | successfulCommand infos => exact wellFormed_ofOutputInfos infos (fun _ => rfl) rfl rfl
  | staleFileRemoval values | filteredDirectoryContents values =>
    exact wellFormed_ofStrings values rfl rfl
  | successfulCommandWithOutputSignature infos signature =>
    exact wellFormed_ofOutputInfos infos nofun rfl rfl
  | _ => exact wellFormed_ofKind (fun _ => rfl) rfl rfl

/-- Coded output infos are read back into a storage that holds them. -/
theorem reads_decodeOutputInfos
    {numOutputInfos : UInt32} {infos : List FileInfo}
    (hlength : infos.length = numOutputInfos.toNat) :
  Reads decodeOutputInfos (write32 numOutputInfos ++ infos.flatMap FileInfo.encode)
    (numOutputInfos,
      if 1 < infos.length then .asOutputInfos infos else .asOutputInfo (infos.headD .zero))
  := by
  have hread := reads_readMany FileInfo.reads_decode infos
  rw [hlength] at hread
  apply (reads_read32 numOutputInfos).bind
  intro rest
  rw [StateT.run_bind, hread rest, hlength]
  split <;> rfl

/-- A well-formed value is read back from its data by `decode`, which stops at the end. -/
theorem WellFormed.reads_decode (h : WellFormed value) :
  ∃ value' : BuildValue, Reads decode value.toData value' ∧ value'.kind = value.kind ∧
    value'.outputInfos = value.outputInfos ∧ value'.signature = value.signature ∧
    value'.stringValues.getValues = value.stringValues.getValues
  := by
  obtain ⟨list, hlist, hgetValues⟩ : ∃ list : StringList,
      Reads (optional value.kind.kindHasStringList StringList.decode {})
        (if value.kind.kindHasStringList then value.stringValues.encode else []) list ∧
      list.getValues = value.stringValues.getValues := by
    cases hkind : value.kind.kindHasStringList with
    | true =>
      obtain ⟨strings, hstrings⟩ := h.stringValues_packed hkind
      obtain ⟨list, hreads, hvalues⟩ := StringList.decode_encode strings
      rw [hstrings, StringList.getValues_ofValues]
      exact ⟨list, hreads, hvalues⟩
    | false =>
      rw [h.stringValues_eq hkind]
      exact ⟨{}, reads_pure _, rfl⟩
  obtain ⟨num, storage, hstorage, hinfos⟩ : ∃ num storage,
      Reads (optional value.kind.kindHasOutputInfo decodeOutputInfos (0, .asOutputInfo .zero))
        (if value.kind.kindHasOutputInfo then
          write32 value.numOutputInfos ++ value.outputInfos.flatMap FileInfo.encode
          else []) (num, storage) ∧
      ∀ value' : BuildValue, value'.numOutputInfos = num → value'.valueData = storage →
        value'.outputInfos = value.outputInfos := by
    cases hkind : value.kind.kindHasOutputInfo with
    | true =>
      have hlength := h.length_outputInfos hkind
      refine ⟨value.numOutputInfos, _, reads_decodeOutputInfos hlength, ?_⟩
      intro value' hnum hdata
      apply outputInfos_eq _ hdata
      rw [hnum, hlength]
    | false =>
      refine ⟨0, _, reads_pure _, ?_⟩
      intro value' hnum _
      rw [h.outputInfos_eq_nil hkind, outputInfos, hnum]
      rfl
  use ⟨value.kind, num, value.signature, storage, list⟩
  refine ⟨?_, rfl, hinfos _ rfl rfl, rfl, hgetValues⟩
  apply value.kind.reads_decode.bind
  apply (Reads.optional (fun _ => reads_read64 value.signature) h.signature_eq).bind
  apply hstorage.bind
  intro rest
  rw [StateT.run_bind, hlist rest]
  rfl

/-- Every value made by a construction function is read back from its data: the decoder
accepts the data, consumes it to its end and yields the kind, the output infos, the
signature and the strings of the value. -/
theorem fromData_toData (h : Made value) :
  ∃ value' : BuildValue, decode.run value.toData = some (value', []) ∧
    fromData value.toData = some value' ∧ value'.kind = value.kind ∧
    value'.outputInfos = value.outputInfos ∧ value'.signature = value.signature ∧
    value'.stringValues.getValues = value.stringValues.getValues
  := by
  obtain ⟨value', hreads, hvalue⟩ := h.wellFormed.reads_decode
  have hrun := hreads []
  rw [append_nil] at hrun
  use value', hrun
  refine ⟨?_, hvalue⟩
  have hcons : value.toData = value.kind.toByte :: value.toData.tail := rfl
  rw [hcons] at hrun ⊢
  simp only [fromData, hrun]

/-- The data of a directory listing with a file named by the bytes `97, 98` and an empty
name. -/
theorem fromData_toData_directoryContents :
  ∃ value' : BuildValue,
    decode.run (makeDirectoryContents .zero ⟨[[97, 98], []], by decide, by decide⟩).toData
      = some (value', []) ∧
    value'.stringValues.getValues = [[97, 98], []]
  := by
  obtain ⟨value', hrun, -, -, -, -, hstrings⟩ := fromData_toData
    (.directoryContents .zero ⟨[[97, 98], []], by decide, by decide⟩)
  use value', hrun
  rw [hstrings]
  apply StringList.getValues_ofValues

end BuildValue

end LLBuild
