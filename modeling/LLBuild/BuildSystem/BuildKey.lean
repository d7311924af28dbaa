import LLBuild.Basic.StringList

/-!
# Build keys

A build key is a byte string that starts with a byte for its kind.  Keys made from one
string go on with that string; keys made from a name and further data go on with the
32-bit size of the name, the name and the encoded data.  The accessors take a key apart
again.

The second form is put together in a buffer, at a position that is a 32-bit number too.
As long as the whole key is shorter than `2 ^ 32` bytes the pieces follow each other
(`twoPart_eq`), the accessors give back the arguments of the key, and keys are equal only
if they were made in the same way from the same arguments.  For a longer key the position
starts over at zero, and the data overwrites the beginning of the key.
-/

namespace LLBuild

open StringList

open UInt32

open List

open BinaryCoding Decoder

namespace BuildKey

/-- The kinds of keys. -/
inductive Kind where
  | command
  | customTask
  | directoryContents
  | filteredDirectoryContents
  | directoryTreeSignature
  | directoryTreeStructureSignature
  | node
  | stat
  | target
  | unknown
deriving DecidableEq

def identifierForKind : Kind → UInt8
  | .command => 'C'.toUInt8
  | .directoryContents => 'D'.toUInt8
  | .filteredDirectoryContents => 'd'.toUInt8
  | .node => 'N'.toUInt8
  | .stat => 'I'.toUInt8
  | .directoryTreeSignature => 'S'.toUInt8
  | .directoryTreeStructureSignature => 's'.toUInt8
  | .target => 'T'.toUInt8
  | .customTask => 'X'.toUInt8
  | .unknown => ' '.toUInt8

def kindForIdentifier (identifier : UInt8) : Kind :=
  match Char.ofUInt8 identifier with
  | 'C' => .command
  | 'D' => .directoryContents
  | 'd' => .filteredDirectoryContents
  | 'N' => .node
  | 'I' => .stat
  | 'S' => .directoryTreeSignature
  | 's' => .directoryTreeStructureSignature
  | 'T' => .target
  | 'X' => .customTask
  | _ => .unknown

@[simp]
theorem kindForIdentifier_identifierForKind (kind : Kind) :
  kindForIdentifier (identifierForKind kind) = kind
  := by
  cases kind <;> decide

/-! ### Construction -/

/-- A key made from one string. -/
def onePart (kindCode : UInt8) (str : Bytes) : Bytes :=
  kindCode :: str

/-- Copy bytes into a buffer, at a position. -/
def memcpy (buffer : Bytes) (pos : ℕ) (bytes : Bytes) : Bytes :=
  buffer.take pos ++ (bytes ++ buffer.drop (pos + bytes.length))

/-- A key made from a name and encoded data. -/
def twoPart (kindCode : UInt8) (name data : Bytes) : Bytes :=
  let nameSize := ofNat name.length
  let dataSize := ofNat data.length
  let encodedKey := replicate (1 + 4 + nameSize.toNat + dataSize.toNat) 0
  let pos : UInt32 := 0
  let encodedKey := memcpy encodedKey pos.toNat [kindCode]
  let pos := pos + 1
  let encodedKey := memcpy encodedKey pos.toNat (write32 nameSize)
  let pos := pos + 4
  let encodedKey := memcpy encodedKey pos.toNat (name.take nameSize.toNat)
  let pos := pos + nameSize
  memcpy encodedKey pos.toNat (data.take dataSize.toNat)

def makeCommand (name : Bytes) : Bytes :=
  onePart (identifierForKind .command) name

def makeCustomTask (name taskData : Bytes) : Bytes :=
  twoPart (identifierForKind .customTask) name taskData

variable (path : Bytes)

def makeDirectoryContents : Bytes :=
  onePart (identifierForKind .directoryContents) path

variable (filters : StringList)

def makeFilteredDirectoryContents : Bytes :=
  twoPart (identifierForKind .filteredDirectoryContents) path filters.encode

def makeDirectoryTreeSignature : Bytes :=
  twoPart (identifierForKind .directoryTreeSignature) path filters.encode

def makeDirectoryTreeStructureSignature : Bytes :=
  twoPart (identifierForKind .directoryTreeStructureSignature) path filters.encode

def makeNode : Bytes :=
  onePart (identifierForKind .node) path

def makeStat : Bytes :=
  onePart (identifierForKind .stat) path

def makeTarget (name : Bytes) : Bytes :=
  onePart (identifierForKind .target) name

/-! ### Accessors -/

variable (key : Bytes)

def getKind : Kind :=
  match key with
  | [] => .unknown
  | identifier :: _ => kindForIdentifier identifier

/-- The string of a key made from one string. -/
def getString : Bytes :=
  key.drop 1

/-- The size of the name in a key made from a name and data. -/
def nameSize : UInt32 :=
  ((read32.run (key.drop 1)).map Prod.fst).getD 0

/-- The name in a key made from a name and data. -/
def getFirst : Bytes :=
  (key.drop (1 + 4)).take (nameSize key).toNat

/-- The data in a key made from a name and data. -/
def getSecond : Bytes :=
  let dataSize := ofNat (key.length - 1 - 4 - (nameSize key).toNat)
  (key.drop (1 + 4 + (nameSize key).toNat)).take dataSize.toNat

def getCommandName : Bytes := getString key
def getCustomTaskName : Bytes := getFirst key
def getCustomTaskData : Bytes := getSecond key
def getDirectoryPath : Bytes := getString key
def getDirectoryTreeSignaturePath : Bytes := getFirst key
def getFilteredDirectoryPath : Bytes := getFirst key
def getContentExclusionPatterns : Bytes := getSecond key

def getContentExclusionPatternsAsStringList : Option StringList :=
  (decode.run (getContentExclusionPatterns key)).map Prod.fst

def getNodeName : Bytes := getString key
def getStatName : Bytes := getString key
def getTargetName : Bytes := getString key

/-! ### The layout of a key -/

theorem memcpy_append (done rest bytes : Bytes) :
  memcpy (done ++ rest) done.length bytes = (done ++ bytes) ++ rest.drop bytes.length
  := by
  simp [memcpy]

theorem length_write32 (value : UInt32) :
  (write32 value).length = 4
  := rfl

variable {name data : Bytes}

variable (kindCode : UInt8)

/-- The kind, the size of the name and the name follow each other; the data is copied to
the position after them, counted modulo `2 ^ 32`. -/
theorem twoPart_eq_memcpy (data : Bytes) (hname : name.length < 2 ^ 32) :
  twoPart kindCode name data
    = memcpy ([kindCode] ++ write32 (UInt32.ofNat name.length) ++ name
          ++ replicate (data.length % 2 ^ 32) 0)
        ((5 + name.length) % 2 ^ 32) (data.take (data.length % 2 ^ 32))
  := by
  have hsize : (UInt32.ofNat name.length).toNat = name.length := UInt32.toNat_ofNat_of_lt' hname
  have hpos : ((0 : UInt32) + 1 + 4 + UInt32.ofNat name.length).toNat
      = (5 + name.length) % 2 ^ 32 := by
    rw [UInt32.toNat_add, hsize]
    rfl
  have hdata : (UInt32.ofNat data.length).toNat = data.length % 2 ^ 32 := UInt32.toNat_ofNat'
  rw [twoPart, hsize, hpos, take_length]
  -- The zeros of the buffer are overwritten from the left.
  have hkind : memcpy (replicate (1 + 4 + name.length + data.length % 2 ^ 32) 0) 0 [kindCode]
      = [kindCode] ++ replicate (4 + name.length + data.length % 2 ^ 32) 0 := by
    rw [← nil_append (replicate _ _), ← length_nil (α := UInt8), memcpy_append,
      drop_replicate, length_singleton]
    congr 2
    omega
  have hlength : memcpy ([kindCode] ++ replicate (4 + name.length + data.length % 2 ^ 32) 0) 1
      (write32 (UInt32.ofNat name.length))
      = [kindCode] ++ write32 (UInt32.ofNat name.length)
        ++ replicate (name.length + data.length % 2 ^ 32) 0 := by
    rw [← length_singleton (a := kindCode), memcpy_append, drop_replicate, length_write32]
    congr 2
    omega
  have hfirst : memcpy ([kindCode] ++ write32 (UInt32.ofNat name.length)
        ++ replicate (name.length + data.length % 2 ^ 32) 0) 5 name
      = [kindCode] ++ write32 (UInt32.ofNat name.length) ++ name
        ++ replicate (data.length % 2 ^ 32) 0 := by
    have h := memcpy_append ([kindCode] ++ write32 (UInt32.ofNat name.length))
      (replicate (name.length + data.length % 2 ^ 32) 0) name
    rwa [drop_replicate, Nat.add_sub_cancel_left] at h
  exact congrArg (memcpy · _ _)
    ((congrArg (fun buffer => memcpy (memcpy buffer 1 _) 5 _) hkind).trans
      ((congrArg (memcpy · 5 _) hlength).trans hfirst))

/-- The name and the data are shorter than `2 ^ 32` bytes. -/
def AreShort (name data : Bytes) : Prop := name.length < 2 ^ 32 ∧ data.length < 2 ^ 32

/-- The position behind the name is less than `2 ^ 32`, if there is data to be copied there. -/
def Fit (name data : Bytes) : Prop := 1 + 4 + name.length < 2 ^ 32 ∨ data = []

/-- A key consists of its pieces in sequence, if they fit. -/
theorem twoPart_eq (hshort : AreShort name data) (h : Fit name data) :
  twoPart kindCode name data
    = [kindCode] ++ write32 (ofNat name.length) ++ name ++ data
  := by
  obtain ⟨hname, hdata⟩ := hshort
  rw [twoPart_eq_memcpy kindCode data hname, Nat.mod_eq_of_lt hdata]
  obtain h | rfl := h
  · have hpos : (5 + name.length) % 2 ^ 32
        = ([kindCode] ++ write32 (ofNat name.length) ++ name).length := by
      rw [Nat.mod_eq_of_lt (by omega)]
      simp only [length_append, length_write32, length_singleton]
    rw [hpos, memcpy_append]
    simp
  · simp [memcpy]

/-! ### What the accessors return -/

@[simp]
theorem getKind_onePart (kind : Kind) (str : Bytes) :
  getKind (onePart (identifierForKind kind) str) = kind
  := kindForIdentifier_identifierForKind kind

@[simp]
theorem getString_onePart (str : Bytes) :
  getString (onePart kindCode str) = str
  := rfl

section TwoPart

variable {name data : Bytes} (hshort : AreShort name data) (h : Fit name data)

include hshort h

theorem getKind_twoPart (kind : Kind) :
  getKind (twoPart (identifierForKind kind) name data) = kind
  := by
  rw [twoPart_eq _ hshort h]
  exact kindForIdentifier_identifierForKind kind

variable (kindCode : UInt8)

theorem nameSize_twoPart :
  (nameSize (twoPart kindCode name data)).toNat = name.length
  := by
  have hread := reads_read32 (ofNat name.length) (name ++ data)
  rw [twoPart_eq _ hshort h, nameSize, append_assoc, append_assoc, singleton_append,
    drop_one, tail_cons, hread]
  exact toNat_ofNat_of_lt' hshort.1

theorem getFirst_twoPart :
  getFirst (twoPart kindCode name data) = name
  := by
  have hheader : ([kindCode] ++ write32 (ofNat name.length)).length = 1 + 4 := rfl
  rw [getFirst, nameSize_twoPart hshort h, twoPart_eq _ hshort h, append_assoc _ name data,
    drop_left' hheader, take_left]

theorem getSecond_twoPart :
  getSecond (twoPart kindCode name data) = data
  := by
  have hdrop : (twoPart kindCode name data).drop (1 + 4 + name.length) = data := by
    rw [twoPart_eq _ hshort h, drop_left']
    simp only [length_append, length_write32, length_singleton]
  have hsize : (twoPart kindCode name data).length - 1 - 4 - name.length = data.length := by
    rw [twoPart_eq _ hshort h]
    simp only [length_append, length_write32, length_singleton]
    omega
  rw [getSecond, nameSize_twoPart hshort h, hdrop, hsize]
  have hdata : (ofNat data.length).toNat = data.length :=
    toNat_ofNat_of_lt' hshort.2
  rw [hdata, take_length]

end TwoPart

/-! ### Keys and their arguments -/

/-- The kind of a key with the arguments it is made from. -/
inductive Arguments where
  | command (name : Bytes)
  | customTask (name taskData : Bytes)
  | directoryContents (path : Bytes)
  | filteredDirectoryContents (path : Bytes) (filters : CStrings)
  | directoryTreeSignature (path : Bytes) (filters : CStrings)
  | directoryTreeStructureSignature (path : Bytes) (filters : CStrings)
  | node (path : Bytes)
  | stat (path : Bytes)
  | target (name : Bytes)

namespace Arguments

def kind : Arguments → Kind
  | command _ => .command
  | customTask _ _ => .customTask
  | directoryContents _ => .directoryContents
  | filteredDirectoryContents _ _ => .filteredDirectoryContents
  | directoryTreeSignature _ _ => .directoryTreeSignature
  | directoryTreeStructureSignature _ _ => .directoryTreeStructureSignature
  | node _ => .node
  | stat _ => .stat
  | target _ => .target

/-- The key made from the arguments. -/
def make : Arguments → Bytes
  | command name => makeCommand name
  | customTask name taskData => makeCustomTask name taskData
  | directoryContents path => makeDirectoryContents path
  | filteredDirectoryContents path filters =>
      makeFilteredDirectoryContents path (.ofValues filters)
  | directoryTreeSignature path filters => makeDirectoryTreeSignature path (.ofValues filters)
  | directoryTreeStructureSignature path filters =>
      makeDirectoryTreeStructureSignature path (.ofValues filters)
  | node path => makeNode path
  | stat path => makeStat path
  | target name => makeTarget name

/-- The name and the encoded data, if there are any, satisfy a relation. -/
def ForTwoPart (p : Bytes → Bytes → Prop) : Arguments → Prop
  | customTask name taskData => p name taskData
  | filteredDirectoryContents path filters
  | directoryTreeSignature path filters
  | directoryTreeStructureSignature path filters => p path (ofValues filters).encode
  | command _ | directoryContents _ | node _ | stat _ | target _ => True

/-- The accessors for keys of the kind return the arguments. -/
def ReadFrom : Arguments → Prop
  | command name => getCommandName key = name
  | customTask name taskData => getCustomTaskName key = name ∧ getCustomTaskData key = taskData
  | directoryContents path => getDirectoryPath key = path
  | filteredDirectoryContents path filters => getFilteredDirectoryPath key = path
      ∧ (getContentExclusionPatternsAsStringList key).map getValues
        = some filters.values
  | directoryTreeSignature path filters => getDirectoryTreeSignaturePath key = path
      ∧ (getContentExclusionPatternsAsStringList key).map getValues
        = some filters.values
  | directoryTreeStructureSignature path filters => getFilteredDirectoryPath key = path
      ∧ (getContentExclusionPatternsAsStringList key).map getValues
        = some filters.values
  | node path => getNodeName key = path
  | stat path => getStatName key = path
  | target name => getTargetName key = name

theorem patterns_twoPart
    (kindCode : UInt8) {path : Bytes} {filters : CStrings}
    (hshort : AreShort path (ofValues filters).encode) (h : Fit path (ofValues filters).encode) :
  (getContentExclusionPatternsAsStringList
      (twoPart kindCode path (ofValues filters).encode)).map getValues
    = some filters.values
  := by
  obtain ⟨list, hread, hvalues⟩ := decode_encode filters
  have hrun := hread []
  rw [append_nil] at hrun
  rw [getContentExclusionPatternsAsStringList, getContentExclusionPatterns,
    getSecond_twoPart hshort h, hrun, Option.map_some, Option.map_some, hvalues]

section

variable {arguments : Arguments} (hshort : arguments.ForTwoPart AreShort)
  (h : arguments.ForTwoPart Fit)
include hshort h

theorem getKind_make :
  getKind arguments.make = arguments.kind
  := by
  cases arguments with
  | customTask _ _ | filteredDirectoryContents _ _ | directoryTreeSignature _ _
  | directoryTreeStructureSignature _ _ => exact getKind_twoPart hshort h _
  | command _ | directoryContents _ | node _ | stat _ | target _ => exact getKind_onePart _ _

theorem readFrom_make :
  arguments.ReadFrom arguments.make
  := by
  cases arguments with
  | customTask _ _ => exact ⟨getFirst_twoPart hshort h _, getSecond_twoPart hshort h _⟩
  | filteredDirectoryContents _ _ | directoryTreeSignature _ _
  | directoryTreeStructureSignature _ _ =>
    exact ⟨getFirst_twoPart hshort h _, patterns_twoPart _ hshort h⟩
  | command _ | directoryContents _ | node _ | stat _ | target _ => exact getString_onePart _ _

end

/-- What the accessors for a kind return determines the arguments. -/
theorem ReadFrom.eq
    {key : Bytes} {a b : Arguments} (ha : a.ReadFrom key) (hb : b.ReadFrom key)
    (hkind : a.kind = b.kind) :
  a = b
  := by
  have hfilters : ∀ {p q : CStrings} {o : Option (List Bytes)},
      o = some p.values → o = some q.values → p = q := by
    rintro ⟨p, _, _⟩ ⟨q, _, _⟩ o hp hq
    obtain rfl : p = q := by simpa [hp] using hq
    rfl
  cases a <;> cases b <;> cases hkind
  case customTask => rw [← ha.1, ← ha.2, ← hb.1, ← hb.2]
  case filteredDirectoryContents => rw [← ha.1, ← hb.1, hfilters ha.2 hb.2]
  case directoryTreeSignature => rw [← ha.1, ← hb.1, hfilters ha.2 hb.2]
  case directoryTreeStructureSignature => rw [← ha.1, ← hb.1, hfilters ha.2 hb.2]
  all_goals rw [← ha, ← hb]

/-! ### Names for which the position wraps around -/

section Wrapped

variable {name data : Bytes} (hshort : AreShort name data) (hwrapped : ¬ Fit name data)
include hshort hwrapped

/-- The position of the data is in front of the name. -/
theorem exists_position : ∃ w < 5, name.length = 2 ^ 32 - 5 + w ∧ (5 + name.length) % 2 ^ 32 = w
  := by
  have hname := hshort.1
  obtain ⟨hle, -⟩ := not_or.mp hwrapped
  refine ⟨5 + name.length - 2 ^ 32, by omega, by omega, ?_⟩
  rw [Nat.mod_eq_sub_mod (by omega), Nat.mod_eq_of_lt (by omega)]

theorem length_twoPart (kindCode : UInt8) :
  (twoPart kindCode name data).length = 1 + 4 + name.length + data.length
  := by
  obtain ⟨w, hw, hname, hpos⟩ := exists_position hshort hwrapped
  rw [twoPart_eq_memcpy kindCode data hshort.1, hpos, Nat.mod_eq_of_lt hshort.2, take_length, memcpy]
  simp only [length_append, length_take, length_drop, length_write32, length_singleton,
    length_replicate]
  omega

/-- Where the name is read back, there are zeros in the place of the data. -/
theorem getSecond_wrapped (kindCode : UInt8) (hfirst : getFirst (twoPart kindCode name data) = name) :
  (nameSize (twoPart kindCode name data)).toNat = name.length
    ∧ getSecond (twoPart kindCode name data) = replicate data.length 0
  := by
  have hlength := length_twoPart hshort hwrapped kindCode
  obtain ⟨w, hw, hname, hpos⟩ := exists_position hshort hwrapped
  have hdata : 0 < data.length := List.length_pos_iff.mpr (not_or.mp hwrapped).2
  have hsize : (nameSize (twoPart kindCode name data)).toNat = name.length := by
    have htake := congrArg List.length hfirst
    rw [getFirst, length_take, length_drop, hlength] at htake
    omega
  refine ⟨hsize, ?_⟩
  have hshort' := hshort.2
  have hdrop : (twoPart kindCode name data).drop (1 + 4 + name.length)
      = replicate data.length 0 := by
    have hstart : (([kindCode] ++ write32 (UInt32.ofNat name.length) ++ name
        ++ replicate data.length 0).take w).length = w := by
      rw [length_take]
      simp only [length_append, length_write32, length_singleton, length_replicate]
      omega
    rw [twoPart_eq_memcpy kindCode data hshort.1, hpos, Nat.mod_eq_of_lt hshort.2, take_length,
      memcpy, drop_append, hstart, drop_append, drop_of_length_le (by rw [hstart]; omega),
      drop_of_length_le (by omega), nil_append, nil_append, drop_drop, drop_left']
    simp only [length_append, length_write32, length_singleton]
    omega
  rw [getSecond, hsize, hdrop, hlength]
  have hrest : 1 + 4 + name.length + data.length - 1 - 4 - name.length = data.length := by omega
  rw [hrest, toNat_ofNat_of_lt' hshort.2, take_of_length_le (by simp)]

end Wrapped

theorem nameSize_cons (kindCode : UInt8) (size : UInt32) (rest : Bytes) :
  nameSize (kindCode :: (write32 size ++ rest)) = size
  := by
  rw [nameSize, drop_one, tail_cons, reads_read32 size rest]
  rfl

/-- Zeros that are copied over the size of the name change it. -/
theorem exists_overwritten (kindCode : UInt8) {w m : ℕ} (hw : 0 < w) (hw' : w < 5) (hm : 0 < m)
    (rest : Bytes) :
  ∃ size rest', memcpy (kindCode :: (write32 (ofNat (2 ^ 32 - 5 + w)) ++ rest)) w (replicate m 0)
      = kindCode :: (write32 size ++ rest') ∧ size.toNat ≠ 2 ^ 32 - 5 + w
  := by
  match w, m, hw, hw', hm with
  | 1, 1, _, _, _ => exact ⟨0xFFFFFF00, _, rfl, by decide⟩
  | 1, 2, _, _, _ => exact ⟨0xFFFF0000, _, rfl, by decide⟩
  | 1, 3, _, _, _ => exact ⟨0xFF000000, _, rfl, by decide⟩
  | 1, m + 4, _, _, _ => exact ⟨0, _, rfl, by decide⟩
  | 2, 1, _, _, _ => exact ⟨0xFFFF00FD, _, rfl, by decide⟩
  | 2, 2, _, _, _ => exact ⟨0xFF0000FD, _, rfl, by decide⟩
  | 2, m + 3, _, _, _ => exact ⟨0xFD, _, rfl, by decide⟩
  | 3, 1, _, _, _ => exact ⟨0xFF00FFFE, _, rfl, by decide⟩
  | 3, m + 2, _, _, _ => exact ⟨0xFFFE, _, rfl, by decide⟩
  | 4, m + 1, _, _, _ => exact ⟨0xFFFFFF, _, rfl, by decide⟩

/-- A key of zeros as data, copied to the front, has another kind or another size of the name. -/
theorem not_twoPart_of_replicate {kindCode : UInt8} {name data : Bytes}
    (hshort : AreShort name data) (hwrapped : ¬ Fit name data)
    (hzeros : data = replicate data.length 0) :
  getKind (twoPart kindCode name data) = .unknown
    ∨ (nameSize (twoPart kindCode name data)).toNat ≠ name.length
  := by
  have hdata : 0 < data.length := List.length_pos_iff.mpr (not_or.mp hwrapped).2
  obtain ⟨w, hw, hname, hpos⟩ := exists_position hshort hwrapped
  rw [twoPart_eq_memcpy kindCode data hshort.1, hpos, Nat.mod_eq_of_lt hshort.2, take_length]
  obtain rfl | hw' := Nat.eq_zero_or_pos w
  · left
    obtain ⟨m, hm⟩ := Nat.exists_eq_add_one.mpr hdata
    rw [hzeros, hm, memcpy]
    rfl
  · right
    obtain ⟨size, rest, hkey, hne⟩ := exists_overwritten kindCode hw' hw hdata (name ++ data)
    rw [← hzeros, ← hname] at hkey
    rw [← hzeros, append_assoc, append_assoc, singleton_append, hkey, nameSize_cons, hname]
    exact hne

/-- The values of a list that is read from zeros are none, and its encoding is zeros. -/
theorem encode_of_zeros {filters : CStrings}
    (h : ((decode.run (replicate (ofValues filters).encode.length 0)).map Prod.fst).map getValues
      = some filters.values) :
  (ofValues filters).encode = replicate (ofValues filters).encode.length 0
  := by
  obtain ⟨n, hn⟩ : ∃ n, (ofValues filters).encode.length = 8 + n :=
    ⟨_, by rw [StringList.encode, length_append]; rfl⟩
  have hzeros : replicate (8 + n) 0 = write64 0 ++ replicate n 0 :=
    replicate_append_replicate.symm
  have hrun : decode.run (write64 0 ++ replicate n 0) = some (⟨[], 0⟩, replicate n 0) := rfl
  rw [hn, hzeros, hrun] at h
  have hvalues : filters.values = [] := by
    rw [← Option.some.inj h, getValues, valuesFrom]
    rfl
  rw [StringList.encode, ofValues, hvalues]
  rfl

end Arguments

/-- With a name of `2 ^ 32 - 1` bytes, data of two bytes is copied over the first byte of
the name. -/
theorem twoPart_overlap
    (kindCode byte byte' : UInt8) (hname : name.length = 2 ^ 32 - 2) (hdata : data.length = 2) :
  twoPart kindCode (byte :: name) data = twoPart kindCode (byte' :: name) data
  := by
  rw [twoPart_eq_memcpy _ _ (by rw [length_cons]; omega),
    twoPart_eq_memcpy _ _ (by rw [length_cons]; omega)]
  have hpos : ∀ byte : UInt8, (5 + (byte :: name).length) % 2 ^ 32 = 4 := by
    intro byte
    rw [length_cons, hname]
    decide
  have htake : (data.take (data.length % 2 ^ 32)).length = 2 := by
    rw [length_take]
    omega
  rw [hpos, hpos, memcpy, memcpy, htake]
  rfl

end BuildKey

end LLBuild
