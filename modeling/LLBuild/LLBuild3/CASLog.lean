import LLBuild.Basic.BinaryCoding
import LLBuild.Basic.SQLite
import Mathlib.Data.List.Sort

/-!
# Logs in a content-addressed store

A log is written in chunks.  The writer stores each chunk and collects the chunks of a
buffer in a tree, which it stores anew with each of them.  When the buffer is full its
tree is stored for the last time, and the next buffer starts with links to the first
buffer of the log and to the one before it.

The functions of the writer are called when an operation of the store has completed.
They change the state of the writer, call handlers, and may ask for the next operation.
A store whose operations complete at once is a special case: the operations are carried
out one after the other until there is none left.

The writer notes that the last tree of a full buffer is on its way, and never that it
has arrived.  So nothing that follows a full buffer is stored.  Within a buffer the tree
lists the chunks in the order of their names, which is the one of their numbers for ten
chunks and no more.
-/

open BinaryCoding List

open SQLite (numeral digitsValue)

namespace LLBuild3

namespace CASLog

/-! ### Objects -/

/-- The types of the entries of a tree. -/
inductive FileType
  | plainFile
  | executable
  | directory
  | symlink
  deriving DecidableEq

structure PosixFileDetails where
  mode : UInt32
  owner : UInt32
  group : UInt32
  deriving DecidableEq

/-- An entry of a tree, without what it refers to. -/
structure NamedDirectoryEntry where
  name : Bytes
  type : FileType
  size : ℕ
  posixDetails : Option PosixFileDetails := none
  deriving DecidableEq

/-- An entry of a tree with the id of what it refers to. -/
structure NamedDirectoryEntryID (ID : Type) where
  info : NamedDirectoryEntry
  id : ID
  deriving DecidableEq

/-- The objects a log consists of.  The serialization of the information about a tree is
left out. -/
inductive LogObject (ID : Type)
  | chunk (data : Bytes)
  | tree (entries : List (NamedDirectoryEntryID ID)) (size : ℕ)
  deriving DecidableEq

variable {ID E H : Type}

/-- The order of the entries of a tree. -/
def NameLE (l r : NamedDirectoryEntryID ID) : Prop := ¬ r.info.name < l.info.name

instance : DecidableRel (@NameLE ID) := fun _ _ => inferInstanceAs (Decidable (¬ _))

/-- The tree of some entries: they are sorted by their names. -/
def CASTree (entries : List (NamedDirectoryEntryID ID)) : LogObject ID :=
  .tree (entries.insertionSort NameLE) (entries.map (fun entry => entry.info.size)).sum

/-! ### Trees -/

/-- The object of a tree. -/
structure TreeObject (ID : Type) where
  refs : List ID := []
  entries : List NamedDirectoryEntry := []
  size : ℕ := 0

/-- What the sort of the indexes by the names of the entries may give; it need not be stable. -/
def IsSortedView (entries view : List (NamedDirectoryEntryID ID)) : Prop :=
  (∃ indexes, indexes ~ finRange entries.length ∧ indexes.map entries.get = view)
    ∧ view.Pairwise NameLE

/-- The loop over the sorted entries. -/
def treeObject (sortedView : List (NamedDirectoryEntryID ID)) : TreeObject ID :=
  sortedView.foldl (fun object entry =>
    { refs := object.refs ++ [entry.id]
      entries := object.entries ++ [entry.info]
      size := (object.size + entry.info.size) % 2 ^ 64 }) {}

theorem treeObject_eq (view : List (NamedDirectoryEntryID ID)) :
  treeObject view = ⟨view.map (·.id), view.map (·.info), (view.map (·.info.size)).sum % 2 ^ 64⟩
  := by
  induction view using List.reverseRecOn with
  | nil => rfl
  | append_singleton view entry ih =>
    rw [treeObject, foldl_append, ← treeObject, ih]
    simp

/-- The entries can be sorted.  If their names are distinct they have one object, whatever order
they are given in: it has the entries in the order of their names. -/
theorem treeObject_canonical (entries : List (NamedDirectoryEntryID ID)) :
  (∃ view, IsSortedView entries view)
    ∧ ((entries.map (·.info.name)).Nodup → ∃ sorted, sorted ~ entries
      ∧ sorted.Pairwise (fun l r => l.info.name < r.info.name)
      ∧ ∀ entries', entries' ~ entries → ∀ view, IsSortedView entries' view →
        treeObject view = ⟨sorted.map (·.id), sorted.map (·.info),
          (entries.map (·.info.size)).sum % 2 ^ 64⟩)
  := by
  have htotal : Std.Total (@NameLE ID) := ⟨fun l r => List.le_total l.info.name r.info.name⟩
  have htrans : IsTrans _ (@NameLE ID) := ⟨fun _ _ _ => List.le_trans⟩
  constructor
  · refine ⟨_, ⟨_, perm_insertionSort (Order.Preimage entries.get NameLE) _, rfl⟩, ?_⟩
    rw [pairwise_map]
    apply pairwise_insertionSort
  · intro hnames
    have hperm := perm_insertionSort NameLE entries
    have hsorted := pairwise_insertionSort NameLE entries
    refine ⟨entries.insertionSort NameLE, hperm, ?_, ?_⟩
    · refine hsorted.imp₂ ?_ (pairwise_map.mp ((hperm.map _).nodup_iff.mpr hnames))
      intro l r hle hne
      by_contra hlt
      exact hne (List.le_antisymm hle hlt)
    · rintro entries' hperm' view ⟨⟨indexes, hindexes, rfl⟩, hview⟩
      have hmap := (map_get_finRange entries' ▸ hindexes.map entries'.get).trans hperm'
      have heq : indexes.map entries'.get = entries.insertionSort NameLE := by
        refine (hmap.trans hperm.symm).eq_of_pairwise ?_ hview hsorted
        intro l r hl hr hle hge
        exact inj_on_of_nodup_map hnames (hmap.subset hl) (hperm.subset hr)
          (List.le_antisymm hle hge)
      rw [heq, treeObject_eq, (hperm.map _).sum_nat]

/-- Two entries, which come in the order of their names whatever order they are given in. -/
theorem treeObject_canonical_two :
  ∃ object, ∀ view,
    IsSortedView [⟨⟨ascii "b", .plainFile, 2, none⟩, 0⟩, ⟨⟨ascii "a", .directory, 3, none⟩, 1⟩] view
      ∨ IsSortedView
        [⟨⟨ascii "a", .directory, 3, none⟩, 1⟩, ⟨⟨ascii "b", .plainFile, 2, none⟩, 0⟩] view
    → treeObject (view : List (NamedDirectoryEntryID ℕ)) = object
  := by
  obtain ⟨sorted, -, -, hobject⟩ := (treeObject_canonical
    [⟨⟨ascii "b", .plainFile, 2, none⟩, 0⟩, ⟨⟨ascii "a", .directory, 3, none⟩, 1⟩]).2 (by decide)
  refine ⟨⟨sorted.map (·.id), sorted.map (·.info), 5⟩, fun view hview => ?_⟩
  obtain hview | hview := hview
  · exact hobject _ (.refl _) view hview
  · exact hobject _ (.swap _ _ _) view hview

/-! ### The writer -/

/-- The errors handlers are called with; `E` are those of the store. -/
inductive LogError (E : Type)
  | store (error : E)
  | streamFailed (context : Option E)
  | streamStall (context : E)
  deriving DecidableEq

/-- A call of a handler. -/
structure Call (ID E H : Type) where
  handler : H
  result : Except (LogError E) ID
  terminal : Bool

/-- An operation of the store that the writer waits for. -/
inductive Operation (ID H : Type)
  | putChunk (data : Bytes) (channel : UInt8) (handler : Option H)
  | putTree (entries : List (NamedDirectoryEntryID ID)) (op : ℕ) (isFlush : Bool)
  deriving DecidableEq

/-- The object that an operation stores. -/
def Operation.object : Operation ID H → LogObject ID
  | .putChunk data _ _ => .chunk data
  | .putTree entries _ _ => CASTree entries

/-- What a function of the writer leads to: calls of handlers, and the next operation. -/
structure Effects (ID E H : Type) where
  calls : List (Call ID E H) := []
  operation : Option (Operation ID H) := none

/-- The state of the writer. -/
structure CASLogWriter (ID H : Type) where
  maxEntries : ℕ
  isOK : Bool := true
  writeOpCount : ℕ := 0
  lastWriteOp : ℕ := 0
  currentID : Option ID := none
  prevID : Option ID := none
  rootID : Option ID := none
  prevSize : ℕ := 0
  rootSize : ℕ := 0
  currentSize : ℕ := 0
  directoryEntries : List (NamedDirectoryEntryID ID) := []
  /-- The write operations whose handlers have not been called for the last time. -/
  pendingOps : List (ℕ × Option H) := []
  flushPending : Bool := false

/-- The call of a handler, if there is one. -/
def call (handler : Option H) (result : Except (LogError E) ID) (terminal : Bool) :
    List (Call ID E H) :=
  (handler.map (fun handler => ⟨handler, result, terminal⟩)).toList

namespace CASLogWriter

/-- A writer with at least three entries in a buffer: two links and a chunk. -/
def create (max : ℕ) : CASLogWriter ID H where
  maxEntries := if max < 3 then 3 else max

variable (w : CASLogWriter ID H)

/-- The id of the tree that was stored last. -/
def getLatestID : Option ID := w.currentID.or w.prevID

/-- Append a chunk. -/
def append (data : Bytes) (channel : UInt8) (handler : Option H) :
    Effects ID E H :=
  if ¬ w.isOK then { calls := call handler (.error (.streamFailed none)) true }
  else { operation := some (.putChunk data channel handler) }

/-- The name of the entry of a chunk. -/
def chunkName (index : ℕ) (channel : UInt8) : Bytes :=
  numeral index ++ ascii "." ++ numeral channel.toNat

/-- The entry of a chunk. -/
def chunkEntry (index : ℕ) (channel : UInt8) (size : ℕ) (id : ID) : NamedDirectoryEntryID ID where
  info := { name := chunkName index channel, type := .plainFile, size := size }
  id := id

/-- The entry of a link to another buffer. -/
def linkEntry (name : Bytes) (size : ℕ) (id : ID) : NamedDirectoryEntryID ID where
  info := { name := name, type := .directory, size := size }
  id := id

/-- A chunk has been stored, or not. -/
def postChunk (channel : UInt8) (handler : Option H) (size : ℕ)
    (res : Except E ID) : CASLogWriter ID H × Effects ID E H :=
  match res with
  | .error error => (w, { calls := call handler (.error (.store error)) true })
  | .ok contentID =>
    -- After a failure the handlers have been called already.
    if ¬ w.isOK then (w, {})
    else
      let op := w.writeOpCount + 1
      let entries := w.directoryEntries
        ++ [chunkEntry w.directoryEntries.length channel size contentID]
      let w := { w with
        currentSize := w.currentSize + size
        writeOpCount := op
        pendingOps := w.pendingOps ++ [(op, handler)] }
      if w.flushPending then ({ w with directoryEntries := entries }, {})
      else if w.maxEntries ≤ entries.length then
        ({ w with flushPending := true, directoryEntries := [] },
          { operation := some (.putTree entries op true) })
      else
        ({ w with directoryEntries := entries },
          { operation := some (.putTree entries op false) })

/-- A tree that was not the last one of its buffer has been stored, or not. -/
def postWrite (op : ℕ) (res : Except E ID) :
    CASLogWriter ID H × Effects ID E H :=
  -- A later write beat this one.
  if op < w.lastWriteOp then (w, {})
  else match res with
    | .error error =>
      match w.pendingOps.find? (fun pending => pending.1 = op) with
      | none => (w, {})
      | some pending => (w, { calls := call pending.2 (.error (.streamStall error)) false })
    | .ok id =>
      ({ w with
        currentID := some id
        lastWriteOp := op
        pendingOps := w.pendingOps.dropWhile (fun pending => pending.1 ≤ op) },
      { calls := (w.pendingOps.takeWhile (fun pending => pending.1 ≤ op)).flatMap
          (fun pending => call pending.2 (.ok id) true) })

/-- The last tree of a buffer has been stored, or not. -/
def postFlush (op : ℕ) (res : Except E ID) :
    CASLogWriter ID H × Effects ID E H :=
  match res with
  | .error error =>
    ({ w with isOK := false, directoryEntries := [], pendingOps := [] },
      { calls := w.pendingOps.flatMap
          (fun pending => call pending.2 (.error (.streamFailed (some error))) true) })
  | .ok id =>
    let rootID := w.rootID.getD id
    let rootSize := if w.rootID.isSome then w.rootSize else w.currentSize
    let entries := linkEntry (ascii "root") rootSize rootID
      :: linkEntry (ascii "prev") w.currentSize id :: w.directoryEntries
    let w := { w with
      lastWriteOp := op
      rootID := some rootID
      rootSize := rootSize
      prevID := some id
      prevSize := w.currentSize
      currentID := none
      currentSize := 0
      directoryEntries := entries }
    if 2 < entries.length then
      -- Chunks have come in the meantime.
      let chainedOp := w.writeOpCount + 1
      let w := { w with
        writeOpCount := chainedOp
        pendingOps := w.pendingOps ++ [(chainedOp, none)] }
      if w.maxEntries ≤ entries.length then
        ({ w with flushPending := true, directoryEntries := [] },
          { operation := some (.putTree entries chainedOp true) })
      else (w, { operation := some (.putTree entries chainedOp false) })
    else (w, {})

/-- A tree has been stored, or not. -/
def postSync (op : ℕ) (isFlush : Bool) (res : Except E ID) :
    CASLogWriter ID H × Effects ID E H :=
  if isFlush then w.postFlush op res else w.postWrite op res

/-- An operation has completed. -/
def complete (operation : Operation ID H) (res : Except E ID) :
    CASLogWriter ID H × Effects ID E H :=
  match operation with
  | .putChunk data channel handler => w.postChunk channel handler data.length res
  | .putTree _ op isFlush => w.postSync op isFlush res

end CASLogWriter

open CASLogWriter (chunkEntry chunkName complete create getLatestID postChunk postFlush postSync
  postWrite)

/-! ### A store whose operations complete at once -/

/-- A store in which an object is found under the id that it was given, from then on. -/
structure CASDatabase (ID : Type) where
  Store : Type
  put : Store → LogObject ID → ID × Store
  get : Store → ID → Option (LogObject ID)
  get_put : ∀ store object, get (put store object).2 (put store object).1 = some object
  get_put_of_get : ∀ store object {id other}, get store id = some other →
    get (put store object).2 id = some other

/-- A chunk as it is appended. -/
structure Chunk where
  data : Bytes
  channel : UInt8
  deriving DecidableEq

section Synchronous

variable (C : CASDatabase ID)

/-- Carry out operations until there is none left; there is no result if the fuel does not
suffice. -/
def perform : ℕ → C.Store × CASLogWriter ID H → Option (Operation ID H) →
    Option (C.Store × CASLogWriter ID H)
  | _, state, none => some state
  | 0, _, some _ => none
  | fuel + 1, (store, w), some operation =>
    let (id, store) := C.put store operation.object
    let (w, effects) := @complete ID Empty H w operation (.ok id)
    perform fuel (store, w) effects.operation

/-- Append a chunk. -/
def appendChunk (fuel : ℕ) (state : C.Store × CASLogWriter ID H) (chunk : Chunk) :
    Option (C.Store × CASLogWriter ID H) :=
  perform C fuel state
    (@CASLogWriter.append ID Empty H state.2 chunk.data chunk.channel none).operation

/-- Append chunks one after another. -/
def appendAll (fuel : ℕ) (state : C.Store × CASLogWriter ID H) (chunks : List Chunk) :
    Option (C.Store × CASLogWriter ID H) :=
  chunks.foldlM (appendChunk C fuel) state

/-! ### Reading a log -/

/-- The channel in the name of a chunk. -/
def nameChannel (name : Bytes) : ℕ := digitsValue (name.dropWhile (· ≠ '.'.toUInt8)).tail

/-- The chunk that an entry refers to, with its channel. -/
def readChunk (store : C.Store) (entry : NamedDirectoryEntryID ID) : Option (ℕ × Bytes) :=
  match C.get store entry.id with
  | some (.chunk data) => some (nameChannel entry.info.name, data)
  | _ => none

/-- The chunks of a log, from the tree of its last buffer: those of the buffers before, along
the links, then those of the buffer in the order in which the tree lists them. -/
def readLog (store : C.Store) : ℕ → ID → Option (List (ℕ × Bytes))
  | 0, _ => none
  | fuel + 1, id =>
    match C.get store id with
    | some (.tree entries _) => do
      let before ← match entries.find? (fun entry => entry.info.name = ascii "prev") with
        | none => some []
        | some link => readLog store fuel link.id
      let chunks ← (entries.filter (fun entry => entry.info.type = .plainFile)).mapM
        (readChunk C store)
      some (before ++ chunks)
    | _ => none

/-- The tree is one that is read for the log, along the links to previous buffers. -/
inductive Reaches (store : C.Store) : ID → ID → Prop
  | refl (id : ID) : Reaches store id id
  | prev {id id' : ID} {entries : List (NamedDirectoryEntryID ID)} {size : ℕ}
      {link : NamedDirectoryEntryID ID} :
      C.get store id = some (.tree entries size) → link ∈ entries →
      link.info.name = ascii "prev" → Reaches store link.id id' → Reaches store id id'

/-- The links of a tree have the sizes of the chunks in the buffers they lead to. -/
def LinksSized (store : C.Store) (id : ID) : Prop :=
  ∀ entries size, C.get store id = some (.tree entries size) →
    ∀ link ∈ entries, link.info.type = .directory →
      ∃ linked size', C.get store link.id = some (.tree linked size')
        ∧ link.info.size
          = ((linked.filter (fun entry => entry.info.type = .plainFile)).map
              (fun entry => entry.info.size)).sum

end Synchronous

/-! ### The names of the chunks -/

/-- A chunk as it is read. -/
def Chunk.read (chunk : Chunk) : ℕ × Bytes := (chunk.channel.toNat, chunk.data)

theorem nameChannel_chunkName (index : ℕ) (channel : UInt8) :
  nameChannel (chunkName index channel) = channel.toNat
  := by
  have hdigits : ∀ c ∈ numeral index, c ≠ '.'.toUInt8 := by
    rintro c hc rfl
    have hdigit := (SQLite.isDigit_of_mem_numeral index).2 _ hc
    revert hdigit
    decide
  have hdrop : (chunkName index channel).dropWhile (· ≠ '.'.toUInt8)
      = '.'.toUInt8 :: numeral channel.toNat := by
    rw [chunkName, append_assoc, dropWhile_append_of_pos]
    · rfl
    · intro c hc
      simpa using hdigits c hc
  rw [nameChannel, hdrop, tail_cons, SQLite.digitsValue_numeral]

/-- No chunk is named like the link to the previous buffer. -/
theorem chunkName_ne_prev (index : ℕ) (channel : UInt8) :
  chunkName index channel ≠ ascii "prev"
  := by
  intro h
  have hmem : '.'.toUInt8 ∈ chunkName index channel := by
    simp [chunkName, ascii]
  rw [h] at hmem
  revert hmem
  decide

/-- The names of the first ten chunks are in the order of their numbers. -/
theorem chunkName_lt {i j : ℕ} (hij : i < j) (hj : j < 10) (channel channel' : UInt8) :
  chunkName i channel < chunkName j channel'
  := by
  rw [chunkName, chunkName, SQLite.numeral_of_lt (hij.trans hj),
    SQLite.numeral_of_lt hj]
  apply List.Lex.rel
  have hlt : ∀ i < 10, ∀ j < 10, i < j → (48 + i).toUInt8 < (48 + j).toUInt8 := by decide
  apply hlt i (hij.trans hj) j hj hij

/-! ### What is written -/

section Written

variable {C : CASDatabase ID} (stored : List (Chunk × ID))

/-- The entries of a list of stored chunks. -/
def chunkEntries : List (NamedDirectoryEntryID ID) :=
  stored.mapIdx (fun i p => chunkEntry i p.1.channel p.1.data.length p.2)

/-- The chunks are in the store. -/
def AreStored (C : CASDatabase ID) (store : C.Store) (stored : List (Chunk × ID)) : Prop :=
  ∀ p ∈ stored, C.get store p.2 = some (.chunk p.1.data)

variable {store : C.Store} {stored : List (Chunk × ID)}

theorem AreStored.put (h : AreStored C store stored) (object : LogObject ID) :
  AreStored C (C.put store object).2 stored
  := by
  intro p hp
  apply C.get_put_of_get _ _ (h p hp)

/-- The buffer holds the chunks, and the tree of its entries is the latest one. -/
structure Filling (store : C.Store) (w : CASLogWriter ID H) (stored : List (Chunk × ID)) :
    Prop where
  isOK : w.isOK = true
  flushPending : w.flushPending = false
  prevID : w.prevID = none
  currentID : ∀ id, w.currentID = some id → C.get store id = some (CASTree w.directoryEntries)
  currentID_isSome : w.currentID.isSome ∨ stored = []
  entries : w.directoryEntries = chunkEntries stored
  stored : AreStored C store stored
  lastWriteOp : w.lastWriteOp ≤ w.writeOpCount

/-- The tree of the full buffer is the latest one, and the writer waits for it. -/
structure Stuck (store : C.Store) (w : CASLogWriter ID H) (stored : List (Chunk × ID)) :
    Prop where
  isOK : w.isOK = true
  flushPending : w.flushPending = true
  currentID : w.currentID = none
  prevID : ∃ id, w.prevID = some id ∧ C.get store id = some (CASTree (chunkEntries stored))
  stored : AreStored C store stored

theorem perform_none (fuel : ℕ) (state : C.Store × CASLogWriter ID H) :
  perform C fuel state none = some state
  := by
  cases fuel <;> rfl

theorem chunkEntries_concat (stored : List (Chunk × ID)) (chunk : Chunk) (id : ID) :
  chunkEntries (stored ++ [(chunk, id)])
    = chunkEntries stored
      ++ [chunkEntry stored.length chunk.channel chunk.data.length id]
  := by
  rw [chunkEntries, mapIdx_concat]
  rfl

theorem length_chunkEntries (stored : List (Chunk × ID)) :
  (chunkEntries stored).length = stored.length
  := length_mapIdx

/-- The entries after a chunk has been stored under the given id. -/
def nextEntries (w : CASLogWriter ID H) (chunk : Chunk) (id : ID) :
    List (NamedDirectoryEntryID ID) :=
  w.directoryEntries
    ++ [chunkEntry w.directoryEntries.length chunk.channel chunk.data.length id]

variable {w : CASLogWriter ID H}

section

variable (store : C.Store)

/-- A chunk that does not fill the buffer: it is stored, and the tree of the buffer. -/
theorem appendChunk_write
    (hOK : w.isOK = true)
    (hflush : w.flushPending = false) (hop : ¬ w.writeOpCount + 1 < w.lastWriteOp)
    (chunk : Chunk) (hmax : w.directoryEntries.length + 1 < w.maxEntries) (fuel : ℕ) :
  ∃ pendingOps,
    let stored := C.put store (.chunk chunk.data)
    let written := C.put stored.2 (CASTree (nextEntries w chunk stored.1))
    appendChunk C (fuel + 2) (store, w) chunk
      = some (written.2, { w with
          currentSize := w.currentSize + chunk.data.length
          writeOpCount := w.writeOpCount + 1
          lastWriteOp := w.writeOpCount + 1
          currentID := some written.1
          directoryEntries := nextEntries w chunk stored.1
          pendingOps := pendingOps })
  := by
  have hfull : ¬ w.maxEntries ≤ w.directoryEntries.length + 1 := by omega
  simp [appendChunk, CASLogWriter.append, hOK, perform, perform_none,
    complete, postChunk, hflush, hfull, postSync,
    postWrite, hop, Operation.object, nextEntries]

/-- A chunk that fills the buffer: its tree becomes the previous one. -/
theorem appendChunk_flush
    (hOK : w.isOK = true) (hflush : w.flushPending = false) (chunk : Chunk)
    (hmax : w.maxEntries ≤ w.directoryEntries.length + 1) (fuel : ℕ) :
  ∃ w' : CASLogWriter ID H,
    let stored := C.put store (.chunk chunk.data)
    let written := C.put stored.2 (CASTree (nextEntries w chunk stored.1))
    appendChunk C (fuel + 2) (store, w) chunk = some (written.2, w')
      ∧ w'.isOK = true ∧ w'.flushPending = true ∧ w'.currentID = none
      ∧ w'.prevID = some written.1 ∧ w'.maxEntries = w.maxEntries
  := by
  simp [appendChunk, CASLogWriter.append, hOK, perform, perform_none,
    complete, postChunk, hflush, hmax, postSync,
    postFlush, Operation.object, nextEntries]

/-- A chunk while the writer waits for the last tree of a buffer: only the chunk is stored. -/
theorem appendChunk_wait
    (hOK : w.isOK = true) (hflush : w.flushPending = true) (chunk : Chunk) (fuel : ℕ) :
  ∃ w' : CASLogWriter ID H,
    appendChunk C (fuel + 2) (store, w) chunk
      = some ((C.put store (.chunk chunk.data)).2, w')
      ∧ w'.isOK = true ∧ w'.flushPending = true ∧ w'.currentID = w.currentID
      ∧ w'.prevID = w.prevID ∧ w'.maxEntries = w.maxEntries
  := by
  simp [appendChunk, CASLogWriter.append, hOK, perform, perform_none,
    complete, postChunk, hflush, Operation.object]

end

/-- The entries of a buffer with one more chunk. -/
theorem Filling.nextEntries_eq (h : Filling store w stored) (chunk : Chunk) (id : ID) :
  nextEntries w chunk id = chunkEntries (stored ++ [(chunk, id)])
  := by
  rw [nextEntries, h.entries, length_chunkEntries, chunkEntries_concat]

/-- A chunk that has just been stored is stored with the others. -/
theorem AreStored.concat (h : AreStored C store stored) (chunk : Chunk) (object : LogObject ID) :
  AreStored C (C.put (C.put store (.chunk chunk.data)).2 object).2
    (stored ++ [(chunk, (C.put store (.chunk chunk.data)).1)])
  := by
  apply AreStored.put
  intro p hp
  cases mem_append.mp hp with
  | inl hp => exact h.put _ p hp
  | inr hp =>
    obtain rfl := mem_singleton.mp hp
    apply C.get_put

theorem Filling.append
    (h : Filling store w stored) (chunk : Chunk) (hmax : stored.length + 1 < w.maxEntries)
    (fuel : ℕ) :
  ∃ store' w' id, appendChunk C (fuel + 2) (store, w) chunk = some (store', w')
    ∧ w'.maxEntries = w.maxEntries ∧ Filling store' w' (stored ++ [(chunk, id)])
  := by
  have hlength : w.directoryEntries.length = stored.length := by
    rw [h.entries, length_chunkEntries]
  have hop : ¬ w.writeOpCount + 1 < w.lastWriteOp := by
    have hle := h.lastWriteOp
    omega
  rw [← hlength] at hmax
  obtain ⟨pendingOps, happend⟩ :=
    appendChunk_write store h.isOK h.flushPending hop chunk hmax fuel
  refine ⟨_, _, (C.put store (.chunk chunk.data)).1, happend, rfl, ?_⟩
  constructor
  · exact h.isOK
  · exact h.flushPending
  · exact h.prevID
  · intro id hid
    cases hid
    apply C.get_put
  · left
    rfl
  · apply h.nextEntries_eq
  · apply h.stored.concat
  · exact le_refl _

theorem Filling.flush
    (h : Filling store w stored) (chunk : Chunk) (hmax : w.maxEntries ≤ stored.length + 1)
    (fuel : ℕ) :
  ∃ store' w' id, appendChunk C (fuel + 2) (store, w) chunk = some (store', w')
    ∧ w'.maxEntries = w.maxEntries ∧ Stuck store' w' (stored ++ [(chunk, id)])
  := by
  have hlength : w.directoryEntries.length = stored.length := by
    rw [h.entries, length_chunkEntries]
  rw [← hlength] at hmax
  obtain ⟨w', happend, hOK, hflush, hcurrent, hprev, hmax'⟩ :=
    appendChunk_flush store h.isOK h.flushPending chunk hmax fuel
  refine ⟨_, w', (C.put store (.chunk chunk.data)).1, happend, hmax', hOK, hflush, hcurrent, ?_,
    h.stored.concat chunk _⟩
  refine ⟨_, hprev, ?_⟩
  rw [← h.nextEntries_eq]
  apply C.get_put

/-- Nothing follows a full buffer. -/
theorem Stuck.append (h : Stuck store w stored) (chunk : Chunk) (fuel : ℕ) :
  ∃ store' w', appendChunk C (fuel + 2) (store, w) chunk = some (store', w')
    ∧ w'.maxEntries = w.maxEntries ∧ Stuck store' w' stored
  := by
  obtain ⟨w', happend, hOK, hflush, hcurrent, hprev, hmax⟩ :=
    appendChunk_wait store h.isOK h.flushPending chunk fuel
  obtain ⟨id, hid, hget⟩ := h.prevID
  refine ⟨_, w', happend, hmax, hOK, hflush, ?_, ⟨id, ?_, ?_⟩, h.stored.put _⟩
  · rw [hcurrent, h.currentID]
  · rw [hprev, hid]
  · apply C.get_put_of_get _ _ hget

/-- After a number of chunks the writer is filling its first buffer, or has filled it and is
stuck. -/
theorem exists_appendAll (store : C.Store) (max : ℕ) (fuel : ℕ) (chunks : List Chunk) :
  ∃ store' w' stored,
    appendAll C (fuel + 2) (store, (create max : CASLogWriter ID H)) chunks
        = some (store', w')
      ∧ w'.maxEntries = (create max : CASLogWriter ID H).maxEntries
      ∧ stored.map Prod.fst = chunks.take w'.maxEntries
      ∧ if chunks.length < w'.maxEntries then Filling store' w' stored
        else Stuck store' w' stored
  := by
  have hpos : 0 < (create max : CASLogWriter ID H).maxEntries := by
    rw [create]
    dsimp only
    split_ifs <;> omega
  generalize hw : (create max : CASLogWriter ID H) = w at hpos
  induction chunks using reverseRecOn with
  | nil =>
    refine ⟨store, w, [], rfl, rfl, by simp, ?_⟩
    rw [length_nil, if_pos hpos]
    subst hw
    constructor <;> simp [create, chunkEntries, AreStored]
  | append_singleton chunks chunk ih =>
    obtain ⟨store₁, w₁, stored, hrun, hmax, hstored, hstate⟩ := ih
    have hlength : stored.length = (chunks.take w₁.maxEntries).length := by
      rw [← hstored, length_map]
    rw [appendAll, foldlM_append, ← appendAll, hrun]
    simp only [Option.bind_eq_bind, Option.bind_some, foldlM_cons]
    by_cases hlt : chunks.length < w₁.maxEntries
    · rw [if_pos hlt] at hstate
      rw [take_of_length_le hlt.le] at hstored hlength
      have htaken (id) : (stored ++ [(chunk, id)]).map Prod.fst
          = (chunks ++ [chunk]).take w₁.maxEntries := by
        rw [take_of_length_le (by simp; omega), map_append, hstored]
        rfl
      by_cases hfull : w₁.maxEntries ≤ stored.length + 1
      · obtain ⟨store', w', id, happend, hmax', hstuck⟩ := hstate.flush chunk hfull fuel
        refine ⟨store', w', _, by rw [happend]; rfl, hmax'.trans hmax, hmax' ▸ htaken id, ?_⟩
        rw [if_neg (by simp; omega)]
        exact hstuck
      · obtain ⟨store', w', id, happend, hmax', hfilling⟩ :=
          hstate.append chunk (by omega) fuel
        refine ⟨store', w', _, by rw [happend]; rfl, hmax'.trans hmax, hmax' ▸ htaken id, ?_⟩
        rw [if_pos (by simp; omega)]
        exact hfilling
    · rw [if_neg hlt] at hstate
      obtain ⟨store', w', happend, hmax', hstuck⟩ := hstate.append chunk fuel
      refine ⟨store', w', stored, by rw [happend]; rfl, hmax'.trans hmax, ?_, ?_⟩
      · rw [hmax', hstored, take_append_of_le_length (by omega)]
      · rw [if_neg (by simp; omega)]
        exact hstuck

/-! ### What is read back -/

/-- An entry of a stored chunk leads to the chunk. -/
theorem readChunk_of_mem
    (h : AreStored C store stored)
    {entry : NamedDirectoryEntryID ID} (hentry : entry ∈ chunkEntries stored) :
  entry.info.type = .plainFile ∧ entry.info.name ≠ ascii "prev"
    ∧ ∃ p ∈ stored, readChunk C store entry = some p.1.read
  := by
  obtain ⟨i, hi, rfl⟩ := mem_mapIdx.mp hentry
  have hget := h _ (getElem_mem hi)
  refine ⟨rfl, chunkName_ne_prev _ _, _, getElem_mem hi, ?_⟩
  rw [readChunk, chunkEntry, hget]
  simp only [nameChannel_chunkName]
  rfl

/-- All entries of the stored chunks lead to them, in the same order. -/
theorem filterMap_readChunk (h : AreStored C store stored) :
  (chunkEntries stored).filterMap (readChunk C store) = stored.map (·.1.read)
  := by
  have hmap : (chunkEntries stored).map (readChunk C store)
      = stored.map (some ·.1.read) := by
    apply ext_getElem
    · rw [length_map, length_map, length_chunkEntries]
    · intro i hi hi'
      rw [length_map] at hi'
      have hget := h _ (getElem_mem hi')
      simp only [getElem_map, chunkEntries, getElem_mapIdx]
      rw [readChunk, chunkEntry, hget]
      simp only [nameChannel_chunkName]
      rfl
  have hfilter : (chunkEntries stored).filterMap (readChunk C store)
      = ((chunkEntries stored).map (readChunk C store)).filterMap (fun read => read) := by
    rw [filterMap_map]
    rfl
  rw [hfilter, hmap, filterMap_map]
  exact congrFun filterMap_eq_map stored

/-- A computation that succeeds for each element succeeds for the list. -/
theorem mapM_eq_filterMap {α β : Type} {f : α → Option β} {l : List α} (h : ∀ a ∈ l, (f a).isSome) :
  l.mapM f = some (l.filterMap f)
  := by
  induction l with
  | nil => rfl
  | cons a l ih =>
    obtain ⟨b, hb⟩ := Option.isSome_iff_exists.mp (h a mem_cons_self)
    rw [mapM_cons, hb, ih (fun c hc => h c (mem_cons_of_mem a hc)), filterMap_cons_some hb]
    rfl

theorem insertionSort_chunkEntries (h : stored.length ≤ 10) :
  (chunkEntries stored).insertionSort NameLE = chunkEntries stored
  := by
  apply List.Pairwise.insertionSort_eq
  rw [List.pairwise_iff_getElem]
  intro i j hi hj hij
  rw [length_chunkEntries] at hj
  simp only [chunkEntries, List.getElem_mapIdx]
  apply List.lt_asymm
  apply chunkName_lt hij (by omega)

/-- The tree of some stored chunks is read as these chunks, in some order, and in their own order
if there are not more than ten. -/
theorem readLog_tree
    (h : AreStored C store stored) {id : ID}
    (hget : C.get store id = some (CASTree (chunkEntries stored))) (fuel : ℕ) :
  ∃ read, readLog C store (fuel + 1) id = some read
    ∧ read.Perm (stored.map (·.1.read))
    ∧ (stored.length ≤ 10 → read = stored.map (·.1.read))
  := by
  have hmem : ∀ entry ∈ (chunkEntries stored).insertionSort NameLE,
      entry ∈ chunkEntries stored := by
    intro entry hentry
    exact (perm_insertionSort _ _).mem_iff.mp hentry
  have hprev : ((chunkEntries stored).insertionSort NameLE).find?
      (·.info.name = ascii "prev") = none := by
    rw [find?_eq_none]
    intro entry hentry
    simpa using (readChunk_of_mem h (hmem entry hentry)).2.1
  have hfilter : ((chunkEntries stored).insertionSort NameLE).filter
      (·.info.type = .plainFile)
        = (chunkEntries stored).insertionSort NameLE := by
    rw [filter_eq_self]
    intro entry hentry
    simpa using (readChunk_of_mem h (hmem entry hentry)).1
  have hchunks : ((chunkEntries stored).insertionSort NameLE).mapM (readChunk C store)
      = some (((chunkEntries stored).insertionSort NameLE).filterMap (readChunk C store)) := by
    apply mapM_eq_filterMap
    intro entry hentry
    obtain ⟨-, -, p, -, hp⟩ := readChunk_of_mem h (hmem entry hentry)
    rw [hp]
    rfl
  refine ⟨((chunkEntries stored).insertionSort NameLE).filterMap (readChunk C store), ?_, ?_, ?_⟩
  · simp only [readLog, hget, CASTree, hprev, hfilter, hchunks]
    rfl
  · rw [← filterMap_readChunk h]
    apply (perm_insertionSort NameLE (chunkEntries stored)).filterMap
  · intro hlength
    rw [insertionSort_chunkEntries hlength, filterMap_readChunk h]

/-- However many chunks have been appended, the latest tree is the one of the chunks of the
first buffer. -/
theorem exists_latest (store : C.Store) (max fuel : ℕ) (chunks : List Chunk) :
  ∃ store' w' stored,
    appendAll C (fuel + 2) (store, (create max : CASLogWriter ID H)) chunks
        = some (store', w')
      ∧ stored.map Prod.fst = chunks.take (if max < 3 then 3 else max)
      ∧ AreStored C store' stored
      ∧ (w'.getLatestID = none → chunks = [])
      ∧ ∀ id, w'.getLatestID = some id →
          C.get store' id = some (CASTree (chunkEntries stored))
  := by
  obtain ⟨store', w', stored, hrun, hmax, hstored, hstate⟩ :=
    exists_appendAll (H := H) store max fuel chunks
  have hmax' : w'.maxEntries = if max < 3 then 3 else max := hmax
  refine ⟨store', w', stored, hrun, by rw [hstored, hmax'], ?_⟩
  split at hstate
  next hlt =>
    rw [take_of_length_le hlt.le] at hstored
    refine ⟨hstate.stored, ?_, ?_⟩
    · intro hnone
      rw [getLatestID, hstate.prevID, Option.or_none] at hnone
      have hnil := hstate.currentID_isSome.resolve_left (by rw [hnone]; simp)
      rw [← hstored, hnil]
      rfl
    · intro id hid
      rw [getLatestID, hstate.prevID, Option.or_none] at hid
      rw [hstate.currentID id hid, hstate.entries]
  next hle =>
    obtain ⟨id, hprev, hget⟩ := hstate.prevID
    have hlatest : w'.getLatestID = some id := by
      rw [getLatestID, hstate.currentID, hprev]
      rfl
    refine ⟨hstate.stored, ?_, ?_⟩
    · intro hnone
      rw [hlatest] at hnone
      cases hnone
    · intro id' hid'
      rw [hlatest] at hid'
      cases hid'
      exact hget

/-- Unless no chunk was appended there is a log to be read, and it has the chunks of the first
buffer and no others. -/
theorem readLog_perm (store : C.Store) (max fuel : ℕ) (chunks : List Chunk) :
  ∃ store' w', appendAll C (fuel + 2) (store, (create max : CASLogWriter ID H)) chunks
      = some (store', w')
    ∧ (w'.getLatestID = none → chunks = [])
    ∧ ∀ id, w'.getLatestID = some id → ∀ depth, ∃ read,
        readLog C store' (depth + 1) id = some read
          ∧ read.Perm ((chunks.take (if max < 3 then 3 else max)).map Chunk.read)
  := by
  obtain ⟨store', w', stored, hrun, hstored, hall, hnone, htree⟩ :=
    exists_latest (H := H) store max fuel chunks
  refine ⟨store', w', hrun, hnone, ?_⟩
  intro id hid depth
  obtain ⟨read, hread, hperm, -⟩ := readLog_tree hall (htree id hid) depth
  refine ⟨read, hread, ?_⟩
  rw [← hstored, map_map]
  exact hperm

/-- A log of at most ten chunks that fit into a buffer is read as these chunks in the order in
which they were appended, and the links of its trees have the right sizes. -/
theorem readLog_appendAll
    (store : C.Store) (max : ℕ) (hmax : 3 ≤ max) (chunks : List Chunk)
    (hlength : chunks.length ≤ max) (hten : chunks.length ≤ 10) (fuel : ℕ) :
  ∃ store' w', appendAll C (fuel + 2) (store, (create max : CASLogWriter ID H)) chunks
      = some (store', w')
    ∧ (w'.getLatestID = none → chunks = [])
    ∧ ∀ id, w'.getLatestID = some id →
        (∀ depth, readLog C store' (depth + 1) id = some (chunks.map Chunk.read))
          ∧ ∀ id', Reaches C store' id id' → LinksSized C store' id'
  := by
  obtain ⟨store', w', stored, hrun, hstored, hall, hnone, htree⟩ :=
    exists_latest (H := H) store max fuel chunks
  rw [if_neg (by omega), take_of_length_le hlength] at hstored
  refine ⟨store', w', hrun, hnone, ?_⟩
  intro id hid
  have hget := htree id hid
  constructor
  · intro depth
    obtain ⟨read, hread, -, heq⟩ := readLog_tree hall hget depth
    have hread' : read = stored.map (fun p => p.1.read) := by
      apply heq
      rw [← length_map (f := Prod.fst), hstored]
      exact hten
    rw [hread, hread', ← hstored, map_map]
    rfl
  · -- There is no link in the tree.
    have hmem : ∀ entries size, C.get store' id = some (.tree entries size) →
        ∀ entry ∈ entries, entry ∈ chunkEntries stored := by
      intro entries size htree' entry hentry
      rw [hget] at htree'
      cases htree'
      exact (perm_insertionSort _ _).mem_iff.mp hentry
    intro id' hreaches
    cases hreaches with
    | refl =>
      intro entries size htree' link hlink hdirectory
      rw [(readChunk_of_mem hall (hmem entries size htree' link hlink)).1] at hdirectory
      cases hdirectory
    | prev htree' hlink hprev _ =>
      exact absurd hprev (readChunk_of_mem hall (hmem _ _ htree' _ hlink)).2.1

end Written

namespace LogSamples

/-- A store that numbers its objects. -/
def numbered : CASDatabase ℕ where
  Store := List (LogObject ℕ)
  put store object := (store.length, store ++ [object])
  get store id := store[id]?
  get_put store object := List.getElem?_concat_length
  get_put_of_get store object {id other} h := by
    rw [List.getElem?_append_left (List.getElem?_eq_some_iff.mp h).1, h]

/-- A number of chunks of one byte each. -/
def chunks (n : ℕ) : List Chunk := (range n).map (fun i => ⟨[i.toUInt8], 1⟩)

/-- What is read after chunks have been appended to a log with the given limit. -/
def readBack (max : ℕ) (chunks : List Chunk) : Option (List (ℕ × Bytes)) := do
  let (store, w) ← appendAll numbered 2 ([], (create max : CASLogWriter ℕ Unit)) chunks
  let id ← w.getLatestID
  readLog numbered store 4 id

end LogSamples

open LogSamples

/-- Two chunks in a log with three entries in a buffer. -/
theorem readLog_appendAll_two :
  ∃ store w, appendAll numbered 2 ([], (create 3 : CASLogWriter ℕ Unit)) (chunks 2)
      = some (store, w)
    ∧ (w.getLatestID = none → chunks 2 = [])
    ∧ ∀ id, w.getLatestID = some id →
        (∀ depth, readLog numbered store (depth + 1) id = some ((chunks 2).map Chunk.read))
          ∧ ∀ id', Reaches numbered store id id' → LinksSized numbered store id'
  := readLog_appendAll (C := numbered) (H := Unit) [] 3 (by decide) (chunks 2) (by decide)
    (by decide) 0

/-- Three of four chunks are read from a log with three entries in a buffer. -/
theorem readLog_perm_four :
  ∃ store w id read, appendAll numbered 2 ([], (create 3 : CASLogWriter ℕ Unit)) (chunks 4)
      = some (store, w)
    ∧ w.getLatestID = some id
    ∧ readLog numbered store 1 id = some read ∧ read.Perm ((chunks 3).map Chunk.read)
  := by
  obtain ⟨store, w, hrun, hnone, hread⟩ :=
    readLog_perm (C := numbered) (H := Unit) [] 3 0 (chunks 4)
  obtain ⟨id, hid⟩ := Option.ne_none_iff_exists'.mp fun h => absurd (hnone h) (by decide)
  obtain ⟨read, hread, hperm⟩ := hread id hid 0
  exact ⟨store, w, id, read, hrun, hid, hread, hperm⟩

/-- The fourth chunk of a log with three entries in a buffer is lost, and the eleventh chunk of a
buffer is read before the third. -/
theorem readBack_wrong :
  readBack 3 (chunks 4) = some ((chunks 3).map Chunk.read)
    ∧ readBack 16 (chunks 11)
      = some ([0, 1, 10, 2, 3, 4, 5, 6, 7, 8, 9].map (fun i => (1, [i])))
  := by
  decide

end CASLog

end LLBuild3
