import LLBuild.Basic.BinaryCoding
import LLBuild.Basic.Table
import Mathlib.Data.Set.Function

/-!
# The in-memory content-addressed store

An object is a list of references, which are ids of other objects, and a piece of data.
Its id is a type byte followed by the digest of the bytes fed to the hasher: those of
the references one after the other, then the data.  The store maps the bytes of an id to
the object that was put last under it.

The hash is a parameter.  Nothing in the stream tells where a reference ends, so an
object whose last reference moved to the front of its data has the same id, whatever
the hash is.  Among objects whose references have the same lengths the stream
determines the object, and a store filled with such objects gives back what was put.
-/

open BinaryCoding List

namespace LLBuild3

/-- The id of an object. -/
structure CASID where
  bytes : Bytes
deriving DecidableEq

/-- An object of the store. -/
structure CASObject where
  /-- The ids of the objects referred to. -/
  refs : List CASID := []
  data : Bytes := []
deriving DecidableEq

namespace CASObject

/-- The bytes of an object that the hasher is updated with. -/
def hashed (object : CASObject) : Bytes :=
  object.refs.flatMap CASID.bytes ++ object.data

/-- The lengths of the references. -/
def shape (object : CASObject) : List ℕ :=
  object.refs.map (fun ref => ref.bytes.length)

theorem eq_of_hashed {o o' : CASObject} (hshape : o.shape = o'.shape) (h : o.hashed = o'.hashed) :
  o = o'
  := by
  obtain ⟨refs, data⟩ := o
  obtain ⟨refs', data'⟩ := o'
  simp only [hashed] at hshape h
  -- Each reference takes as many bytes of the stream as its counterpart.
  induction refs generalizing refs' with
  | nil =>
    obtain rfl := map_eq_nil_iff.mp hshape.symm
    simpa using h
  | cons ref refs ih =>
    obtain ⟨ref', refs', rfl, hlen, hshape⟩ := map_eq_cons_iff.mp hshape.symm
    simp only [flatMap_cons, append_assoc] at h
    obtain ⟨href, h⟩ := append_inj h hlen.symm
    have heq := ih refs' hshape.symm h
    rw [CASObject.mk.injEq] at heq ⊢
    obtain rfl : ref = ref' := by
      rw [← CASID.mk.injEq] at href
      exact href
    exact ⟨congrArg (ref :: ·) heq.1, heq.2⟩

end CASObject

/-- The id of an object: a type byte and the digest of its stream. -/
def calcIDForObject (blake3 : Bytes → Bytes) (object : CASObject) : CASID :=
  ⟨5 :: blake3 object.hashed⟩

variable {o o' : CASObject} {blake3 : Bytes → Bytes}

/-- Objects have the same id only if the digests of their streams are the same. -/
theorem calcIDForObject_eq_iff :
  calcIDForObject blake3 o = calcIDForObject blake3 o' ↔ blake3 o.hashed = blake3 o'.hashed
  := by
  simp [calcIDForObject]

/-- The store: the objects by the bytes of their ids. -/
structure InMemoryCASDatabase where
  db : Table Bytes CASObject := ∅

namespace InMemoryCASDatabase

variable (store : InMemoryCASDatabase)

/-- Whether there is an object under the id. -/
def contains (casid : CASID) : Bool :=
  (store.db.lookup casid.bytes).isSome

/-- The object under the id, and the empty object if there is none. -/
def get (casid : CASID) : CASObject :=
  match store.db.lookup casid.bytes with
  | some entry => entry
  | none => {}

section Hash

variable (blake3 : Bytes → Bytes)

variable (store : InMemoryCASDatabase)

/-- Store an object under its id, in the place of what is there. -/
def put (object : CASObject) : CASID × InMemoryCASDatabase :=
  let casid := calcIDForObject blake3 object
  (casid, { store with db := store.db.insert casid.bytes object })

/-- The id an object is stored under. -/
def identify (object : CASObject) : CASID :=
  calcIDForObject blake3 object

/-- The store after a sequence of puts. -/
def puts (objects : List CASObject) : InMemoryCASDatabase :=
  objects.foldl (fun store object => (store.put blake3 object).2) store

variable (store : InMemoryCASDatabase)

theorem puts_db (objects : List CASObject) :
  (store.puts blake3 objects).db
    = store.db.inserts (objects.map (fun o => ((identify blake3 o).bytes, o)))
  := by
  induction objects generalizing store with
  | nil => rfl
  | cons o objects ih =>
    rw [puts, foldl_cons, ← puts, ih]
    rfl

/-- After a sequence of puts, the object found under the id of one of them is one of
them with that id. -/
theorem get_puts_mem {objects : List CASObject} (ho : o ∈ objects) :
  ∃ o' ∈ objects, identify blake3 o' = identify blake3 o
    ∧ (store.puts blake3 objects).get (identify blake3 o) = o'
  := by
  obtain ⟨e, he, hid, hlookup⟩ :=
    Table.lookup_inserts_of_mem store.db
      (mem_map_of_mem (f := fun o => ((identify blake3 o).bytes, o)) ho)
  obtain ⟨o', ho', rfl⟩ := mem_map.mp he
  refine ⟨o', ho', ?_, ?_⟩
  · rwa [← CASID.mk.injEq] at hid
  · rw [get, puts_db, hlookup]

variable {blake3}

/-- **Content addressing.**  Of the objects that are put into an empty store, whose streams do not
collide, no two have the same id and the id of each of them finds it, exactly if those that have
the same stream have references of the same shape. -/
theorem content_addressing_iff {objects : List CASObject}
    (hblake3 : Set.InjOn blake3 {stream | ∃ o ∈ objects, o.hashed = stream}) :
  ((∀ o ∈ objects, ∀ o' ∈ objects, identify blake3 o = identify blake3 o' →
        o.refs = o'.refs ∧ o.data = o'.data)
      ∧ ∀ before o after, objects = before ++ o :: after →
        ((puts blake3 {} objects).get (put blake3 (puts blake3 {} before) o).1) = o)
    ↔ ∀ o ∈ objects, ∀ o' ∈ objects, o.hashed = o'.hashed → o.shape = o'.shape
  := by
  constructor
  · rintro ⟨hinj, -⟩ o ho o' ho' hhashed
    have hid : identify blake3 o = identify blake3 o' :=
      calcIDForObject_eq_iff.mpr (congrArg blake3 hhashed)
    rw [CASObject.shape, CASObject.shape, (hinj o ho o' ho' hid).1]
  · intro hshape
    have hinj {o o'} (ho : o ∈ objects) (ho' : o' ∈ objects)
        (hid : identify blake3 o = identify blake3 o') : o = o' := by
      have hhashed := hblake3 ⟨o, ho, rfl⟩ ⟨o', ho', rfl⟩ (calcIDForObject_eq_iff.mp hid)
      exact CASObject.eq_of_hashed (hshape o ho o' ho' hhashed) hhashed
    constructor
    · intro o ho o' ho' hid
      obtain rfl := hinj ho ho' hid
      exact ⟨rfl, rfl⟩
    · intro before o after hobjects
      have ho : o ∈ objects := by simp [hobjects]
      obtain ⟨o', ho', hid, hget⟩ := get_puts_mem blake3 {} ho
      obtain rfl := hinj ho' ho hid
      exact hget

variable (blake3) in
/-- An object that refers to the empty object and an object that has the bytes of the
same id as its data have one id under every hash, and the second one is found under the
id the first one was put under. -/
theorem put_ref_eq_put_data :
  identify blake3 { refs := [identify blake3 {}] }
      = identify blake3 { data := (identify blake3 {}).bytes }
    ∧ (puts blake3 {} [{}, { refs := [identify blake3 {}] },
          { data := (identify blake3 {}).bytes }]).get
        (put blake3 (puts blake3 {} [{}]) { refs := [identify blake3 {}] }).1
      = { data := (identify blake3 {}).bytes }
  := by
  have hid : identify blake3 { refs := [identify blake3 {}] }
      = identify blake3 { data := (identify blake3 {}).bytes } := by
    simp [identify, calcIDForObject, CASObject.hashed]
  have hput : (put blake3 (puts blake3 {} [{}]) { refs := [identify blake3 {}] }).1
      = identify blake3 { data := (identify blake3 {}).bytes } := hid
  refine ⟨hid, ?_⟩
  rw [hput, get, puts_db, Table.lookup_inserts]
  simp [hid]

end Hash

/-- A blob and a tree that refers to it, put one after the other: the blob is still found. -/
theorem content_addressing_tree :
  (puts id {} [⟨[], [1]⟩, ⟨[⟨[5, 1]⟩], []⟩]).get (put id {} ⟨[], [1]⟩).1 = ⟨[], [1]⟩
  := ((content_addressing_iff Function.injective_id.injOn).mpr (by decide)).2 [] _ _ rfl

/-- With the identity as a hash without collisions, the object that refers to the empty
object is put, and then the object whose data are the bytes of that reference: they have one
id, and the second one is found for the first one. -/
theorem identify_aliases :
  identify id {} = ⟨[5]⟩
    ∧ identify id { refs := [⟨[5]⟩] } = identify id { data := [5] }
    ∧ (puts id {} [{}, { refs := [⟨[5]⟩] }, { data := [5] }]).get
        (put id (puts id {} [{}]) { refs := [⟨[5]⟩] }).1
      = { data := [5] }
  := by
  refine ⟨rfl, ?_⟩
  apply put_ref_eq_put_data id

/-! ### Membership -/

/-- `get` of the Swift adapter, with `nil` for an object without data. -/
def adaptedGet (store : InMemoryCASDatabase) (casid : CASID) : Option CASObject :=
  let obj := store.get casid
  if 0 < obj.data.length then some obj else none

/-- What is stored under an id was put, and the put returned the id. -/
theorem mem_of_lookup_puts
    {objects : List CASObject} {casid : CASID}
    (h : (puts blake3 {} objects).db.lookup casid.bytes = some o) :
  o ∈ objects ∧ identify blake3 o = casid
  := by
  rw [puts_db, Table.lookup_inserts, AList.lookup_empty, Option.or_none] at h
  obtain ⟨e, he, rfl⟩ := Option.map_eq_some_iff.mp h
  obtain ⟨he, hid⟩ := mem_filter.mp (mem_of_getLast? he)
  obtain ⟨o, ho, rfl⟩ := mem_map.mp he
  rw [decide_eq_true_iff, ← CASID.mk.injEq] at hid
  exact ⟨ho, hid⟩

/-- If no object is put without data, an id is in the store iff an object is delivered for it,
by the store and through the adapter, iff a put returned it. -/
theorem contains_puts_iff
    (blake3 : Bytes → Bytes) {objects : List CASObject} (hdata : ∀ o ∈ objects, o.data ≠ [])
    (casid : CASID) :
  ((puts blake3 {} objects).contains casid ↔ (puts blake3 {} objects).get casid ≠ {})
    ∧ ((puts blake3 {} objects).contains casid
      ↔ ((puts blake3 {} objects).adaptedGet casid).isSome)
    ∧ ((puts blake3 {} objects).contains casid
      ↔ ∃ before o after, objects = before ++ o :: after
        ∧ (put blake3 (puts blake3 {} before) o).1 = casid)
  := by
  cases h : (puts blake3 {} objects).db.lookup casid.bytes with
  | none =>
    refine ⟨by simp [contains, get, h], by simp [contains, adaptedGet, get, h], ?_⟩
    refine iff_of_false (by simp [contains, h]) ?_
    rintro ⟨before, o, after, rfl, rfl⟩
    obtain ⟨e, -, -, he⟩ := Table.lookup_inserts_of_mem ∅
      (mem_map_of_mem (f := fun o => ((identify blake3 o).bytes, o))
        (mem_append_right before mem_cons_self))
    rw [puts_db] at h
    cases h.symm.trans he
  | some o =>
    obtain ⟨ho, hid⟩ := mem_of_lookup_puts h
    obtain ⟨before, after, rfl⟩ := append_of_mem ho
    have hne := hdata o ho
    simp only [contains, adaptedGet, get, h]
    refine ⟨?_, ?_, ?_⟩
    · refine iff_of_true rfl ?_
      rintro rfl
      exact hne rfl
    · rw [if_pos (length_pos_iff.mpr hne)]
    · exact iff_of_true rfl ⟨before, o, after, rfl, hid⟩

theorem contains_puts_iff_byte :
  (puts id {} [{ data := [7] }]).contains ⟨[5, 7]⟩
    ∧ ((puts id {} [{ data := [7] }]).adaptedGet ⟨[5, 7]⟩).isSome
  := by
  have h := @contains_puts_iff id [{ data := [7] }] (by decide) ⟨[5, 7]⟩
  have hput := h.2.2.mpr ⟨[], _, [], rfl, rfl⟩
  exact ⟨hput, h.2.1.mp hput⟩

/-- An object with a reference and no data is in the store under the id its put returned, and
the adapter delivers nothing for the id. -/
theorem adaptedGet_of_no_data :
  (put id {} { refs := [⟨[1]⟩] }).1 = ⟨[5, 1]⟩
    ∧ (puts id {} [{ refs := [⟨[1]⟩] }]).contains ⟨[5, 1]⟩
    ∧ (puts id {} [{ refs := [⟨[1]⟩] }]).adaptedGet ⟨[5, 1]⟩ = none
  := by decide

end InMemoryCASDatabase

end LLBuild3
