import Meta1Core.Db.UndoDatabase
import Meta1Core.Lib.Chunks

/-!
# The direct index (`index.hpp`)

A primary index may carry a `direct_index`, a vector of pointers to its objects by instance, in
chunks that are allocated when an instance first reaches them.
-/

namespace Meta1Core.Db

open Lib (Table cellAt setCell addChunk chunkMask Chunked)

def maxHole : Nat := 100

/-- `direct_index`; a pointer is the address of an object. -/
structure DirectIndex where
  next : Nat := 0
  content : List (List (Option Nat)) := []
  idsBeingModified : List Nat := []
  deriving DecidableEq

namespace DirectIndex

variable (bits : Nat)

/-- `content[i >> chunkbits][i & _mask]`; a chunk that has not been allocated is out of bounds. -/
def pointer (content : List (List (Option Nat))) (i : Nat) : Except Exception (Option Nat) :=
  match cellAt bits content i with
  | some p => .ok p
  | none => .error .undefined

def setPointer (content : List (List (Option Nat))) (i : Nat) (p : Option Nat) :
    Except Exception (List (List (Option Nat))) :=
  match setCell bits content i p with
  | some content' => .ok content'
  | none => .error .undefined

def allocate (k : Nat) (content : List (List (Option Nat))) : List (List (Option Nat)) :=
  addChunk bits none k content

/-- `while( next <= instance )`: clear the places of a hole, `count` of them. -/
def clearHole : (count next : Nat) → List (List (Option Nat)) →
    Except Exception (List (List (Option Nat)))
  | 0, _, content => .ok content
  | count + 1, next, content => do
    let content ← setPointer bits content next none
    clearHole count (next + 1) content

def chunkStart (i : Nat) : Nat := i - (i &&& chunkMask bits)

/-- The first part of `object_inserted`: make the place of the instance available. -/
def makePlace (d : DirectIndex) (number : Nat) : Except Exception DirectIndex :=
  if number = d.next then
    let content :=
      if d.next &&& chunkMask bits = 0 then allocate bits (d.next >>> bits) d.content else d.content
    .ok { d with content := content, next := d.next + 1 }
  else if number < d.next then do
    let p ← pointer bits d.content number
    fcAssert (p = none) "Overwriting insert at {id}!"
    return d
  else do
    -- beyond `next`, allow small "holes"
    fcAssert (number ≤ d.next + maxHole) "Out-of-order insert: {id} > {next}!"
    let content :=
      if d.next &&& chunkMask bits = 0 ∨ chunkStart bits d.next ≠ chunkStart bits number then
        allocate bits (number >>> bits) d.content
      else d.content
    let content ← clearHole bits (number + 1 - d.next) d.next content
    return { d with content := content, next := number + 1 }

def objectInserted (d : DirectIndex) (number address : Nat) : Except Exception DirectIndex := do
  let d ← makePlace bits d number
  let content ← setPointer bits d.content number (some address)
  return { d with content := content }

def objectRemoved (d : DirectIndex) (number : Nat) : Except Exception DirectIndex := do
  fcAssert (number < d.next) "Removing out-of-range object: {id} > {next}!"
  let p ← pointer bits d.content number
  fcAssert (p ≠ none) "Removing non-existent object {id}!"
  let content ← setPointer bits d.content number none
  return { d with content := content }

def aboutToModify (d : DirectIndex) (before : Nat) : DirectIndex :=
  { d with idsBeingModified := before :: d.idsBeingModified }

def objectModified (d : DirectIndex) (after : Nat) : Except Exception DirectIndex :=
  match d.idsBeingModified with
  | [] => .error .undefined
  | top :: rest => do
    fcAssert (top = after) "Modification of ID is not supported!"
    return { d with idsBeingModified := rest }

def find (d : DirectIndex) (id : Nat) : Except Exception (Option Nat) :=
  if d.next ≤ id then .ok none else pointer bits d.content id

end DirectIndex

/-! ## The container -/

variable {V : Type} [UniqueKeys V]

/-- An object in the container; it stays at its address until it is removed. -/
structure Node (V : Type) where
  address : Nat
  value : V
  deriving DecidableEq

/-- The container of a `primary_index` and the id it hands out next.  `modifying` are the objects
whose `modify` has not returned, `reach` is one past the highest instance ever inserted. -/
structure Container (V : Type) where
  indices : Table Nat (Node V) := ∅
  nextId : Nat := 0
  modifying : List Nat := []
  reach : Nat := 0

/-- A `modify` begins and ends, with other calls between; an inserted object gets an address, and a
functor leaves an id and a value. -/
inductive IndexCall (V : Type) where
  | insert (number : Nat) (v : V) (address : Nat)
  | create (v : V) (address : Nat)
  | remove (number : Nat)
  | setNextId (next : Nat)
  | beginModify (number : Nat)
  | endModify (after : Nat) (v : V)

namespace Container

/-- Another object shares a unique key with `v`. -/
def Clashes (c : Container V) (number : Nat) (v : V) : Prop :=
  c.indices.Any fun i node => i ≠ number ∧ UniqueKeys.clash v node.value

instance (c : Container V) (i : Nat) (v : V) : Decidable (c.Clashes i v) :=
  inferInstanceAs (Decidable (c.indices.Any _))

def get (c : Container V) (number : Nat) : Except Exception (Node V) :=
  match c.indices.lookup number with
  | some node => .ok node
  | none => .error (.fc "Unable to find Object")

def insert (c : Container V) (number : Nat) (v : V) (address : Nat) :
    Except Exception (Container V) :=
  if c.indices.lookup number ≠ none ∨ c.Clashes number v then
    .error (.fc "Could not insert object, most likely a uniqueness constraint was violated")
  else .ok { c with
    indices := c.indices.insert number ⟨address, v⟩
    reach := max c.reach (number + 1) }

def create (c : Container V) (v : V) (address : Nat) : Except Exception (Container V) :=
  if c.indices.lookup c.nextId ≠ none ∨ c.Clashes c.nextId v then
    .error (.fc "Could not create object! Most likely a uniqueness constraint is violated.")
  else .ok { c with
    indices := c.indices.insert c.nextId ⟨address, v⟩
    nextId := c.nextId + 1
    reach := max c.reach (c.nextId + 1) }

def remove (c : Container V) (number : Nat) : Container V :=
  { c with indices := c.indices.erase number }

/-- The end of `generic_index::modify`; to remove the object in between is undefined. -/
def endModify (c : Container V) (after : Nat) (v : V) : Except Exception (Container V) :=
  match c.modifying with
  | [] => .error .undefined
  | before :: rest =>
    match c.indices.lookup before with
    | none => .error .undefined
    | some node =>
      if after ≠ before ∧ c.indices.lookup after ≠ none ∨
          (c.remove before).Clashes after v then
        .error (.fc "Could not modify object, most likely an index constraint was violated")
      else .ok { c with
        indices := (c.indices.erase before).insert after ⟨node.address, v⟩
        modifying := rest }

def step (c : Container V) : IndexCall V → Except Exception (Container V)
  | .insert i v address => c.insert i v address
  | .create v address => c.create v address
  | .remove i => do
    let _ ← c.get i
    return c.remove i
  | .setNextId next => .ok { c with nextId := next }
  | .beginModify i => do
    let _ ← c.get i
    return { c with modifying := i :: c.modifying }
  | .endModify after v => c.endModify after v

/-- Instances are consecutive or leave small holes, and no functor changes an id. -/
def Spaced (c : Container V) : IndexCall V → Prop
  | .insert i _ _ => i ≤ c.reach + maxHole
  | .create _ _ => c.nextId ≤ c.reach + maxHole
  | .endModify after _ => c.modifying.head? = some after
  | _ => True

instance (c : Container V) : DecidablePred c.Spaced
  | .insert .. => inferInstanceAs (Decidable (_ ≤ _))
  | .create .. => inferInstanceAs (Decidable (_ ≤ _))
  | .endModify .. => inferInstanceAs (Decidable (_ = _))
  | .remove _ => .isTrue trivial
  | .setNextId _ => .isTrue trivial
  | .beginModify _ => .isTrue trivial

end Container

structure PrimaryIndex (V : Type) where
  container : Container V := {}
  direct : DirectIndex := {}

/-- A call, with the notifications of the direct index where the code has them -/
def PrimaryIndex.step (bits : Nat) (s : PrimaryIndex V) :
    IndexCall V → Except Exception (PrimaryIndex V)
  | .insert i v address => do
    let c ← s.container.insert i v address
    let d ← s.direct.objectInserted bits i address
    return ⟨c, d⟩
  | .create v address => do
    let c ← s.container.create v address
    let d ← s.direct.objectInserted bits s.container.nextId address
    return ⟨c, d⟩
  | .remove i => do
    let _ ← s.container.get i
    let d ← s.direct.objectRemoved bits i
    return ⟨s.container.remove i, d⟩
  | .setNextId next => .ok { s with container := { s.container with nextId := next } }
  | .beginModify i => do
    let _ ← s.container.get i
    return ⟨{ s.container with modifying := i :: s.container.modifying }, s.direct.aboutToModify i⟩
  | .endModify after v => do
    let c ← s.container.endModify after v
    let d ← s.direct.objectModified after
    return ⟨c, d⟩

/-! ## What the vector holds -/

/-- The chunks reach just as far as `next`, and a place below `next` holds a pointer. -/
structure DirectIndex.Holds (bits : Nat) (d : DirectIndex) (f : Nat → Option Nat) : Prop where
  chunked : Chunked bits d.content
  le : d.next ≤ d.content.length * 2 ^ bits
  lt : d.content.length * 2 ^ bits < d.next + 2 ^ bits
  cells : ∀ i < d.next, cellAt bits d.content i = some (f i)

theorem shiftRight_eq_iff {bits i k : Nat} :
    i >>> bits = k ↔ k * 2 ^ bits ≤ i ∧ i < k * 2 ^ bits + 2 ^ bits := by
  rw [Nat.shiftRight_eq_div_pow, Nat.div_eq_iff (Nat.two_pow_pos bits)]
  have hpos := Nat.two_pow_pos bits
  omega

theorem shiftRight_lt {bits i k : Nat} (h : i < k * 2 ^ bits) : i >>> bits < k := by
  rw [Nat.shiftRight_eq_div_pow]
  exact Nat.div_lt_of_lt_mul (by rwa [Nat.mul_comm] at h)

namespace DirectIndex

variable {bits : Nat} {d : DirectIndex} {f : Nat → Option Nat}

theorem chunkStart_eq {k i : Nat} (hle : k * 2 ^ bits ≤ i) (hlt : i < k * 2 ^ bits + 2 ^ bits) :
    chunkStart bits i = k * 2 ^ bits := by
  have hdiv : i / 2 ^ bits = k := by
    rw [← Nat.shiftRight_eq_div_pow]
    exact shiftRight_eq_iff.mpr ⟨hle, hlt⟩
  have hmod := Nat.div_add_mod i (2 ^ bits)
  rw [hdiv, Nat.mul_comm] at hmod
  rw [chunkStart, Lib.and_chunkMask]
  omega

namespace Holds

theorem aligned_iff (h : Holds bits d f) :
    d.next &&& chunkMask bits = 0 ↔ d.next = d.content.length * 2 ^ bits := by
  have hle := h.le
  have hlt := h.lt
  rw [Lib.and_chunkMask]
  constructor
  · intro hmod
    obtain ⟨k, hk⟩ := Nat.dvd_of_mod_eq_zero hmod
    rw [Nat.mul_comm] at hk
    have hkl : k = d.content.length := by
      apply Nat.le_antisymm
      · exact Nat.le_of_mul_le_mul_right (hk ▸ hle) (Nat.two_pow_pos bits)
      · have hsucc : d.content.length * 2 ^ bits < (k + 1) * 2 ^ bits := by
          rw [Nat.succ_mul, ← hk]
          exact hlt
        exact Nat.le_of_lt_succ (Nat.lt_of_mul_lt_mul_right hsucc)
    rw [← hkl]
    exact hk
  · intro heq
    rw [heq]
    exact Nat.mul_mod_left ..

theorem congr {f' : Nat → Option Nat} (h : Holds bits d f) (hf : ∀ i < d.next, f i = f' i) :
    Holds bits d f' :=
  ⟨h.chunked, h.le, h.lt, fun i hi => by rw [h.cells i hi, hf i hi]⟩

theorem pointer_eq (h : Holds bits d f) {i : Nat} (hi : i < d.next) :
    pointer bits d.content i = .ok (f i) := by
  rw [pointer, h.cells i hi]

theorem find_eq (h : Holds bits d f) (i : Nat) :
    d.find bits i = .ok (if i < d.next then f i else none) := by
  unfold find
  by_cases hi : i < d.next
  · rw [if_neg (Nat.not_le.mpr hi), if_pos hi, h.pointer_eq hi]
  · rw [if_pos (Nat.not_lt.mp hi), if_neg hi]

theorem setPointer (h : Holds bits d f) {i : Nat} (hi : i < d.next) (p : Option Nat) :
    ∃ content, DirectIndex.setPointer bits d.content i p = .ok content ∧
      Holds bits { d with content := content } (Function.update f i p) := by
  obtain ⟨content, hset, hchunked, hlength⟩ :=
    h.chunked.setCell p (shiftRight_lt (Nat.lt_of_lt_of_le hi h.le))
  refine ⟨content, ?_, hchunked, ?_, ?_, ?_⟩
  · rw [DirectIndex.setPointer, hset]
  · show d.next ≤ content.length * 2 ^ bits
    rw [hlength]
    exact h.le
  · show content.length * 2 ^ bits < d.next + 2 ^ bits
    rw [hlength]
    exact h.lt
  · intro j hj
    rw [Lib.cellAt_setCell hset j, Function.update_apply]
    split
    · rfl
    · exact h.cells j hj

end Holds

/-! ## A place for an object -/

theorem clearHole_spec (count : Nat) : ∀ (next : Nat) (content : List (List (Option Nat))),
    Chunked bits content → next + count ≤ content.length * 2 ^ bits →
      ∃ content', clearHole bits count next content = .ok content' ∧ Chunked bits content' ∧
        content'.length = content.length ∧
        ∀ i, cellAt bits content' i =
          if next ≤ i ∧ i < next + count then some none else cellAt bits content i := by
  induction count with
  | zero =>
    intro next content hchunked _
    refine ⟨content, rfl, hchunked, rfl, fun i => ?_⟩
    rw [if_neg (by omega)]
  | succ count ih =>
    intro next content hchunked hle
    obtain ⟨first, hset, hchunked1, hlength1⟩ :=
      hchunked.setCell none (shiftRight_lt (show next < content.length * 2 ^ bits by omega))
    obtain ⟨content', hclear, hchunked', hlength', hcells⟩ :=
      ih (next + 1) first hchunked1 (by rw [hlength1]; omega)
    refine ⟨content', ?_, hchunked', hlength'.trans hlength1, fun i => ?_⟩
    · show (DirectIndex.setPointer bits content next none >>= clearHole bits count (next + 1)) = _
      rw [DirectIndex.setPointer, hset]
      exact hclear
    · rw [hcells i, Lib.cellAt_setCell hset i]
      by_cases hi : i = next
      · rw [if_neg (by omega), if_pos hi, if_pos (by omega)]
      · rw [if_neg hi]
        apply if_congr _ rfl rfl
        omega

theorem Holds.cellAt_concat (h : Holds bits d f) {i : Nat} (hi : i < d.next) :
    cellAt bits (d.content ++ [List.replicate (2 ^ bits) none]) i = some (f i) := by
  have hlt := shiftRight_lt (Nat.lt_of_lt_of_le hi h.le)
  rw [Lib.cellAt_concat, if_neg (Nat.ne_of_lt hlt), h.cells i hi]

theorem Holds.makePlace_next (h : Holds bits d f) :
    ∃ d', makePlace bits d d.next = .ok d' ∧ d'.next = d.next + 1 ∧
      d'.idsBeingModified = d.idsBeingModified ∧
      ∃ f', Holds bits d' f' ∧ ∀ i < d.next, f' i = f i := by
  have hpos := Nat.two_pow_pos bits
  have hle := h.le
  have hlt := h.lt
  unfold makePlace
  rw [if_pos rfl]
  refine ⟨_, rfl, rfl, rfl, ?_⟩
  by_cases haligned : d.next &&& chunkMask bits = 0
  · have hfull := h.aligned_iff.mp haligned
    have hk : d.content.length = d.next >>> bits := (shiftRight_eq_iff.mpr (by omega)).symm
    rw [if_pos haligned, allocate, Lib.addChunk_eq _ _ hk]
    refine ⟨fun i => if i < d.next then f i else none, ⟨h.chunked.concat none, ?_, ?_, ?_⟩, ?_⟩
    · rw [List.length_append, List.length_singleton, Nat.succ_mul]
      show d.next + 1 ≤ _
      omega
    · rw [List.length_append, List.length_singleton, Nat.succ_mul]
      show _ < d.next + 1 + 2 ^ bits
      omega
    · intro i hi
      by_cases hold : i < d.next
      · rw [h.cellAt_concat hold, if_pos hold]
      · have hi : i = d.next := by
          have hsucc : i < d.next + 1 := hi
          omega
        rw [Lib.cellAt_concat, hi, ← hk, if_pos rfl, if_neg (Nat.lt_irrefl _)]
    · intro i hi
      exact if_pos hi
  · have hroom : d.next < d.content.length * 2 ^ bits :=
      Nat.lt_of_le_of_ne hle fun heq => haligned (h.aligned_iff.mpr heq)
    rw [if_neg haligned]
    obtain ⟨p, hp⟩ := Option.isSome_iff_exists.mp
      (h.chunked.isSome_iff.mpr (shiftRight_lt hroom))
    refine ⟨fun i => if i < d.next then f i else p, ⟨h.chunked, hroom, ?_, ?_⟩, ?_⟩
    · show d.content.length * 2 ^ bits < d.next + 1 + 2 ^ bits
      omega
    · intro i hi
      by_cases hold : i < d.next
      · rw [if_pos hold]
        exact h.cells i hold
      · have hi : i = d.next := by
          have hsucc : i < d.next + 1 := hi
          omega
        rw [if_neg hold, hi]
        exact hp
    · intro i hi
      exact if_pos hi

theorem Holds.room (h : Holds bits d f) (hbits : maxHole < 2 ^ bits) {number : Nat}
    (hlt : d.next < number) (hle : number ≤ d.next + maxHole) :
    let content :=
      if d.next &&& chunkMask bits = 0 ∨ chunkStart bits d.next ≠ chunkStart bits number then
        allocate bits (number >>> bits) d.content
      else d.content
    Chunked bits content ∧ number + 1 ≤ content.length * 2 ^ bits ∧
      content.length * 2 ^ bits < number + 1 + 2 ^ bits ∧
      ∀ i < d.next, cellAt bits content i = some (f i) := by
  have hpos := Nat.two_pow_pos bits
  have hfrom := h.le
  have hto := h.lt
  intro content
  by_cases hnew : d.content.length * 2 ^ bits ≤ number
  · -- the instance is in the chunk that comes next
    have hk : d.content.length = number >>> bits := (shiftRight_eq_iff.mpr (by omega)).symm
    have hcond : d.next &&& chunkMask bits = 0 ∨
        chunkStart bits d.next ≠ chunkStart bits number := by
      rw [h.aligned_iff, chunkStart_eq hnew (by omega)]
      by_cases hfull : d.next = d.content.length * 2 ^ bits
      · exact .inl hfull
      · apply Or.inr
        have hstart : chunkStart bits d.next ≤ d.next := Nat.sub_le ..
        omega
    have hcontent : content = d.content ++ [List.replicate (2 ^ bits) none] := by
      rw [show content = allocate bits (number >>> bits) d.content from if_pos hcond, allocate,
        Lib.addChunk_eq _ _ hk]
    rw [hcontent, List.length_append, List.length_singleton, Nat.succ_mul]
    exact ⟨h.chunked.concat none, by omega, by omega, fun i hi => h.cellAt_concat hi⟩
  · -- it is in the last chunk, which is not full
    obtain ⟨k, hk⟩ : ∃ k, d.content.length = k + 1 := by
      apply Nat.exists_eq_succ_of_ne_zero
      intro hzero
      rw [hzero] at hnew
      omega
    have hlength : d.content.length * 2 ^ bits = k * 2 ^ bits + 2 ^ bits := by
      rw [hk, Nat.succ_mul]
    have hcond : ¬(d.next &&& chunkMask bits = 0 ∨
        chunkStart bits d.next ≠ chunkStart bits number) := by
      rw [h.aligned_iff, chunkStart_eq (k := k) (i := d.next) (by omega) (by omega),
        chunkStart_eq (k := k) (i := number) (by omega) (by omega)]
      rintro (hfull | hne)
      · omega
      · exact hne rfl
    rw [show content = d.content from if_neg hcond]
    exact ⟨h.chunked, by omega, by omega, h.cells⟩

theorem Holds.makePlace_hole (h : Holds bits d f) (hbits : maxHole < 2 ^ bits) {number : Nat}
    (hlt : d.next < number) (hle : number ≤ d.next + maxHole) :
    ∃ d', makePlace bits d number = .ok d' ∧ d'.next = number + 1 ∧
      d'.idsBeingModified = d.idsBeingModified ∧
      Holds bits d' fun i => if i < d.next then f i else none := by
  obtain ⟨hchunked, hroom, hfits, hcells⟩ := h.room hbits hlt hle
  obtain ⟨content, hclear, hchunked', hlength, hcells'⟩ :=
    clearHole_spec (number + 1 - d.next) d.next _ hchunked (by omega)
  refine ⟨{ d with content := content, next := number + 1 }, ?_, rfl, rfl, hchunked', ?_, ?_, ?_⟩
  · unfold makePlace
    rw [if_neg (Nat.ne_of_gt hlt), if_neg (Nat.not_lt.mpr (Nat.le_of_lt hlt)), fcAssert_bind_eq_ok]
    refine ⟨hle, ?_⟩
    dsimp only
    rw [hclear]
    rfl
  · show number + 1 ≤ content.length * 2 ^ bits
    rw [hlength]
    exact hroom
  · show content.length * 2 ^ bits < number + 1 + 2 ^ bits
    rw [hlength]
    exact hfits
  · intro i hi
    have hi : i < number + 1 := hi
    show cellAt bits content i = _
    rw [hcells' i]
    by_cases hold : i < d.next
    · rw [if_neg (by omega), if_pos hold, hcells i hold]
    · rw [if_pos (by omega), if_neg hold]

theorem Holds.objectInserted (h : Holds bits d f) (hbits : maxHole < 2 ^ bits) {number : Nat}
    (address : Nat) (hle : number ≤ d.next + maxHole) (hfree : number < d.next → f number = none) :
    ∃ d', objectInserted bits d number address = .ok d' ∧
      d'.next = max d.next (number + 1) ∧ d'.idsBeingModified = d.idsBeingModified ∧
      Holds bits d' (Function.update (fun i => if i < d.next then f i else none) number
        (some address)) := by
  -- whichever case it is, there is a place, and below `next` nothing has changed
  have hplace : ∃ d1, makePlace bits d number = .ok d1 ∧ d1.next = max d.next (number + 1) ∧
      d1.idsBeingModified = d.idsBeingModified ∧ ∃ f', Holds bits d1 f' ∧
        ∀ i < d1.next, i ≠ number → f' i = if i < d.next then f i else none := by
    rcases Nat.lt_trichotomy number d.next with hlt | heq | hgt
    · refine ⟨d, ?_, by omega, rfl, f, h, fun i hi _ => (if_pos hi).symm⟩
      unfold makePlace
      rw [if_neg (Nat.ne_of_lt hlt), if_pos hlt, h.pointer_eq hlt, hfree hlt]
      rfl
    · subst heq
      obtain ⟨d1, hmake, hnext, hids, f', hholds, hsame⟩ := h.makePlace_next
      refine ⟨d1, hmake, by omega, hids, f', hholds, fun i hi hne => ?_⟩
      rw [if_pos (by omega), hsame i (by omega)]
    · obtain ⟨d1, hmake, hnext, hids, hholds⟩ := h.makePlace_hole hbits hgt hle
      exact ⟨d1, hmake, by omega, hids, _, hholds, fun i _ _ => rfl⟩
  obtain ⟨d1, hmake, hnext, hids, f', hholds, hsame⟩ := hplace
  obtain ⟨content, hset, hholds'⟩ :=
    hholds.setPointer (show number < d1.next by omega) (some address)
  refine ⟨{ d1 with content := content }, ?_, hnext, hids, hholds'.chunked, hholds'.le, hholds'.lt,
    fun i hi => ?_⟩
  · unfold DirectIndex.objectInserted
    rw [hmake]
    show (DirectIndex.setPointer bits d1.content number (some address) >>= _) = _
    rw [hset]
    rfl
  · rw [hholds'.cells i hi, Function.update_apply, Function.update_apply]
    by_cases heq : i = number
    · rw [if_pos heq, if_pos heq]
    · rw [if_neg heq, if_neg heq, hsame i hi heq]

theorem Holds.objectRemoved (h : Holds bits d f) {number : Nat} (hlt : number < d.next)
    (hthere : f number ≠ none) :
    ∃ d', objectRemoved bits d number = .ok d' ∧ d'.next = d.next ∧
      d'.idsBeingModified = d.idsBeingModified ∧ Holds bits d' (Function.update f number none) := by
  obtain ⟨content, hset, hholds⟩ := h.setPointer hlt none
  refine ⟨{ d with content := content }, ?_, rfl, rfl, hholds⟩
  unfold DirectIndex.objectRemoved
  rw [fcAssert_bind_eq_ok, h.pointer_eq hlt]
  refine ⟨hlt, ?_⟩
  show (fcAssert (f number ≠ none) _ >>= _) = _
  rw [fcAssert_bind_eq_ok, hset]
  exact ⟨hthere, rfl⟩

end DirectIndex

/-! ## The direct index agrees with the container -/

def Container.addresses (c : Container V) (i : Nat) : Option Nat :=
  (c.indices.lookup i).map Node.address

structure Agrees (bits : Nat) (c : Container V) (d : DirectIndex) : Prop where
  holds : d.Holds bits c.addresses
  next : d.next = c.reach
  bounded : ∀ i node, c.indices.lookup i = some node → i < c.reach
  modifying : d.idsBeingModified = c.modifying

namespace Agrees

variable {bits : Nat} {c c' : Container V} {d : DirectIndex} {number : Nat}

section

omit [UniqueKeys V]

theorem start (bits : Nat) : Agrees bits ({} : Container V) {} where
  holds := {
    chunked := .nil bits
    le := Nat.zero_le _
    lt := by
      show [].length * 2 ^ bits < 0 + 2 ^ bits
      rw [List.length_nil, Nat.zero_mul, Nat.zero_add]
      exact Nat.two_pow_pos bits
    cells := fun i hi => absurd hi (Nat.not_lt_zero i) }
  next := rfl
  bounded i node h := by
    rw [show (({} : Container V).indices.lookup i) = none from Finmap.lookup_empty i] at h
    cases h
  modifying := rfl

theorem find_eq (h : Agrees bits c d) (i : Nat) : d.find bits i = .ok (c.addresses i) := by
  rw [h.holds.find_eq]
  split
  · rfl
  · rename_i hout
    cases hlookup : c.indices.lookup i with
    | none => rw [Container.addresses, hlookup]; rfl
    | some node => exact absurd (h.next ▸ h.bounded i node hlookup) hout

theorem inserted (h : Agrees bits c d) (hbits : maxHole < 2 ^ bits) (node : Node V)
    (hfree : c.indices.lookup number = none) (hle : number ≤ c.reach + maxHole)
    (hindices : c'.indices = c.indices.insert number node)
    (hreach : c'.reach = max c.reach (number + 1)) (hmodifying : c'.modifying = c.modifying) :
    ∃ d', d.objectInserted bits number node.address = .ok d' ∧ Agrees bits c' d' := by
  obtain ⟨d', hinserted, hnext, hids, hholds⟩ :=
    h.holds.objectInserted hbits node.address (h.next.symm ▸ hle)
      (fun _ => by rw [Container.addresses, hfree]; rfl)
  have hbounded : ∀ i node', c'.indices.lookup i = some node' → i < c'.reach := by
    intro i node' hlookup
    rw [hindices, Table.lookup_insert_eq] at hlookup
    rw [hreach]
    split at hlookup
    · omega
    · have hlt := h.bounded i node' hlookup
      omega
  refine ⟨d', hinserted, hholds.congr fun i _ => ?_, ?_, hbounded, ?_⟩
  · unfold Container.addresses
    rw [Function.update_apply, hindices, Table.lookup_insert_eq]
    by_cases heq : i = number
    · rw [if_pos heq, if_pos heq]
      rfl
    · rw [if_neg heq, if_neg heq]
      by_cases hold : i < d.next
      · rw [if_pos hold]
      · rw [if_neg hold]
        cases hlookup : c.indices.lookup i with
        | none => rfl
        | some node' => exact absurd (h.next ▸ h.bounded i node' hlookup) hold
  · rw [hnext, hreach, h.next]
  · rw [hids, hmodifying, h.modifying]

theorem removed (h : Agrees bits c d) {node : Node V}
    (hthere : c.indices.lookup number = some node) :
    ∃ d', d.objectRemoved bits number = .ok d' ∧ Agrees bits (c.remove number) d' := by
  have hlt : number < d.next := h.next.symm ▸ h.bounded number node hthere
  have haddress : c.addresses number = some node.address := by
    rw [Container.addresses, hthere]
    rfl
  obtain ⟨d', hremoved, hnext, hids, hholds⟩ :=
    h.holds.objectRemoved hlt (by rw [haddress]; exact Option.some_ne_none _)
  refine ⟨d', hremoved, hholds.congr fun i _ => ?_, hnext.trans h.next,
    fun i node' hlookup => ?_, hids.trans h.modifying⟩
  · unfold Container.addresses
    rw [Function.update_apply, Container.remove, Table.lookup_erase_eq]
    split
    · rfl
    · rfl
  · rw [Container.remove, Table.lookup_erase_eq] at hlookup
    split at hlookup
    · cases hlookup
    · exact h.bounded i node' hlookup

end

theorem modified (h : Agrees bits c d) {after : Nat} {v : V}
    (hsame : c.modifying.head? = some after) (hend : c.endModify after v = .ok c') :
    ∃ d', d.objectModified after = .ok d' ∧ Agrees bits c' d' := by
  cases hstack : c.modifying with
  | nil =>
    rw [hstack] at hsame
    cases hsame
  | cons before rest =>
    rw [hstack] at hsame
    obtain rfl : before = after := Option.some.inj hsame
    unfold Container.endModify at hend
    rw [hstack] at hend
    dsimp only at hend
    cases hlookup : c.indices.lookup before with
    | none =>
      rw [hlookup] at hend
      cases hend
    | some node =>
      rw [hlookup] at hend
      dsimp only at hend
      split at hend
      · cases hend
      · cases hend
        have hids : d.idsBeingModified = before :: rest := h.modifying.trans hstack
        have hentry : ∀ i, ((c.indices.erase before).insert before
            (⟨node.address, v⟩ : Node V)).lookup i =
              if i = before then some ⟨node.address, v⟩ else c.indices.lookup i := by
          intro i
          rw [Table.lookup_insert_eq, Table.lookup_erase_eq]
          split
          · rfl
          · rfl
        have hholds : DirectIndex.Holds bits { d with idsBeingModified := rest } c.addresses :=
          ⟨h.holds.chunked, h.holds.le, h.holds.lt, h.holds.cells⟩
        refine ⟨{ d with idsBeingModified := rest }, ?_, hholds.congr fun i _ => ?_, h.next,
          fun i node' hlookup' => ?_, rfl⟩
        · unfold DirectIndex.objectModified
          rw [hids]
          show (fcAssert (before = before) _ >>= _) = _
          rw [fcAssert_bind_eq_ok]
          exact ⟨rfl, rfl⟩
        · unfold Container.addresses
          rw [hentry]
          split
          · rename_i heq
            rw [heq, hlookup]
            rfl
          · rfl
        · dsimp only at hlookup'
          rw [hentry] at hlookup'
          split at hlookup'
          · rename_i heq
            rw [heq]
            exact h.bounded before node hlookup
          · exact h.bounded i node' hlookup'

end Agrees

/-! ## Calls -/

namespace Container

variable {c c' : Container V} {number address : Nat} {v : V}

theorem insert_eq_ok (h : c.insert number v address = .ok c') :
    c.indices.lookup number = none ∧ c' = { c with
      indices := c.indices.insert number ⟨address, v⟩
      reach := max c.reach (number + 1) } := by
  unfold insert at h
  split at h
  · cases h
  · rename_i hfits
    cases h
    exact ⟨not_not.mp (not_or.mp hfits).1, rfl⟩

theorem create_eq_ok (h : c.create v address = .ok c') :
    c.indices.lookup c.nextId = none ∧ c' = { c with
      indices := c.indices.insert c.nextId ⟨address, v⟩
      nextId := c.nextId + 1
      reach := max c.reach (c.nextId + 1) } := by
  unfold create at h
  split at h
  · cases h
  · rename_i hfits
    cases h
    exact ⟨not_not.mp (not_or.mp hfits).1, rfl⟩

omit [UniqueKeys V] in
theorem get_eq_ok {node : Node V} (h : c.get number = .ok node) :
    c.indices.lookup number = some node := by
  unfold get at h
  split at h
  · rename_i node' hlookup
    cases h
    exact hlookup
  · cases h

end Container

namespace PrimaryIndex

variable {bits : Nat} {s : PrimaryIndex V} {c c' : Container V}

def Refines (bits : Nat) (c : Container V) (s : PrimaryIndex V) : Prop :=
  s.container = c ∧ Agrees bits c s.direct

theorem step_refines (hbits : maxHole < 2 ^ bits) {call : IndexCall V} (h : Refines bits c s)
    (hspaced : c.Spaced call) (hstep : c.step call = .ok c') :
    ∃ s', s.step bits call = .ok s' ∧ Refines bits c' s' := by
  obtain ⟨rfl, hagrees⟩ := h
  cases call with
  | insert number v address =>
    obtain ⟨hfree, hc'⟩ := Container.insert_eq_ok hstep
    obtain ⟨d, hinserted, hagrees'⟩ :=
      hagrees.inserted hbits ⟨address, v⟩ hfree hspaced (congrArg Container.indices hc')
        (congrArg Container.reach hc') (by rw [hc'])
    refine ⟨⟨c', d⟩, ?_, rfl, hagrees'⟩
    show (s.container.insert number v address >>= _) = _
    rw [show s.container.insert number v address = _ from hstep]
    show (s.direct.objectInserted bits number address >>= _) = _
    rw [hinserted]
    rfl
  | create v address =>
    obtain ⟨hfree, hc'⟩ := Container.create_eq_ok hstep
    obtain ⟨d, hinserted, hagrees'⟩ :=
      hagrees.inserted hbits ⟨address, v⟩ hfree hspaced (congrArg Container.indices hc')
        (congrArg Container.reach hc') (by rw [hc'])
    refine ⟨⟨c', d⟩, ?_, rfl, hagrees'⟩
    show (s.container.create v address >>= _) = _
    rw [show s.container.create v address = _ from hstep]
    show (s.direct.objectInserted bits s.container.nextId address >>= _) = _
    rw [hinserted]
    rfl
  | remove number =>
    obtain ⟨node, hget, hc'⟩ := Lib.of_bind hstep
    cases hc'
    obtain ⟨d, hremoved, hagrees'⟩ := hagrees.removed (Container.get_eq_ok hget)
    refine ⟨⟨_, d⟩, ?_, rfl, hagrees'⟩
    show (s.container.get number >>= _) = _
    rw [hget]
    show (s.direct.objectRemoved bits number >>= _) = _
    rw [hremoved]
    rfl
  | setNextId next =>
    cases hstep
    exact ⟨_, rfl, rfl, ⟨hagrees.holds, hagrees.next, hagrees.bounded, hagrees.modifying⟩⟩
  | beginModify number =>
    obtain ⟨node, hget, hc'⟩ := Lib.of_bind hstep
    cases hc'
    refine ⟨⟨_, s.direct.aboutToModify number⟩, ?_, rfl,
      ⟨hagrees.holds.chunked, hagrees.holds.le, hagrees.holds.lt, hagrees.holds.cells⟩,
      hagrees.next, hagrees.bounded, ?_⟩
    · show (s.container.get number >>= _) = _
      rw [hget]
      rfl
    · exact congrArg (number :: ·) hagrees.modifying
  | endModify after v =>
    obtain ⟨d, hmodified, hagrees'⟩ := hagrees.modified hspaced hstep
    refine ⟨⟨c', d⟩, ?_, rfl, hagrees'⟩
    show (s.container.endModify after v >>= _) = _
    rw [show s.container.endModify after v = _ from hstep]
    show (s.direct.objectModified after >>= _) = _
    rw [hmodified]
    rfl

end PrimaryIndex

/-- Calls that the container lets happen return, and afterwards `find` returns the object of an
instance if there is one and null otherwise. -/
theorem directIndex_agrees (bits : Nat) (hbits : maxHole < 2 ^ bits) (calls : List (IndexCall V))
    (c : Container V) (hspaced : Lib.StepsMeet Container.step Container.Spaced {} calls)
    (hrun : Lib.run Container.step {} calls = .ok c) :
    ∃ s : PrimaryIndex V, Lib.run (PrimaryIndex.step bits) {} calls = .ok s ∧ s.container = c ∧
      ∀ id, s.direct.find bits id = .ok ((c.indices.lookup id).map Node.address) := by
  have hstep : ∀ (c : Container V) (s : PrimaryIndex V) (call : IndexCall V) (c' : Container V),
      PrimaryIndex.Refines bits c s → c.Spaced call → c.step call = .ok c' →
        ∃ s', s.step bits call = .ok s' ∧ PrimaryIndex.Refines bits c' s' :=
    fun _ _ _ _ => PrimaryIndex.step_refines hbits
  have hstart : PrimaryIndex.Refines bits {} ({} : PrimaryIndex V) := ⟨rfl, .start bits⟩
  obtain ⟨s, hs, hcontainer, hagrees⟩ := Lib.run_simulates hstep hstart hspaced hrun
  exact ⟨s, hs, hcontainer, hagrees.find_eq⟩

/-- `account_object`, of which there is only the unique key `by_name` -/
structure NamedAccount where
  name : Nat
  deriving DecidableEq

instance : UniqueKeys NamedAccount where
  clash v w := v = w
  symm _ _ := Eq.symm
  decidable _ _ := inferInstanceAs (Decidable (_ = _))

/-- Two holes, one as large as it may be, a nested modification, and an undo -/
def holeCalls : List (IndexCall NamedAccount) :=
  [.insert 1 ⟨1⟩ 10, .insert 102 ⟨102⟩ 11, .create ⟨0⟩ 12, .insert 50 ⟨50⟩ 13,
    .beginModify 0, .beginModify 50, .endModify 50 ⟨51⟩, .endModify 0 ⟨2⟩,
    .remove 1, .remove 0, .setNextId 0, .insert 1 ⟨1⟩ 14, .create ⟨3⟩ 15]

theorem directIndex_agrees_holes : ∃ s : PrimaryIndex NamedAccount,
    Lib.run (PrimaryIndex.step 8) {} holeCalls = .ok s ∧ s.direct.find 8 1 = .ok (some 14) ∧
      s.direct.find 8 2 = .ok none := by
  have hrun : Lib.Succeeds (Lib.run Container.step {} holeCalls) fun c =>
      (c.indices.lookup 1).map Node.address = some 14 ∧
        (c.indices.lookup 2).map Node.address = none := by decide +kernel
  obtain ⟨c, hc, hone, htwo⟩ := hrun
  obtain ⟨s, hs, -, hfind⟩ :=
    directIndex_agrees 8 (by decide) holeCalls c (by decide +kernel) hc
  exact ⟨s, hs, by rw [hfind, hone], by rw [hfind, htwo]⟩

end Meta1Core.Db
