import Meta1Core.Blocks.ForkDatabase
import Meta1Core.Lib.SparseFile

/-!
# The block database (`block_database.cpp`)

Blocks are appended to one file.  Another file has an entry for each block number, with the
position, the size and the id of the block.
-/

namespace Meta1Core.Blocks

open Lib (slice writeAt)

/-- `fc::raw` for blocks: what is packed is unpacked again, and fits a size of 32 bits. -/
structure BlockFormat (Id Block : Type) extends BlockIds Id Block where
  pack : Block → List UInt8
  unpack : List UInt8 → Option Block
  unpack_pack : ∀ b, unpack (pack b) = some b
  unpack_nil : unpack [] = none
  length_pack_lt : ∀ b, (pack b).length < 2 ^ 32

structure IndexEntry (Id : Type) where
  blockPos : Nat
  blockSize : Nat
  blockId : Id
  deriving DecidableEq

/-- `block_database`: the entries of the index file, and the bytes of the block file -/
structure BlockFiles (Id : Type) where
  index : List (IndexEntry Id) := []
  blocks : List UInt8 := []

variable {Id Block : Type} [DecidableEq Id]

namespace BlockFiles

variable (F : BlockFormat Id Block)

/-- An entry of zeros, which the index file has where nothing has been written -/
def gap : IndexEntry Id := ⟨0, 0, F.zero⟩

def store (id : Id) (b : Block) (s : BlockFiles Id) : BlockFiles Id :=
  let id := if id = F.zero then F.id b else id
  let vec := F.pack b
  { index := writeAt (gap F) (F.numFromId id) ⟨s.blocks.length, vec.length % 2 ^ 32, id⟩ s.index
    blocks := s.blocks ++ vec }

def remove (id : Id) (s : BlockFiles Id) : Except Exception (BlockFiles Id) :=
  match s.index[F.numFromId id]? with
  | none => .error (.fc "Block ${id} not contained in block database")
  | some e =>
    if e.blockId = id then
      .ok { s with index := writeAt (gap F) (F.numFromId id) { e with blockSize := 0 } s.index }
    else .ok s

def contains (id : Id) (s : BlockFiles Id) : Bool :=
  if id = F.zero then false
  else
    match s.index[F.numFromId id]? with
    | none => false
    | some e => e.blockId = id ∧ 0 < e.blockSize

def fetchBlockId (blockNum : Nat) (s : BlockFiles Id) : Except Exception Id := do
  cAssert (blockNum ≠ 0) "block_num != 0"
  match s.index[blockNum]? with
  | none => .error (.fc "Block number ${block_num} not contained in block database")
  | some e =>
    fcAssert (e.blockId ≠ F.zero) "Empty block_id in block_database (maybe corrupt on disk?)"
    return e.blockId

/-- Reading from the block file throws behind its end. -/
def readBytes (e : IndexEntry Id) (s : BlockFiles Id) : Option (List UInt8) :=
  if e.blockSize = 0 ∨ e.blockPos + e.blockSize ≤ s.blocks.length then
    some (slice e.blockPos e.blockSize s.blocks)
  else none

/-- The block of an entry; all exceptions are caught. -/
def readBlock (e : IndexEntry Id) (s : BlockFiles Id) : Option Block := do
  let data ← s.readBytes e
  let result ← F.unpack data
  if F.id result = e.blockId then some result else none

def fetchOptional (id : Id) (s : BlockFiles Id) : Option Block := do
  let e ← s.index[F.numFromId id]?
  if e.blockId ≠ id then none else s.readBlock F e

def fetchByNumber (blockNum : Nat) (s : BlockFiles Id) : Option Block := do
  let e ← s.index[blockNum]?
  s.readBlock F e

/-- The loop of `last_index_entry`: an entry without a block is cut off, with all that follow it. -/
def lastIndexEntryLoop (s : BlockFiles Id) :
    (pos : Nat) → Option (IndexEntry Id) × BlockFiles Id
  | 0 => (none, s)
  | pos + 1 =>
    match s.index[pos]? with
    | none => (none, s)
    | some e =>
      if 0 < e.blockSize ∧ e.blockPos + e.blockSize ≤ s.blocks.length ∧
          (s.readBlock F e).isSome then (some e, s)
      else lastIndexEntryLoop { s with index := s.index.take pos } pos

def lastIndexEntry (s : BlockFiles Id) : Option (IndexEntry Id) × BlockFiles Id :=
  s.lastIndexEntryLoop F s.index.length

def last (s : BlockFiles Id) : Option Block × BlockFiles Id :=
  match s.lastIndexEntry F with
  | (some e, s) => (s.fetchByNumber F (F.numFromId e.blockId), s)
  | (none, s) => (none, s)

def lastId (s : BlockFiles Id) : Option Id × BlockFiles Id :=
  match s.lastIndexEntry F with
  | (some e, s) => (some e.blockId, s)
  | (none, s) => (none, s)

end BlockFiles

/-- The calls that change the files; `last` stands for `last_id` as well. -/
inductive StoreCall (Id Block : Type) where
  | store (id : Id) (b : Block)
  | remove (id : Id)
  | last

/-- A block is stored under its own id, or under none. -/
def StoreCall.Proper (F : BlockFormat Id Block) : StoreCall Id Block → Prop
  | .store id b => id = F.id b ∨ id = F.zero
  | .remove _ => True
  | .last => True

def BlockFiles.after (F : BlockFormat Id Block) (s : BlockFiles Id) :
    StoreCall Id Block → BlockFiles Id
  | .store id b => s.store F id b
  | .remove id =>
    match s.remove F id with
    | .ok s' => s'
    | .error _ => s
  | .last => (s.last F).2

def filesAfter (F : BlockFormat Id Block) (calls : List (StoreCall Id Block)) : BlockFiles Id :=
  calls.foldl (BlockFiles.after F) {}

end Meta1Core.Blocks
