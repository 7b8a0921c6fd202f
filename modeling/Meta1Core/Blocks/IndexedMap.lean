import Mathlib.Data.List.Induction
import Mathlib.Logic.Function.Basic
import Meta1Core.Blocks.IndexFile
import Meta1Core.Blocks.Reindex

/-!
# The block database as a map from numbers to blocks

After any calls the block database answers as a map would that holds the latest block stored under
each number and not removed.
-/

namespace Meta1Core.Blocks

open Lib (slice writeAt)

variable {Id Block : Type}

/-- What the calls have stored and not removed, and the numbers that a removed block has left its id at -/
structure History (Block : Type) where
  present : Nat → Option Block := fun _ => none
  leftover : Nat → Prop := fun _ => False

def History.Has (P : BlockIds Id Block) (h : History Block) (id : Id) : Prop :=
  ∃ b, h.present (P.numFromId id) = some b ∧ P.id b = id

open Classical in
noncomputable def History.after (P : BlockIds Id Block) (h : History Block) :
    StoreCall Id Block → History Block
  | .store _ b =>
    let n := P.numFromId (P.id b)
    ⟨Function.update h.present n (some b), fun i => i ≠ n ∧ h.leftover i⟩
  | .remove id =>
    let n := P.numFromId id
    if h.Has P id then ⟨Function.update h.present n none, fun i => i = n ∨ h.leftover i⟩ else h
  | .last => { h with leftover := fun i => h.leftover i ∧ ∃ j, i < j ∧ (h.present j).isSome }

noncomputable def historyAfter (P : BlockIds Id Block) (calls : List (StoreCall Id Block)) :
    History Block := calls.foldl (History.after P) {}

def IsLast (present : Nat → Option Block) : Option Block → Prop
  | none => ∀ n, present n = none
  | some b => ∃ n, present n = some b ∧ ∀ j, n < j → present j = none

variable {P : BlockIds Id Block} {id : Id} {n : Nat}

theorem leftover_of_remove {h : History Block} (hleft : (h.after P (.remove id)).leftover n) :
    n = P.numFromId id ∨ h.leftover n := by
  by_cases hhas : h.Has P id
  · rw [History.after, if_pos hhas] at hleft
    exact hleft
  · rw [History.after, if_neg hhas] at hleft
    exact Or.inr hleft

theorem ne_zero_of_leftover {calls : List (StoreCall Id Block)}
    (h : (historyAfter P calls).leftover n) : n ≠ 0 := by
  induction calls using List.reverseRecOn with
  | nil => exact h.elim
  | append_singleton calls c ih =>
    unfold historyAfter at ih h
    rw [List.foldl_append] at h
    cases c with
    | store id b => exact ih h.2
    | last => exact ih h.1
    | remove id =>
      simp only [List.foldl_cons, List.foldl_nil, History.after] at h
      split at h
      · rename_i hhas
        rcases h with rfl | hleft
        · obtain ⟨b, -, rfl⟩ := hhas
          rw [P.num_id]
          exact Nat.succ_ne_zero _
        · exact ih hleft
      · exact ih h

/-! ## The files hold the map -/

variable {F : BlockFormat Id Block}

structure EntryOf (F : BlockFormat Id Block) (blocks : List UInt8) (e : IndexEntry Id) (b : Block) :
    Prop where
  id : e.blockId = F.id b
  size : e.blockSize = (F.pack b).length
  within : e.blockPos + e.blockSize ≤ blocks.length
  bytes : slice e.blockPos e.blockSize blocks = F.pack b

structure Holds (F : BlockFormat Id Block) (s : BlockFiles Id) (h : History Block) : Prop where
  present : ∀ n b, h.present n = some b →
    F.numFromId (F.id b) = n ∧ ∃ e, s.index[n]? = some e ∧ EntryOf F s.blocks e b
  absent : ∀ n e, h.present n = none → s.index[n]? = some e →
    e.blockSize = 0 ∧ (e.blockId ≠ F.zero ↔ h.leftover n)
  leftover : ∀ n, h.leftover n → h.present n = none ∧ n < s.index.length

theorem BlockFormat.id_ne_zero (F : BlockFormat Id Block) (b : Block) : F.id b ≠ F.zero := by
  intro heq
  have hnum := F.num_id b
  rw [heq, F.num_zero] at hnum
  omega

theorem BlockFormat.length_pack_pos (F : BlockFormat Id Block) (b : Block) :
    0 < (F.pack b).length := by
  apply List.length_pos_iff.mpr
  intro hnil
  have hunpack := F.unpack_pack b
  rw [hnil, F.unpack_nil] at hunpack
  cases hunpack

variable {e : IndexEntry Id}

variable {b : Block} {blocks : List UInt8}

theorem EntryOf.append (h : EntryOf F blocks e b) (more : List UInt8) :
    EntryOf F (blocks ++ more) e b where
  id := h.id
  size := h.size
  within := by
    have := h.within
    rw [List.length_append]
    omega
  bytes := by rw [Lib.slice_append h.within, h.bytes]

theorem EntryOf.size_pos (h : EntryOf F blocks e b) : 0 < e.blockSize := by
  rw [h.size]
  exact F.length_pack_pos b

theorem Holds.has_of_entry {s : BlockFiles Id} {h : History Block} (hs : Holds F s h)
    (he : s.index[F.numFromId id]? = some e) (hid : e.blockId = id) (hsize : e.blockSize ≠ 0) :
    h.Has F.toBlockIds id := by
  cases hpresent : h.present (F.numFromId id) with
  | none => exact absurd (hs.absent _ e hpresent he).1 hsize
  | some b =>
    obtain ⟨-, e', he', hentry⟩ := hs.present _ b hpresent
    rw [he] at he'
    cases he'
    exact ⟨b, hpresent, hentry.id.symm.trans hid⟩

theorem Holds.entry_of_has {s : BlockFiles Id} {h : History Block} (hs : Holds F s h)
    (hhas : h.Has F.toBlockIds id) :
    ∃ e, s.index[F.numFromId id]? = some e ∧ e.blockId = id ∧ 0 < e.blockSize := by
  obtain ⟨b, hb, hid⟩ := hhas
  obtain ⟨-, e, he, hentry⟩ := hs.present _ b hb
  exact ⟨e, he, hentry.id.trans hid, hentry.size_pos⟩

theorem Holds.truncate {s : BlockFiles Id} {h : History Block} (hs : Holds F s h)
    (hb : h.present n = some b) (hlast : ∀ j, n < j → h.present j = none) :
    Holds F { s with index := s.index.take (n + 1) } (h.after F.toBlockIds .last) := by
  constructor
  · intro i b' hb'
    have hb' : h.present i = some b' := hb'
    obtain ⟨hnum, e, he, hentry⟩ := hs.present i b' hb'
    refine ⟨hnum, e, Lib.getElem?_take_eq_some.mpr ⟨he, ?_⟩, hentry⟩
    by_contra hlt
    rw [hlast i (by omega)] at hb'
    cases hb'
  · intro i e hnone he
    obtain ⟨he, hlt⟩ := Lib.getElem?_take_eq_some.mp he
    obtain ⟨hsize, hiff⟩ := hs.absent i e hnone he
    have hne : i ≠ n := fun heq => by
      rw [heq] at hnone
      rw [show h.present n = none from hnone] at hb
      cases hb
    refine ⟨hsize, hiff.trans ⟨fun hleft => ⟨hleft, n, by omega, ?_⟩, fun hleft => hleft.1⟩⟩
    rw [hb]
    rfl
  · intro i hleft
    obtain ⟨hleft, j, hij, hj⟩ := hleft
    obtain ⟨hnone, hlt⟩ := hs.leftover i hleft
    have hjn : j ≤ n := by
      by_contra hlt
      rw [hlast j (by omega)] at hj
      cases hj
    refine ⟨hnone, ?_⟩
    rw [List.length_take]
    omega

variable [DecidableEq Id]

theorem EntryOf.readBlock {s : BlockFiles Id} (h : EntryOf F s.blocks e b) :
    s.readBlock F e = some b := by
  unfold BlockFiles.readBlock BlockFiles.readBytes
  rw [if_pos (Or.inr h.within), h.bytes]
  simp [F.unpack_pack, h.id]

theorem readBlock_of_size_eq_zero {s : BlockFiles Id} (h : e.blockSize = 0) :
    s.readBlock F e = none := by
  unfold BlockFiles.readBlock BlockFiles.readBytes
  rw [if_pos (Or.inl h), h, Lib.slice_zero]
  simp [F.unpack_nil]

namespace Holds

variable {s : BlockFiles Id} {h : History Block} (hs : Holds F s h)

include hs

variable {id : Id} {b : Block}

theorem store (hid : id = F.id b ∨ id = F.zero) :
    Holds F (s.store F id b) (h.after F.toBlockIds (.store id b)) := by
  have hown : (if id = F.zero then F.id b else id) = F.id b := by
    split
    · rfl
    · exact hid.resolve_right ‹_›
  unfold BlockFiles.store
  rw [hown]
  constructor
  · intro n b' hb'
    simp only [History.after] at hb'
    rw [Lib.getElem?_writeAt]
    by_cases hn : n = F.numFromId (F.id b)
    · subst hn
      rw [Function.update_self, Option.some.injEq] at hb'
      subst hb'
      refine ⟨rfl, _, if_pos rfl, rfl, ?_, ?_, ?_⟩
      · exact Nat.mod_eq_of_lt (F.length_pack_lt b)
      · simp only [List.length_append]
        exact Nat.add_le_add_left (Nat.mod_le _ _) _
      · simp only
        rw [Nat.mod_eq_of_lt (F.length_pack_lt b), Lib.slice_end]
    · rw [Function.update_of_ne hn] at hb'
      obtain ⟨hnum, e, he, hentry⟩ := hs.present n b' hb'
      obtain ⟨hlt, -⟩ := List.getElem?_eq_some_iff.mp he
      rw [if_neg hn, if_pos hlt]
      exact ⟨hnum, e, he, hentry.append _⟩
  · intro n e hnone he
    simp only [History.after] at hnone
    rw [Lib.getElem?_writeAt] at he
    by_cases hn : n = F.numFromId (F.id b)
    · rw [hn, Function.update_self] at hnone
      cases hnone
    · rw [Function.update_of_ne hn] at hnone
      rw [if_neg hn] at he
      by_cases hlt : n < s.index.length
      · rw [if_pos hlt] at he
        obtain ⟨hsize, hiff⟩ := hs.absent n e hnone he
        exact ⟨hsize, hiff.trans (and_iff_right hn).symm⟩
      · rw [if_neg hlt] at he
        split at he
        · cases he
          refine ⟨rfl, fun hne => absurd rfl hne, fun hleft => ?_⟩
          exact absurd (hs.leftover n hleft.2).2 hlt
        · cases he
  · intro n hleft
    obtain ⟨hn, hleft⟩ := hleft
    obtain ⟨hnone, hlt⟩ := hs.leftover n hleft
    refine ⟨(Function.update_of_ne hn _ _).trans hnone, ?_⟩
    rw [Lib.length_writeAt]
    omega

theorem remove_present (hhas : h.Has F.toBlockIds id) :
    Holds F (s.after F (.remove id)) (h.after F.toBlockIds (.remove id)) := by
  obtain ⟨e, he, hid, -⟩ := hs.entry_of_has hhas
  obtain ⟨hlt, -⟩ := List.getElem?_eq_some_iff.mp he
  have hafter : s.after F (.remove id) = { s with
      index := writeAt (BlockFiles.gap F) (F.numFromId id) { e with blockSize := 0 } s.index } := by
    simp only [BlockFiles.after, BlockFiles.remove, he, if_pos hid]
  rw [hafter, History.after, if_pos hhas]
  have hne : id ≠ F.zero := by
    obtain ⟨b, -, rfl⟩ := hhas
    exact F.id_ne_zero b
  constructor
  · intro n b hb
    simp only at hb
    by_cases hn : n = F.numFromId id
    · rw [hn, Function.update_self] at hb
      cases hb
    · rw [Function.update_of_ne hn] at hb
      obtain ⟨hnum, e', he', hentry⟩ := hs.present n b hb
      refine ⟨hnum, e', ?_, hentry⟩
      rw [Lib.getElem?_writeAt, if_neg hn, if_pos (List.getElem?_eq_some_iff.mp he').1, he']
  · intro n e' hnone he'
    simp only at hnone
    rw [Lib.getElem?_writeAt] at he'
    by_cases hn : n = F.numFromId id
    · rw [if_pos hn] at he'
      cases he'
      exact ⟨rfl, fun _ => Or.inl hn, fun _ => by rw [hid]; exact hne⟩
    · rw [Function.update_of_ne hn] at hnone
      rw [if_neg hn] at he'
      by_cases hlt' : n < s.index.length
      · rw [if_pos hlt'] at he'
        obtain ⟨hsize, hiff⟩ := hs.absent n e' hnone he'
        exact ⟨hsize, hiff.trans (or_iff_right hn).symm⟩
      · rw [if_neg hlt', if_neg (by omega)] at he'
        cases he'
  · intro n hleft
    have hlen : (writeAt (BlockFiles.gap F) (F.numFromId id) { e with blockSize := 0 }
        s.index).length = s.index.length := by
      rw [Lib.length_writeAt]
      omega
    simp only [hlen]
    rcases hleft with rfl | hleft
    · exact ⟨Function.update_self _ _ _, hlt⟩
    · obtain ⟨hnone, hlt'⟩ := hs.leftover n hleft
      refine ⟨?_, hlt'⟩
      by_cases hn : n = F.numFromId id
      · rw [hn]
        exact Function.update_self _ _ _
      · exact (Function.update_of_ne hn _ _).trans hnone

theorem remove_absent (hnot : ¬h.Has F.toBlockIds id) :
    s.after F (.remove id) = s ∧ h.after F.toBlockIds (.remove id) = h := by
  refine ⟨?_, if_neg hnot⟩
  cases he : s.index[F.numFromId id]? with
  | none => simp only [BlockFiles.after, BlockFiles.remove, he]
  | some e =>
    by_cases hid : e.blockId = id
    · have hsize : e.blockSize = 0 := by
        by_contra hsize
        exact hnot (hs.has_of_entry he hid hsize)
      have hsame : { e with blockSize := 0 } = e := by
        rw [← hsize]
      simp only [BlockFiles.after, BlockFiles.remove, he, if_pos hid, hsame, Lib.writeAt_self he]
    · simp only [BlockFiles.after, BlockFiles.remove, he, if_neg hid]

theorem remove (id : Id) : Holds F (s.after F (.remove id)) (h.after F.toBlockIds (.remove id)) := by
  by_cases hhas : h.Has F.toBlockIds id
  · exact hs.remove_present hhas
  · obtain ⟨hfiles, hhistory⟩ := hs.remove_absent hhas
    rw [hfiles, hhistory]
    exact hs

theorem contains_iff (id : Id) : s.contains F id = true ↔ h.Has F.toBlockIds id := by
  unfold BlockFiles.contains
  by_cases hzero : id = F.zero
  · rw [if_pos hzero]
    constructor
    · exact fun hfalse => absurd hfalse Bool.false_ne_true
    · rintro ⟨b, -, hid⟩
      exact absurd (hid.trans hzero) (F.id_ne_zero b)
  · rw [if_neg hzero]
    constructor
    · intro hcontains
      cases he : s.index[F.numFromId id]? with
      | none =>
        rw [he] at hcontains
        cases hcontains
      | some e =>
        rw [he] at hcontains
        obtain ⟨hid, hsize⟩ := of_decide_eq_true hcontains
        exact hs.has_of_entry he hid (by omega)
    · intro hhas
      obtain ⟨e, he, hid, hsize⟩ := hs.entry_of_has hhas
      rw [he]
      exact decide_eq_true ⟨hid, hsize⟩

theorem fetchByNumber_eq (n : Nat) : s.fetchByNumber F n = h.present n := by
  unfold BlockFiles.fetchByNumber
  cases hpresent : h.present n with
  | some b =>
    obtain ⟨-, e, he, hentry⟩ := hs.present n b hpresent
    rw [he]
    exact hentry.readBlock
  | none =>
    cases he : s.index[n]? with
    | none => rfl
    | some e => exact readBlock_of_size_eq_zero (hs.absent n e hpresent he).1

variable {n : Nat}

theorem id_of_readBlock {e : IndexEntry Id} (he : s.index[n]? = some e)
    (hread : s.readBlock F e = some b) : F.id b = e.blockId := by
  cases hpresent : h.present n with
  | none =>
    rw [readBlock_of_size_eq_zero (hs.absent n e hpresent he).1] at hread
    cases hread
  | some b' =>
    obtain ⟨-, e', he', hentry⟩ := hs.present n b' hpresent
    rw [he] at he'
    cases he'
    rw [hentry.readBlock] at hread
    cases hread
    exact hentry.id.symm

theorem fetchOptional_iff (id : Id) (b : Block) :
    s.fetchOptional F id = some b ↔ h.present (F.numFromId id) = some b ∧ F.id b = id := by
  rw [← hs.fetchByNumber_eq]
  unfold BlockFiles.fetchOptional BlockFiles.fetchByNumber
  cases he : s.index[F.numFromId id]? with
  | none => simp
  | some e =>
    show (if e.blockId ≠ id then none else s.readBlock F e) = some b ↔ s.readBlock F e = some b ∧ _
    by_cases hid : e.blockId = id
    · rw [if_neg (not_not.mpr hid)]
      refine ⟨fun hread => ⟨hread, ?_⟩, fun hand => hand.1⟩
      rw [← hid]
      exact hs.id_of_readBlock he hread
    · rw [if_pos hid]
      constructor
      · exact fun hfalse => nomatch hfalse
      · intro hand
        exact absurd ((hs.id_of_readBlock he hand.1).symm.trans hand.2) hid

theorem fetchBlockId_present (hn : n ≠ 0) (hb : h.present n = some b) :
    s.fetchBlockId F n = .ok (F.id b) := by
  obtain ⟨-, e, he, hentry⟩ := hs.present n b hb
  have hne : e.blockId ≠ F.zero := by
    rw [hentry.id]
    exact F.id_ne_zero b
  unfold BlockFiles.fetchBlockId
  rw [cAssert_bind_eq_ok, he]
  refine ⟨hn, fcAssert_bind_eq_ok.mpr ⟨hne, ?_⟩⟩
  rw [hentry.id]
  rfl

theorem fetchBlockId_absent (hn : n ≠ 0) (hnone : h.present n = none) :
    (∃ id, s.fetchBlockId F n = .ok id) ↔ h.leftover n := by
  unfold BlockFiles.fetchBlockId
  simp only [cAssert_bind_eq_ok, and_iff_right hn]
  cases he : s.index[n]? with
  | none =>
    constructor
    · rintro ⟨id, hid⟩
      cases hid
    · intro hleft
      have hlt := (hs.leftover n hleft).2
      rw [List.getElem?_eq_none_iff] at he
      omega
  | some e =>
    rw [← (hs.absent n e hnone he).2]
    constructor
    · rintro ⟨id, hid⟩
      exact (of_fcAssert hid).1
    · exact fun hne => ⟨e.blockId, fcAssert_bind_eq_ok.mpr ⟨hne, rfl⟩⟩

end Holds

/-- The search for the last block stops at the highest number that is present, and cuts off what follows;
the induction is over the entries that are left. -/
theorem lastIndexEntryLoop_spec {present : Nat → Option Block} : ∀ (pos : Nat) (s : BlockFiles Id),
    s.index.length = pos →
    (∀ n b, present n = some b → ∃ e, s.index[n]? = some e ∧ EntryOf F s.blocks e b) →
    (∀ n e, present n = none → s.index[n]? = some e → e.blockSize = 0) →
      ((∀ n, present n = none) ∧ s.lastIndexEntryLoop F pos = (none, { s with index := [] })) ∨
      ∃ n b e, present n = some b ∧ (∀ j, n < j → present j = none) ∧ e.blockId = F.id b ∧
        n < s.index.length ∧
        s.lastIndexEntryLoop F pos = (some e, { s with index := s.index.take (n + 1) })
  | 0, s, hlen, hpresent, _ => by
    have hnil := List.length_eq_zero_iff.mp hlen
    left
    constructor
    · intro n
      cases hn : present n with
      | none => rfl
      | some b =>
        obtain ⟨e, he, -⟩ := hpresent n b hn
        rw [hnil] at he
        cases he
    · rw [BlockFiles.lastIndexEntryLoop, ← hnil]
  | pos + 1, s, hlen, hpresent, habsent => by
    have hlt : pos < s.index.length := by omega
    have he : s.index[pos]? = some s.index[pos] := List.getElem?_eq_getElem hlt
    have hafter : ∀ j, pos < j → present j = none := by
      intro j hj
      cases hpos : present j with
      | none => rfl
      | some b =>
        obtain ⟨e, he, -⟩ := hpresent j b hpos
        rw [List.getElem?_eq_none (by omega)] at he
        cases he
    rw [BlockFiles.lastIndexEntryLoop, he]
    simp only
    cases hpos : present pos with
    | some b =>
      obtain ⟨e, he', hentry⟩ := hpresent pos b hpos
      rw [he] at he'
      cases he'
      have hfound : 0 < s.index[pos].blockSize ∧
          s.index[pos].blockPos + s.index[pos].blockSize ≤ s.blocks.length ∧
          (s.readBlock F s.index[pos]).isSome := by
        refine ⟨hentry.size_pos, hentry.within, ?_⟩
        rw [hentry.readBlock]
        rfl
      right
      refine ⟨pos, b, s.index[pos], hpos, hafter, hentry.id, hlt, ?_⟩
      rw [if_pos hfound, List.take_of_length_le (by omega)]
    | none =>
      have hsize := habsent pos _ hpos he
      rw [if_neg (by omega)]
      have hcut : ∀ n, n ≠ pos → n < s.index.length →
          (s.index.take pos)[n]? = s.index[n]? := by
        intro n hne hn
        exact List.getElem?_take_of_lt (by omega)
      have hkept : ∀ n b, present n = some b →
          ∃ e, (s.index.take pos)[n]? = some e ∧ EntryOf F s.blocks e b := by
        intro n b hb
        obtain ⟨e, he', hentry⟩ := hpresent n b hb
        have hne : n ≠ pos := fun heq => by
          rw [heq, hpos] at hb
          cases hb
        refine ⟨e, ?_, hentry⟩
        rw [hcut n hne (List.getElem?_eq_some_iff.mp he').1, he']
      have hrest := @lastIndexEntryLoop_spec present pos { s with index := s.index.take pos }
        (by rw [List.length_take]; omega) hkept
        (fun n e hn he' => habsent n e hn (Lib.getElem?_take_eq_some.mp he').1)
      rcases hrest with ⟨hnone, hloop⟩ | ⟨n, b, e, hb, hlast, hid, hn, hloop⟩
      · exact Or.inl ⟨hnone, hloop⟩
      · rw [List.length_take] at hn
        right
        refine ⟨n, b, e, hb, hlast, hid, by omega, ?_⟩
        rw [hloop, List.take_take, Nat.min_eq_left (by omega)]

namespace Holds

variable {s : BlockFiles Id} {h : History Block} (hs : Holds F s h)

include hs

theorem lastIndexEntry_spec :
    ((∀ n, h.present n = none) ∧ s.lastIndexEntry F = (none, { s with index := [] })) ∨
      ∃ n b e, h.present n = some b ∧ (∀ j, n < j → h.present j = none) ∧ e.blockId = F.id b ∧
        n < s.index.length ∧
        s.lastIndexEntry F = (some e, { s with index := s.index.take (n + 1) }) :=
  lastIndexEntryLoop_spec s.index.length s rfl (fun n b hb => (hs.present n b hb).2)
    fun n e hn he => (hs.absent n e hn he).1

theorem last_spec :
    Holds F (s.last F).2 (h.after F.toBlockIds .last) ∧ IsLast h.present (s.last F).1 ∧
      s.lastId F = ((s.last F).1.map F.id, (s.last F).2) := by
  unfold BlockFiles.last BlockFiles.lastId
  rcases hs.lastIndexEntry_spec with ⟨hnone, heq⟩ | ⟨n, b, e, hb, hlast, hid, -, heq⟩
  · rw [heq]
    refine ⟨⟨fun n b hb => ?_, fun n e _ he => (nomatch he), fun n hleft => ?_⟩, hnone, rfl⟩
    · rw [show (h.after F.toBlockIds .last).present n = h.present n from rfl, hnone n] at hb
      cases hb
    · obtain ⟨-, j, -, hj⟩ := hleft
      rw [hnone j] at hj
      cases hj
  · have htruncate := hs.truncate hb hlast
    have hfetch := htruncate.fetchByNumber_eq n
    rw [show (h.after F.toBlockIds .last).present n = h.present n from rfl, hb] at hfetch
    rw [heq]
    simp only
    rw [hid, (hs.present n b hb).1, hfetch]
    exact ⟨htruncate, ⟨n, hb, hlast⟩, rfl⟩

theorem after {c : StoreCall Id Block} (hc : c.Proper F) :
    Holds F (s.after F c) (h.after F.toBlockIds c) := by
  cases c with
  | store id b => exact hs.store hc
  | remove id => exact hs.remove id
  | last => exact hs.last_spec.1

end Holds

theorem holds_filesAfter {calls : List (StoreCall Id Block)} (h : ∀ c ∈ calls, c.Proper F) :
    Holds F (filesAfter F calls) (historyAfter F.toBlockIds calls) := by
  induction calls using List.reverseRecOn with
  | nil => exact ⟨fun _ _ hb => (nomatch hb), fun _ _ _ he => (nomatch he), fun _ hleft => hleft.elim⟩
  | append_singleton calls c ih =>
    unfold filesAfter historyAfter at ih ⊢
    rw [List.foldl_append, List.foldl_append]
    exact (ih fun c' hc' => h c' (List.mem_append_left _ hc')).after (h c (by simp))

structure Answers (F : BlockFormat Id Block) (s : BlockFiles Id) (present : Nat → Option Block) :
    Prop where
  contains : ∀ id, s.contains F id = true ↔ ∃ b, present (F.numFromId id) = some b ∧ F.id b = id
  fetchOptional : ∀ id b,
    s.fetchOptional F id = some b ↔ present (F.numFromId id) = some b ∧ F.id b = id
  fetchByNumber : ∀ n, s.fetchByNumber F n = present n
  last : IsLast present (s.last F).1
  lastId : (s.lastId F).1 = (s.last F).1.map F.id

def FindsId (F : BlockFormat Id Block) (s : BlockFiles Id) (present : Nat → Option Block) (n : Nat) :
    Prop := ∀ id, s.fetchBlockId F n = .ok id ↔ ∃ b, present n = some b ∧ F.id b = id

theorem Holds.answers {s : BlockFiles Id} {h : History Block} (hs : Holds F s h) :
    Answers F s h.present where
  contains := hs.contains_iff
  fetchOptional := hs.fetchOptional_iff
  fetchByNumber := hs.fetchByNumber_eq
  last := hs.last_spec.2.1
  lastId := by rw [hs.last_spec.2.2]

theorem Holds.findsId_iff {s : BlockFiles Id} {h : History Block} (hs : Holds F s h) {n : Nat}
    (hn : n ≠ 0) : FindsId F s h.present n ↔ ¬h.leftover n := by
  unfold FindsId
  cases hpresent : h.present n with
  | some b =>
    constructor
    · intro _ hleft
      rw [(hs.leftover n hleft).1] at hpresent
      cases hpresent
    · intro _ id
      rw [hs.fetchBlockId_present hn hpresent]
      simp
  | none =>
    rw [← hs.fetchBlockId_absent hn hpresent]
    simp

/-- The block database is a map after any calls, but for the ids that `fetch_block_id` still finds where
a block has been removed. -/
theorem blockFiles_map_iff {calls : List (StoreCall Id Block)} (h : ∀ c ∈ calls, c.Proper F) :
    Answers F (filesAfter F calls) (historyAfter F.toBlockIds calls).present ∧
      ((∀ n, n ≠ 0 → FindsId F (filesAfter F calls) (historyAfter F.toBlockIds calls).present n) ↔
        ∀ n, ¬(historyAfter F.toBlockIds calls).leftover n) := by
  have hs := holds_filesAfter h
  refine ⟨hs.answers, ?_⟩
  constructor
  · intro hfinds n hleft
    have hn := ne_zero_of_leftover hleft
    exact (hs.findsId_iff hn).mp (hfinds n hn) hleft
  · exact fun hnone n hn => (hs.findsId_iff hn).mpr (hnone n)

def byteFormat : BlockFormat (Nat × UInt8) (UInt8 × UInt8) where
  id b := (b.1.toNat + 1, b.2)
  previous b := (b.1.toNat, 0)
  numFromId id := id.1
  zero := (0, 0)
  num_id _ := rfl
  num_zero := rfl
  previous_eq_of_id_eq b b' h := by
    have hfirst := congrArg Prod.fst h
    simp only [Nat.add_right_cancel_iff] at hfirst
    simp only [hfirst]
  pack b := [b.1, b.2]
  unpack
    | [p, t] => some (p, t)
    | _ => none
  unpack_pack _ := rfl
  unpack_nil := rfl
  length_pack_lt _ := by
    show 2 < 2 ^ 32
    decide

def storedAndRemoved : List (StoreCall (Nat × UInt8) (UInt8 × UInt8)) :=
  [.store (1, 7) (0, 7), .remove (1, 7)]

theorem proper_storedAndRemoved : ∀ c ∈ storedAndRemoved, c.Proper byteFormat := by
  simp [storedAndRemoved, StoreCall.Proper, byteFormat]

/-- The block is not there any more, but its id is still found. -/
theorem removed_block_found :
    (filesAfter byteFormat storedAndRemoved).fetchBlockId byteFormat 1 = .ok (1, 7) ∧
      (filesAfter byteFormat storedAndRemoved).fetchByNumber byteFormat 1 = none ∧
      (historyAfter byteFormat.toBlockIds storedAndRemoved).present 1 = none ∧
      ¬FindsId byteFormat (filesAfter byteFormat storedAndRemoved)
        (historyAfter byteFormat.toBlockIds storedAndRemoved).present 1 := by
  have hfound : (filesAfter byteFormat storedAndRemoved).fetchBlockId byteFormat 1 = .ok (1, 7) := by
    decide
  have hgone : (filesAfter byteFormat storedAndRemoved).fetchByNumber byteFormat 1 = none := by
    decide
  have hnone := (holds_filesAfter proper_storedAndRemoved).fetchByNumber_eq 1
  rw [hgone] at hnone
  refine ⟨hfound, hgone, hnone.symm, fun hfinds => ?_⟩
  obtain ⟨b, hb, -⟩ := (hfinds (1, 7)).mp hfound
  rw [← hnone] at hb
  cases hb

def storedAgain : List (StoreCall (Nat × UInt8) (UInt8 × UInt8)) :=
  storedAndRemoved ++ [.store (1, 8) (0, 8)]

theorem blockFiles_map_storedAgain :
    Answers byteFormat (filesAfter byteFormat storedAgain)
        (historyAfter byteFormat.toBlockIds storedAgain).present ∧
      ∀ n, n ≠ 0 → FindsId byteFormat (filesAfter byteFormat storedAgain)
        (historyAfter byteFormat.toBlockIds storedAgain).present n := by
  have hproper : ∀ c ∈ storedAgain, c.Proper byteFormat := by
    simp [storedAgain, storedAndRemoved, StoreCall.Proper, byteFormat]
  obtain ⟨hanswers, hiff⟩ := blockFiles_map_iff hproper
  refine ⟨hanswers, hiff.mpr fun n hleft => ?_⟩
  obtain ⟨hne, hleft⟩ := hleft
  rcases leftover_of_remove hleft with heq | hold
  · exact hne heq
  · exact hold.2

end Meta1Core.Blocks
