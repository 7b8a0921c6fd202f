import Meta1Core.Db.BalanceIndex

/-!
# The index of the balances agrees with their table

An account has at most one balance object in an asset, and the secondary index finds it.
-/

namespace Meta1Core.Db

open Lib (Table cellAt setCell addChunk Chunked Reachable bind_eq_ok of_bind)
open Protocol (Asset AssetId AccountId core safe)

namespace BalancesByAccount

variable {bits : Nat} {x x' : BalancesByAccount}

def entryIn (bits : Nat) (balances : List (List (Table AssetId ObjectId))) (acct : AccountId)
    (asset : AssetId) : Option ObjectId :=
  (cellAt bits balances acct).bind fun mine => mine.lookup asset

def entry (bits : Nat) (x : BalancesByAccount) (acct : AccountId) (asset : AssetId) :
    Option ObjectId :=
  entryIn bits x.balances acct asset

variable {balances : List (List (Table AssetId ObjectId))}

theorem entryIn_of_le (h : Chunked bits balances) {acct : AccountId}
    (hle : balances.length ≤ acct >>> bits) (asset : AssetId) :
    entryIn bits balances acct asset = none := by
  have hnone : cellAt bits balances acct = none := by
    rw [← Option.not_isSome_iff_eq_none, h.isSome_iff]
    exact Nat.not_lt.mpr hle
  rw [entryIn, hnone]
  rfl

theorem getAccountBalance_eq (h : Chunked bits x.balances) (acct : AccountId) (asset : AssetId) :
    x.getAccountBalance bits acct asset = .ok (x.entry bits acct asset) := by
  unfold getAccountBalance
  split
  · rename_i hlt
    rw [entry, entryIn_of_le h (Nat.le_of_lt_succ hlt)]
  · rename_i hlt
    have hsome := h.isSome_iff.mpr (Nat.not_le.mp fun hle => hlt (Nat.lt_succ_of_le hle))
    obtain ⟨mine, hmine⟩ := Option.isSome_iff_exists.mp hsome
    rw [entry, entryIn, hmine]
    rfl

theorem entryIn_setCell {balances' : List (List (Table AssetId ObjectId))} {owner : AccountId}
    {mine mine' : Table AssetId ObjectId} (hmine : cellAt bits balances owner = some mine)
    (hset : setCell bits balances owner mine' = some balances') {assetType : AssetId}
    {value : Option ObjectId}
    (hwrite : ∀ asset, mine'.lookup asset = if asset = assetType then value else mine.lookup asset)
    (acct : AccountId) (asset : AssetId) :
    entryIn bits balances' acct asset =
      if acct = owner ∧ asset = assetType then value else entryIn bits balances acct asset := by
  unfold entryIn
  rw [Lib.cellAt_setCell hset]
  by_cases hacct : acct = owner
  · rw [if_pos hacct, hacct, hmine]
    show mine'.lookup asset = if owner = owner ∧ asset = assetType then value else mine.lookup asset
    rw [hwrite]
    simp
  · rw [if_neg hacct, if_neg fun h => hacct h.1]

theorem addChunks_spec (count : Nat) (h : Chunked bits balances) :
    Chunked bits (addChunks bits count balances) ∧
      (addChunks bits count balances).length = balances.length + count ∧
      ∀ acct asset, entryIn bits (addChunks bits count balances) acct asset =
        entryIn bits balances acct asset := by
  induction count generalizing balances with
  | zero => exact ⟨h, rfl, fun _ _ => rfl⟩
  | succ count ih =>
    rw [addChunks, Lib.addChunk_eq bits ∅ rfl]
    obtain ⟨hchunked, hlength, hentry⟩ := ih (h.concat ∅)
    refine ⟨hchunked, ?_, fun acct asset => ?_⟩
    · rw [hlength, List.length_append, List.length_singleton]
      omega
    · rw [hentry]
      by_cases hlast : acct >>> bits = balances.length
      · rw [entryIn_of_le h (Nat.le_of_eq hlast.symm), entryIn, Lib.cellAt_concat, if_pos hlast]
        rfl
      · rw [entryIn, Lib.cellAt_concat, if_neg hlast]
        rfl

theorem objectInserted_spec (h : Chunked bits x.balances) (id : ObjectId) (abo : AccountBalance) :
    ∃ x', x.objectInserted bits id abo = .ok x' ∧ Chunked bits x'.balances ∧
      ∀ acct asset, x'.entry bits acct asset =
        if acct = abo.owner ∧ asset = abo.assetType then some id else x.entry bits acct asset := by
  obtain ⟨hchunked, hlength, hentry⟩ :=
    addChunks_spec ((abo.owner >>> bits) + 1 - x.balances.length) h
  unfold objectInserted
  generalize addChunks bits ((abo.owner >>> bits) + 1 - x.balances.length) x.balances = balances
    at hchunked hlength hentry ⊢
  have hlt : abo.owner >>> bits < balances.length := by omega
  obtain ⟨mine, hmine⟩ := Option.isSome_iff_exists.mp (hchunked.isSome_iff.mpr hlt)
  obtain ⟨balances', hset, hchunked', -⟩ := hchunked.setCell (mine.insert abo.assetType id) hlt
  refine ⟨{ x with balances := balances' }, ?_, hchunked', fun acct asset => ?_⟩
  · dsimp only
    rw [hmine]
    dsimp only
    rw [hset]
  · show entryIn bits balances' acct asset = _
    rw [entryIn_setCell hmine hset fun asset => Table.lookup_insert_eq mine abo.assetType asset id,
      hentry]
    rfl

theorem objectRemoved_spec (h : Chunked bits x.balances) (abo : AccountBalance) :
    ∃ x', x.objectRemoved bits abo = .ok x' ∧ Chunked bits x'.balances ∧
      ∀ acct asset, x'.entry bits acct asset =
        if acct = abo.owner ∧ asset = abo.assetType then none else x.entry bits acct asset := by
  unfold objectRemoved
  by_cases hlt : x.balances.length < (abo.owner >>> bits) + 1
  · rw [if_pos hlt]
    refine ⟨x, rfl, h, fun acct asset => ?_⟩
    split
    · rename_i heq
      rw [heq.1]
      exact entryIn_of_le h (Nat.le_of_lt_succ hlt) asset
    · rfl
  · rw [if_neg hlt]
    have hlt' : abo.owner >>> bits < x.balances.length := by omega
    obtain ⟨mine, hmine⟩ := Option.isSome_iff_exists.mp (h.isSome_iff.mpr hlt')
    obtain ⟨balances', hset, hchunked', -⟩ := h.setCell (mine.erase abo.assetType) hlt'
    refine ⟨{ x with balances := balances' }, ?_, hchunked', fun acct asset => ?_⟩
    · rw [hmine]
      dsimp only
      rw [hset]
    · exact entryIn_setCell hmine hset (Table.lookup_erase_eq mine abo.assetType) acct asset

theorem objectModified_aboutToModify (x : BalancesByAccount) (id : ObjectId) :
    (x.aboutToModify id).objectModified id = .ok x := by
  show (fcAssert (id = id) _ >>= _) = _
  rw [fcAssert_bind_eq_ok]
  exact ⟨rfl, rfl⟩

end BalancesByAccount

open BalanceDatabase (Has)

section Table

variable {d d0 d1 : ObjectDatabase AccountBalance} {id : ObjectId} {v : AccountBalance}

variable {acct : AccountId} {asset : AssetId} {id' : ObjectId}

theorem has_insert {d' : ObjectDatabase AccountBalance} (h : d'.objects = d.objects.insert id v) :
    Has d' acct asset id' ↔
      if id' = id then v.owner = acct ∧ v.assetType = asset else Has d acct asset id' := by
  unfold Has
  rw [h, Table.lookup_insert_eq]
  split
  · simp
  · rfl

theorem has_remove : Has (d.remove id) acct asset id' ↔ id' ≠ id ∧ Has d acct asset id' := by
  unfold Has ObjectDatabase.remove
  rw [Table.lookup_erase_eq]
  split
  · rename_i heq
    simp [heq]
  · rename_i hne
    simp [hne]

def SameHolders (d0 d : ObjectDatabase AccountBalance) : Prop :=
  ∀ id was now, d0.objects.lookup id = some was → d.objects.lookup id = some now →
    was.owner = now.owner ∧ was.assetType = now.assetType

theorem SameHolders.refl (d : ObjectDatabase AccountBalance) : SameHolders d d := by
  intro id was now hwas hnow
  obtain rfl : was = now := Option.some.inj (hwas.symm.trans hnow)
  exact ⟨rfl, rfl⟩

theorem SameHolders.insert {d' : ObjectDatabase AccountBalance} (h : SameHolders d0 d)
    (hd' : d'.objects = d.objects.insert id v)
    (hsame : ∀ was, d0.objects.lookup id = some was →
      was.owner = v.owner ∧ was.assetType = v.assetType) : SameHolders d0 d' := by
  intro id' was now hwas hnow
  rw [hd', Table.lookup_insert_eq] at hnow
  split at hnow
  · rename_i heq
    cases hnow
    exact hsame was (heq ▸ hwas)
  · exact h id' was now hwas hnow

theorem SameHolders.remove (h : SameHolders d0 d) : SameHolders d0 (d.remove id) := by
  intro id' was now hwas hnow
  rw [ObjectDatabase.remove, Table.lookup_erase_eq] at hnow
  split at hnow
  · cases hnow
  · exact h id' was now hwas hnow

theorem SameHolders.trans {A B : UndoState AccountBalance} (h0 : SameHolders d0 d1)
    (h1 : SameHolders d1 d) (hd0 : d0.Wf) (hA : Records d0 A d1) (hB : Records d1 B d) :
    SameHolders d0 d := by
  intro id was now hwas hnow
  cases hbetween : d1.objects.lookup id with
  | some v =>
    obtain ⟨howner, hasset⟩ := h0 id was v hwas hbetween
    obtain ⟨howner', hasset'⟩ := h1 id v now hbetween hnow
    exact ⟨howner.trans howner', hasset.trans hasset'⟩
  | none =>
    exfalso
    have hold : B.oldValues.lookup id = none := by
      cases hold : B.oldValues.lookup id with
      | none => rfl
      | some v => exact nomatch hbetween.symm.trans (hB.updated id v hold).1
    have hnew : id ∉ B.newIds := by
      intro hnew
      obtain ⟨-, -, hle, -⟩ := hB.created id hnew
      have hlt := hd0.live_lt id was hwas
      have hle0 := hA.next_le id.index
      omega
    have hsame := hB.untouched id hold hnew (hB.removed_eq_none_of_live hnow)
    exact nomatch hnow.symm.trans (hsame.trans hbetween)

def OnePerAsset (d : ObjectDatabase AccountBalance) : Prop :=
  ∀ acct asset id id', Has d acct asset id → Has d acct asset id' → id = id'

theorem OnePerAsset.not_violates (h : OnePerAsset d) {before : AccountBalance}
    (hlive : d.objects.lookup id = some before) (howner : v.owner = before.owner)
    (hasset : v.assetType = before.assetType) : ¬d.Violates id v := by
  rw [violates_iff]
  rintro ⟨id', v', hlookup, hne, -, hassets, -, howners⟩
  apply hne
  exact h before.owner before.assetType id' id
    ⟨v', hlookup, howners.symm.trans howner, hassets.symm.trans hasset⟩ ⟨before, hlive, rfl, rfl⟩

end Table

structure Finds (bits : Nat) (d : ObjectDatabase AccountBalance) (x : BalancesByAccount) : Prop where
  chunked : Chunked bits x.balances
  entry_iff : ∀ acct asset id, x.entry bits acct asset = some id ↔ Has d acct asset id

namespace Finds

variable {bits : Nat} {d d' d0 : ObjectDatabase AccountBalance} {x x' : BalancesByAccount}
  {id : ObjectId} {v : AccountBalance}

theorem onePerAsset (h : Finds bits d x) : OnePerAsset d := by
  intro acct asset id id' hid hid'
  have hentry := (h.entry_iff acct asset id).mpr hid
  exact Option.some.inj (hentry.symm.trans ((h.entry_iff acct asset id').mpr hid'))

theorem entry_eq_none (h : Finds bits d x) {acct : AccountId} {asset : AssetId}
    (hfree : ∀ id, ¬Has d acct asset id) : x.entry bits acct asset = none := by
  cases hentry : x.entry bits acct asset with
  | none => rfl
  | some id => exact absurd ((h.entry_iff acct asset id).mp hentry) (hfree id)

theorem congr (h : Finds bits d x) (hx : x'.balances = x.balances)
    (hhas : ∀ acct asset id, Has d' acct asset id ↔ Has d acct asset id) : Finds bits d' x' := by
  refine ⟨hx ▸ h.chunked, fun acct asset id => ?_⟩
  rw [hhas, ← h.entry_iff, BalancesByAccount.entry, BalancesByAccount.entry, hx]

theorem written (h : Finds bits d x) {before : AccountBalance}
    (hlive : d.objects.lookup id = some before) (howner : v.owner = before.owner)
    (hasset : v.assetType = before.assetType) (hx : x'.balances = x.balances)
    (hd' : d'.objects = d.objects.insert id v) : Finds bits d' x' := by
  apply h.congr hx
  intro acct asset id'
  rw [has_insert hd']
  split
  · rename_i heq
    rw [heq, howner, hasset]
    constructor
    · exact fun hv => ⟨before, hlive, hv⟩
    · rintro ⟨w, hw, hholder⟩
      obtain rfl : before = w := Option.some.inj (hlive.symm.trans hw)
      exact hholder
  · rfl

theorem inserted (h : Finds bits d x) (hfresh : d.objects.lookup id = none)
    (hfree : ∀ id, ¬Has d v.owner v.assetType id) (hd' : d'.objects = d.objects.insert id v) :
    ∃ x', x.objectInserted bits id v = .ok x' ∧ Finds bits d' x' := by
  obtain ⟨x', hinserted, hchunked, hentry⟩ := BalancesByAccount.objectInserted_spec h.chunked id v
  refine ⟨x', hinserted, hchunked, fun acct asset id' => ?_⟩
  rw [hentry, has_insert hd']
  by_cases hmine : acct = v.owner ∧ asset = v.assetType
  · rw [if_pos hmine, hmine.1, hmine.2, Option.some.injEq]
    constructor
    · intro heq
      rw [if_pos heq.symm]
      exact ⟨rfl, rfl⟩
    · intro hhas
      by_contra hne
      rw [if_neg (Ne.symm hne)] at hhas
      exact hfree id' hhas
  · rw [if_neg hmine, h.entry_iff]
    split
    · rename_i heq
      subst heq
      constructor
      · rintro ⟨w, hw, -⟩
        rw [hfresh] at hw
        cases hw
      · exact fun hv => absurd ⟨hv.1.symm, hv.2.symm⟩ hmine
    · rfl

theorem removed (h : Finds bits d x) (hlive : d.objects.lookup id = some v) :
    ∃ x', x.objectRemoved bits v = .ok x' ∧ Finds bits (d.remove id) x' := by
  obtain ⟨x', hremoved, hchunked, hentry⟩ := BalancesByAccount.objectRemoved_spec h.chunked v
  refine ⟨x', hremoved, hchunked, fun acct asset id' => ?_⟩
  have hmine : Has d v.owner v.assetType id := ⟨v, hlive, rfl, rfl⟩
  rw [hentry, has_remove]
  split
  · rename_i heq
    rw [heq.1, heq.2]
    apply iff_of_false (fun hnone => nomatch hnone)
    rintro ⟨hne, hhas⟩
    exact hne (h.onePerAsset _ _ _ _ hhas hmine)
  · rename_i hother
    rw [h.entry_iff]
    refine ⟨fun hhas => ⟨?_, hhas⟩, fun hhas => hhas.2⟩
    rintro rfl
    obtain ⟨w, hw, howner, hasset⟩ := hhas
    obtain rfl : v = w := Option.some.inj (hlive.symm.trans hw)
    exact hother ⟨howner.symm, hasset.symm⟩

end Finds

section Loops

variable {bits : Nat} {d d' d0 : ObjectDatabase AccountBalance} {x x' : BalancesByAccount}

variable {entries : List (ObjectId × AccountBalance)}

theorem restoreValues_finds (h : Finds bits d x) (hsame : SameHolders d0 d)
    (hwas : ∀ e ∈ entries, d0.objects.lookup e.1 = some e.2)
    (hrestore : BalanceDatabase.restoreValues entries (d, x) = .ok (d', x')) :
    restoreValues entries d = .ok d' ∧ Finds bits d' x' := by
  induction entries generalizing d x with
  | nil =>
    cases hrestore
    exact ⟨rfl, h⟩
  | cons e rest ih =>
    obtain ⟨id, was⟩ := e
    obtain ⟨now, hget, hrest⟩ := of_bind hrestore
    have hlive := getObject_ok.mp hget
    have hstart : d0.objects.lookup id = some was := hwas _ List.mem_cons_self
    obtain ⟨howner, hasset⟩ := hsame id was now hstart hlive
    have hfits := h.onePerAsset.not_violates hlive howner hasset
    have hmodify : d.modify id was = ({ d with objects := d.objects.insert id was }, none) :=
      if_neg hfits
    dsimp only at hrest
    rw [hmodify] at hrest
    dsimp only at hrest
    rw [x.objectModified_aboutToModify id] at hrest
    have hsame' : SameHolders d0 { d with objects := d.objects.insert id was } := by
      apply hsame.insert rfl
      intro was' hwas'
      obtain rfl : was = was' := Option.some.inj (hstart.symm.trans hwas')
      exact ⟨rfl, rfl⟩
    obtain ⟨hrestored, hfinds⟩ := ih (h.written hlive howner hasset rfl rfl) hsame'
      (fun e he => hwas e (List.mem_cons_of_mem _ he)) hrest
    exact ⟨restoreValues_cons.mpr ⟨⟨now, hlive⟩, hfits, hrestored⟩, hfinds⟩

theorem removeNew_finds {ids : List ObjectId} (h : Finds bits d x)
    (hremove : BalanceDatabase.removeNew bits ids (d, x) = .ok (d', x')) :
    removeNew ids d = .ok d' ∧ Finds bits d' x' := by
  induction ids generalizing d x with
  | nil =>
    cases hremove
    exact ⟨rfl, h⟩
  | cons id rest ih =>
    obtain ⟨abo, hget, hrest⟩ := of_bind hremove
    obtain ⟨x1, hremoved, hrest⟩ := of_bind hrest
    have hlive := getObject_ok.mp hget
    obtain ⟨x2, hremoved', hfinds⟩ := h.removed hlive
    obtain rfl : x1 = x2 := Except.ok.inj (hremoved.symm.trans hremoved')
    obtain ⟨hrun, hfinds'⟩ := ih hfinds hrest
    exact ⟨removeNew_cons.mpr ⟨⟨abo, hlive⟩, hrun⟩, hfinds'⟩

theorem insertRemoved_finds (h : Finds bits d x) (hone : OnePerAsset d0)
    (hwas : ∀ e ∈ entries, d0.objects.lookup e.1 = some e.2)
    (hsub : ∀ id v, d.objects.lookup id = some v → d0.objects.lookup id = some v)
    (hinsert : BalanceDatabase.insertRemoved bits entries (d, x) = .ok (d', x')) :
    insertRemoved entries d = .ok d' ∧ Finds bits d' x' := by
  induction entries generalizing d x with
  | nil =>
    cases hinsert
    exact ⟨rfl, h⟩
  | cons e rest ih =>
    obtain ⟨id, was⟩ := e
    obtain ⟨d1, hinserted, hrest⟩ := of_bind hinsert
    obtain ⟨x1, hindexed, hrest⟩ := of_bind hrest
    have hstart : d0.objects.lookup id = some was := hwas _ List.mem_cons_self
    unfold ObjectDatabase.insert at hinserted
    split at hinserted
    · cases hinserted
    rename_i hfits
    obtain ⟨hfresh, hfits⟩ := not_or.mp hfits
    cases hinserted
    have hfree : ∀ id', ¬Has d was.owner was.assetType id' := by
      rintro id' ⟨w, hw, howner, hasset⟩
      obtain rfl := hone was.owner was.assetType id id' ⟨was, hstart, rfl, rfl⟩
        ⟨w, hsub id' w hw, howner, hasset⟩
      exact hfresh fun hnone => nomatch hnone.symm.trans hw
    have hput : ({ d with objects := d.objects.insert id was } :
        ObjectDatabase AccountBalance).objects = d.objects.insert id was := rfl
    obtain ⟨x2, hindexed', hfinds⟩ := h.inserted (not_not.mp hfresh) hfree hput
    obtain rfl : x1 = x2 := Except.ok.inj (hindexed.symm.trans hindexed')
    obtain ⟨hrun, hfinds'⟩ := ih hfinds (fun e he => hwas e (List.mem_cons_of_mem _ he)) (by
      intro id' v hv
      dsimp only at hv
      rw [Table.lookup_insert_eq] at hv
      split at hv
      · rename_i heq
        cases hv
        exact heq ▸ hstart
      · exact hsub id' v hv) hrest
    exact ⟨insertRemoved_cons.mpr ⟨not_not.mp hfresh, hfits, hrun⟩, hfinds'⟩

theorem revert_finds {st : UndoState AccountBalance} {order : Iteration AccountBalance}
    (h : Finds bits d x) (hrecords : Records d0 st d) (hsame : SameHolders d0 d)
    (hone : OnePerAsset d0) (hvisits : order.Visits st)
    (hrevert : BalanceDatabase.revert bits order (d, x) = .ok (d', x')) :
    d' = d0 ∧ Finds bits d0 x' := by
  obtain ⟨⟨d1, x1⟩, h1, hrevert⟩ := of_bind hrevert
  obtain ⟨⟨d2, x2⟩, h2, h3⟩ := of_bind hrevert
  have hold : ∀ e ∈ order.oldValues, d0.objects.lookup e.1 = some e.2 := fun e he =>
    (hrecords.updated e.1 e.2 ((hvisits.oldValues.mem_iff e.1 e.2).mp he)).1
  have hremoved : ∀ e ∈ order.removed, d0.objects.lookup e.1 = some e.2 := fun e he =>
    (hrecords.removed e.1 e.2 ((hvisits.removed.mem_iff e.1 e.2).mp he)).1
  obtain ⟨hrestored, hfinds1⟩ := restoreValues_finds h hsame hold h1
  obtain ⟨hgone, hfinds2⟩ := removeNew_finds hfinds1 h2
  have hobjects : (resetNextIds order.oldIndexNextIds d2).objects = rolledBack order d := by
    obtain rfl := restoreValues_eq hrestored
    obtain rfl := removeNew_eq hgone
    rw [resetNextIds_objects]
    rfl
  have hfinds3 : Finds bits (resetNextIds order.oldIndexNextIds d2) x2 := by
    apply hfinds2.congr rfl
    intro acct asset id
    unfold Has
    rw [resetNextIds_objects]
  obtain ⟨hback, hfinds'⟩ := insertRemoved_finds hfinds3 hone hremoved (by
    intro id v hv
    rw [hobjects, rolledBack_lookup hrecords hvisits] at hv
    split at hv
    · exact hv
    · cases hv) h3
  have hall : revert order d = .ok d' :=
    bind_eq_ok.mpr ⟨d1, hrestored, bind_eq_ok.mpr ⟨d2, hgone, hback⟩⟩
  obtain rfl := revert_eq hrecords hvisits hall
  exact ⟨rfl, hfinds'⟩

end Loops

structure Sound (d : ObjectDatabase AccountBalance) : Prop where
  wf : d.Wf
  onePerAsset : OnePerAsset d
  nonneg : ∀ id v, d.objects.lookup id = some v → 0 ≤ v.balance

/-- Each undo state of the stack records the way from a sound database, with the same holders, to the
one that the next state or the present begins with. -/
inductive History : List (UndoState AccountBalance) → ObjectDatabase AccountBalance → Prop
  | nil {d : ObjectDatabase AccountBalance} : History [] d
  | cons {st : UndoState AccountBalance} {stack : List (UndoState AccountBalance)}
      {d0 d : ObjectDatabase AccountBalance} : Records d0 st d → SameHolders d0 d → Sound d0 →
      History stack d0 → History (st :: stack) d

namespace History

variable {d d' : ObjectDatabase AccountBalance} {stack : List (UndoState AccountBalance)}

theorem take (h : History stack d) (n : Nat) : History (stack.take n) d := by
  induction h generalizing n with
  | nil =>
    rw [List.take_nil]
    exact .nil
  | cons hrecords hsame hsound _ ih =>
    cases n with
    | zero => exact .nil
    | succ n => exact .cons hrecords hsame hsound (ih n)

theorem push (h : History stack d) (hd : Sound d) : History ({} :: stack) d :=
  .cons (.start d) (.refl d) hd h

theorem note {u : UndoDatabase AccountBalance}
    {f : UndoState AccountBalance → UndoState AccountBalance} (h : History u.stack d) (hd : Sound d)
    (hidle : u.disabled = true → u.stack = [])
    (hf : ∀ d0 st, d0.Wf → Records d0 st d → SameHolders d0 d →
      Records d0 (f st) d' ∧ SameHolders d0 d') :
    History (u.note f).stack d' ∧ ((u.note f).disabled = true → (u.note f).stack = []) := by
  unfold UndoDatabase.note
  split
  · rename_i hoff
    rw [hidle hoff]
    exact ⟨.nil, fun _ => rfl⟩
  · rename_i hon
    split
    · obtain ⟨hrecords, hsame⟩ := hf d {} hd.wf (.start d) (.refl d)
      exact ⟨.cons hrecords hsame hd .nil, fun hoff => absurd hoff hon⟩
    · rename_i st stack hstack
      rw [hstack] at h
      cases h with
      | @cons _ _ d0 _ hrecords hsame hd0 hrest =>
        obtain ⟨hrecords', hsame'⟩ := hf d0 st hd0.wf hrecords hsame
        exact ⟨.cons hrecords' hsame' hd0 hrest, fun hoff => absurd hoff hon⟩

theorem merge {inner outer merged : UndoState AccountBalance} {order : Iteration AccountBalance}
    (h : History (inner :: outer :: stack) d) (hvisits : order.Visits inner)
    (hmerge : mergeStates order outer = .ok merged) : History (merged :: stack) d := by
  cases h with
  | @cons _ _ d1 _ hB hsame1 hd1 hrest =>
    cases hrest with
    | @cons _ _ d0 _ hA hsame0 hd0 hrest =>
      have hcausal := hA.causal hB hd0.wf
      obtain ⟨C, hstates, hC⟩ := mergeStates_composed hA hB hcausal hvisits
      obtain rfl : merged = C := Except.ok.inj (hmerge.symm.trans hstates)
      exact .cons (hA.compose hB hcausal hC) (hsame0.trans hsame1 hd0.wf hA hB) hd0 hrest

end History

def ObjectDatabase.created (d : ObjectDatabase AccountBalance) (index : IndexId)
    (v : AccountBalance) : ObjectDatabase AccountBalance :=
  ({ d with objects := d.objects.insert ⟨index, d.nextId index⟩ v }).setNextId index
    (d.nextId index + 1)

theorem created_objects (d : ObjectDatabase AccountBalance) (index : IndexId) (v : AccountBalance) :
    (d.created index v).objects = d.objects.insert ⟨index, d.nextId index⟩ v := rfl

@[simp] theorem note_db (u : UndoDatabase AccountBalance)
    (f : UndoState AccountBalance → UndoState AccountBalance) : (u.note f).db = u.db := by
  unfold UndoDatabase.note
  split
  · rfl
  · split
    · rfl
    · rfl

theorem note_with_db (u : UndoDatabase AccountBalance) (d : ObjectDatabase AccountBalance)
    (f : UndoState AccountBalance → UndoState AccountBalance) :
    { u.note f with db := d } = ({ u with db := d }).note f := by
  obtain ⟨db, disabled, activeSessions, stack, maxSize⟩ := u
  cases disabled with
  | true => rfl
  | false =>
    cases stack with
    | nil => rfl
    | cons st stack => rfl

theorem create_cases (u : UndoDatabase AccountBalance) (index : IndexId) (v : AccountBalance) :
    (∃ m, u.create index v = (u, some (.fc m))) ∨
      u.db.objects.lookup ⟨index, u.db.nextId index⟩ = none ∧
        ¬u.db.Violates ⟨index, u.db.nextId index⟩ v ∧
        u.create index v = (({ u with db := u.db.created index v }).note
          (·.onCreate ⟨index, u.db.nextId index⟩), none) := by
  unfold UndoDatabase.create
  dsimp only
  split
  · exact .inl ⟨_, rfl⟩
  · rename_i hfits
    obtain ⟨hfresh, hfits⟩ := not_or.mp hfits
    exact .inr ⟨not_not.mp hfresh, hfits, rfl⟩

namespace BalanceDatabase

variable {bits : Nat} {s s' : BalanceDatabase} {id : ObjectId} {v abo : AccountBalance}

structure Consistent (bits : Nat) (s : BalanceDatabase) : Prop where
  finds : Finds bits s.undo.db s.index
  wf : s.undo.db.Wf
  nonneg : ∀ id v, s.undo.db.objects.lookup id = some v → 0 ≤ v.balance
  history : History s.undo.stack s.undo.db
  idle : s.undo.disabled = true → s.undo.stack = []

namespace Consistent

theorem sound (h : Consistent bits s) : Sound s.undo.db := ⟨h.wf, h.finds.onePerAsset, h.nonneg⟩

theorem nonneg_insert (h : Consistent bits s) (hv : 0 ≤ v.balance) (id' : ObjectId)
    (w : AccountBalance) (hw : (s.undo.db.objects.insert id v).lookup id' = some w) :
    0 ≤ w.balance := by
  rw [Table.lookup_insert_eq] at hw
  split at hw
  · cases hw
    exact hv
  · exact h.nonneg id' w hw

theorem noted (h : Consistent bits s) {d' : ObjectDatabase AccountBalance} {x : BalancesByAccount}
    {f : UndoState AccountBalance → UndoState AccountBalance} (hfinds : Finds bits d' x)
    (hwf : d'.Wf) (hnonneg : ∀ id v, d'.objects.lookup id = some v → 0 ≤ v.balance)
    (hf : ∀ d0 st, d0.Wf → Records d0 st s.undo.db → SameHolders d0 s.undo.db →
      Records d0 (f st) d' ∧ SameHolders d0 d') :
    Consistent bits ⟨({ s.undo with db := d' }).note f, x⟩ := by
  have hd' : (({ s.undo with db := d' }).note f).db = d' := note_db _ f
  have hhistory : History (({ s.undo with db := d' }).note f).stack d' ∧
      ((({ s.undo with db := d' }).note f).disabled = true →
        (({ s.undo with db := d' }).note f).stack = []) :=
    History.note h.history h.sound h.idle hf
  exact ⟨hd'.symm ▸ hfinds, hd'.symm ▸ hwf, hd'.symm ▸ hnonneg, hd'.symm ▸ hhistory.1, hhistory.2⟩

theorem getBalance_of_lookup (h : Consistent bits s)
    (hlookup : s.undo.db.objects.lookup id = some v) :
    s.getBalance bits v.owner v.assetType = .ok v.balance := by
  unfold getBalance
  rw [BalancesByAccount.getAccountBalance_eq h.finds.chunked,
    (h.finds.entry_iff v.owner v.assetType id).mpr ⟨v, hlookup, rfl, rfl⟩]
  dsimp only [bind, Except.bind]
  rw [hlookup]
  rfl

variable {acct : AccountId} {asset : AssetId}

theorem getBalance_of_free (h : Consistent bits s) (hfree : ∀ id, ¬Has s.undo.db acct asset id) :
    s.getBalance bits acct asset = .ok 0 := by
  unfold getBalance
  rw [BalancesByAccount.getAccountBalance_eq h.finds.chunked, h.finds.entry_eq_none hfree]
  rfl

theorem getBalance_congr (h : Consistent bits s) (h' : Consistent bits s')
    (hsame : ∀ id v, v.owner = acct → v.assetType = asset →
      (s'.undo.db.objects.lookup id = some v ↔ s.undo.db.objects.lookup id = some v)) :
    s'.getBalance bits acct asset = s.getBalance bits acct asset := by
  by_cases hsome : ∃ id, Has s.undo.db acct asset id
  · obtain ⟨id, v, hlookup, rfl, rfl⟩ := hsome
    rw [h.getBalance_of_lookup hlookup, h'.getBalance_of_lookup ((hsame id v rfl rfl).mpr hlookup)]
  · have hfree : ∀ id, ¬Has s.undo.db acct asset id := fun id hid => hsome ⟨id, hid⟩
    rw [h.getBalance_of_free hfree, h'.getBalance_of_free]
    rintro id ⟨v, hlookup, howner, hasset⟩
    exact hfree id ⟨v, (hsame id v howner hasset).mp hlookup, howner, hasset⟩

theorem exists_getBalance (h : Consistent bits s) (acct : AccountId) (asset : AssetId) :
    ∃ b, s.getBalance bits acct asset = .ok b := by
  by_cases hsome : ∃ id, Has s.undo.db acct asset id
  · obtain ⟨id, v, hlookup, rfl, rfl⟩ := hsome
    exact ⟨_, h.getBalance_of_lookup hlookup⟩
  · exact ⟨_, h.getBalance_of_free fun id hid => hsome ⟨id, hid⟩⟩

theorem create (h : Consistent bits s) (hv : 0 ≤ v.balance)
    (hfree : ∀ id, ¬Has s.undo.db v.owner v.assetType id) :
    Consistent bits (s.create bits v).1 ∧
      ((∃ m, (s.create bits v).2 = some (.fc m)) ∧ (s.create bits v).1 = s ∨
        (s.create bits v).2 = none ∧ (s.create bits v).1.undo.db.objects =
          s.undo.db.objects.insert ⟨balanceIndex, s.undo.db.nextId balanceIndex⟩ v) := by
  rcases create_cases s.undo balanceIndex v with ⟨m, hthrown⟩ | ⟨hfresh, hfits, hcreated⟩
  · have hcreate : s.create bits v = (s, some (.fc m)) := by
      unfold BalanceDatabase.create
      rw [hthrown]
    rw [hcreate]
    exact ⟨h, .inl ⟨⟨m, rfl⟩, rfl⟩⟩
  · obtain ⟨x, hinserted, hfinds⟩ := h.finds.inserted hfresh hfree
      (created_objects s.undo.db balanceIndex v)
    have hcreate : s.create bits v =
        (⟨({ s.undo with db := s.undo.db.created balanceIndex v }).note
          (·.onCreate ⟨balanceIndex, s.undo.db.nextId balanceIndex⟩), x⟩, none) := by
      unfold BalanceDatabase.create
      rw [hcreated]
      dsimp only
      rw [hinserted]
    rw [hcreate]
    refine ⟨?_, .inr ⟨rfl, by rw [note_db]; rfl⟩⟩
    apply h.noted
    · exact hfinds
    · exact create_wf h.wf hfits
    · exact h.nonneg_insert hv
    · intro d0 st hd0 hrecords hsame
      refine ⟨hrecords.create hd0 balanceIndex v, ?_⟩
      apply hsame.insert (created_objects s.undo.db balanceIndex v)
      intro was hwas
      -- an object of the start does not have an id that is handed out now
      have hnone : d0.objects.lookup ⟨balanceIndex, s.undo.db.nextId balanceIndex⟩ = none :=
        Records.lookup_eq_none_of_le hd0 (hrecords.next_le balanceIndex)
      exact nomatch hwas.symm.trans hnone

theorem modify (h : Consistent bits s) (hlive : s.undo.db.objects.lookup id = some abo)
    {m : AccountBalance → Except Exception AccountBalance}
    (hm : ∀ v, m abo = .ok v → v.owner = abo.owner ∧ v.assetType = abo.assetType ∧ 0 ≤ v.balance) :
    Consistent bits (s.modify id m).1 ∧
      match m abo with
      | .error e => (s.modify id m).2 = some e ∧ (s.modify id m).1.undo.db = s.undo.db
      | .ok v => (s.modify id m).2 = none ∧
          (s.modify id m).1.undo.db.objects = s.undo.db.objects.insert id v := by
  unfold BalanceDatabase.modify
  rw [getObject_ok.mpr hlive]
  dsimp only
  cases hv : m abo with
  | error e =>
    refine ⟨?_, rfl, note_db ..⟩
    apply h.noted
    · exact h.finds.congr rfl fun _ _ _ => Iff.rfl
    · exact h.wf
    · exact h.nonneg
    · exact fun d0 st _ hrecords hsame => ⟨hrecords.modify hlive (fun _ _ => rfl) rfl, hsame⟩
  | ok v =>
    obtain ⟨howner, hasset, hnonneg⟩ := hm v hv
    have hfits := h.finds.onePerAsset.not_violates hlive howner hasset
    have hmodify : s.undo.db.modify id v =
        ({ s.undo.db with objects := s.undo.db.objects.insert id v }, none) := if_neg hfits
    dsimp only
    rw [note_db, hmodify]
    dsimp only
    rw [s.index.objectModified_aboutToModify id, note_with_db]
    refine ⟨?_, rfl, by rw [note_db]⟩
    apply h.noted
    · exact h.finds.written hlive howner hasset rfl rfl
    · have hwf := modify_wf h.wf v hlive
      rw [hmodify] at hwf
      exact hwf
    · exact h.nonneg_insert hnonneg
    · intro d0 st _ hrecords hsame
      refine ⟨hrecords.modify hlive (fun id' hne => Finmap.lookup_insert_of_ne _ hne) rfl, ?_⟩
      apply hsame.insert rfl
      intro was hwas
      obtain ⟨howner', hasset'⟩ := hsame id was abo hwas hlive
      exact ⟨howner'.trans howner.symm, hasset'.trans hasset.symm⟩

theorem remove (h : Consistent bits s) (id : ObjectId) : Consistent bits (s.remove bits id).1 := by
  unfold BalanceDatabase.remove
  cases hget : s.undo.db.getObject id with
  | error e => exact h
  | ok abo =>
    have hlive := getObject_ok.mp hget
    obtain ⟨x, hremoved, hfinds⟩ := h.finds.removed hlive
    dsimp only
    rw [hremoved]
    dsimp only
    unfold UndoDatabase.remove
    rw [hget]
    dsimp only
    rw [note_with_db]
    apply h.noted
    · exact hfinds
    · exact erase_wf h.wf id
    · intro id' v hv
      rw [ObjectDatabase.remove, Table.lookup_erase_eq] at hv
      split at hv
      · cases hv
      · exact h.nonneg id' v hv
    · exact fun d0 st _ hrecords hsame => ⟨hrecords.remove hlive, hsame.remove⟩

variable {u : UndoDatabase AccountBalance}

theorem started (h : Consistent bits s) (hdb : u.db = s.undo.db)
    (hstack : u.stack = {} :: s.undo.stack.take s.undo.maxSize) (henabled : u.disabled = false) :
    Consistent bits { s with undo := u } := by
  refine ⟨hdb.symm ▸ h.finds, hdb.symm ▸ h.wf, hdb.symm ▸ h.nonneg, ?_, fun hoff => ?_⟩
  · show History u.stack u.db
    rw [hstack, hdb]
    exact (h.history.take _).push h.sound
  · exact absurd (henabled.symm.trans hoff) Bool.false_ne_true

theorem reverted (h : Consistent bits s) {order : Iteration AccountBalance}
    {st : UndoState AccountBalance} {stack : List (UndoState AccountBalance)}
    (hstack : s.undo.stack = st :: stack) (hvisits : order.Visits st)
    {db : ObjectDatabase AccountBalance} {x : BalancesByAccount}
    (hrevert : revert bits order (s.undo.db, s.index) = .ok (db, x)) (hdb : u.db = db)
    (hrest : u.stack = stack) (henabled : u.disabled = false) : Consistent bits ⟨u, x⟩ := by
  have hhistory := h.history
  rw [hstack] at hhistory
  cases hhistory with
  | @cons _ _ d0 _ hrecords hsame hd0 hbefore =>
    obtain ⟨rfl, hfinds⟩ :=
      revert_finds h.finds hrecords hsame hd0.onePerAsset hvisits hrevert
    refine ⟨hdb.symm ▸ hfinds, hdb.symm ▸ hd0.wf, hdb.symm ▸ hd0.nonneg, ?_, fun hoff => ?_⟩
    · show History u.stack u.db
      rw [hrest, hdb]
      exact hbefore
    · exact absurd (henabled.symm.trans hoff) Bool.false_ne_true

theorem getBalance_insert (h : Consistent bits s) (h' : Consistent bits s')
    (hobjects : s'.undo.db.objects = s.undo.db.objects.insert id v)
    (hbefore : ∀ w, s.undo.db.objects.lookup id = some w →
      w.owner = v.owner ∧ w.assetType = v.assetType) (acct : AccountId) (asset : AssetId) :
    s'.getBalance bits acct asset =
      if acct = v.owner ∧ asset = v.assetType then .ok v.balance
      else s.getBalance bits acct asset := by
  have hlookup : ∀ id', s'.undo.db.objects.lookup id' =
      if id' = id then some v else s.undo.db.objects.lookup id' := by
    intro id'
    rw [hobjects, Table.lookup_insert_eq]
  split
  · rename_i hmine
    rw [hmine.1, hmine.2]
    apply h'.getBalance_of_lookup
    rw [hlookup, if_pos rfl]
  · rename_i hother
    apply h.getBalance_congr h'
    intro id' w howner hasset
    rw [hlookup]
    split
    · rename_i heq
      apply iff_of_false
      · rintro hw
        obtain rfl : v = w := Option.some.inj hw
        exact hother ⟨howner.symm, hasset.symm⟩
      · intro hw
        obtain ⟨howner', hasset'⟩ := hbefore w (heq ▸ hw)
        exact hother ⟨howner.symm.trans howner', hasset.symm.trans hasset'⟩
    · rfl

end Consistent

theorem sufficient_spec (abo : AccountBalance) (delta : Asset) :
    Lib.Outcome (fun _ => delta.amount < 0 → 0 ≤ abo.balance + delta.amount)
      (fun e => ∃ m, e = Exception.fc m) (sufficient abo delta) := by
  unfold sufficient
  split
  · unfold safe fcAssert
    split
    · split
      · show Lib.Outcome _ _ (if -delta.amount ≤ abo.balance then _ else _)
        split
        · rename_i hrequired
          intro _
          omega
        · exact ⟨_, rfl⟩
      · exact ⟨_, rfl⟩
    · exact ⟨_, rfl⟩
  · rename_i hnonneg
    exact fun hneg => absurd hneg hnonneg

theorem adjusted_spec {delta : Asset} {b : AccountBalance} (hasset : delta.assetId = b.assetType) :
    Lib.Outcome (fun v => v.owner = b.owner ∧ v.assetType = b.assetType ∧
        v.balance = b.balance + delta.amount)
      (fun e => ∃ m, e = Exception.fc m) (adjusted delta b) := by
  unfold adjusted
  rw [cAssert_of hasset]
  unfold safe
  split
  · exact ⟨rfl, rfl, rfl⟩
  · exact ⟨_, rfl⟩

/-- What `adjust_balance` may leave: one balance has changed by `delta` and no other one, or an
`fc::exception` was thrown and none has changed. -/
def Adjusted (bits : Nat) (s : BalanceDatabase) (account : AccountId) (delta : Asset) :
    BalanceDatabase × Option Exception → Prop
  | (s', none) => ∀ acct asset, ∃ b, s.getBalance bits acct asset = .ok b ∧
      s'.getBalance bits acct asset =
        .ok (if acct = account ∧ asset = delta.assetId then b + delta.amount else b)
  | (s', some e) => (∃ m, e = .fc m) ∧ s'.undo.db = s.undo.db ∧
      ∀ acct asset, s'.getBalance bits acct asset = s.getBalance bits acct asset

namespace Consistent

variable {account : AccountId} {delta : Asset}

theorem adjusted_error (h : Consistent bits s) (h' : Consistent bits s') {e : Exception}
    (he : ∃ m, e = .fc m) (hdb : s'.undo.db = s.undo.db) :
    Adjusted bits s account delta (s', some e) := by
  refine ⟨he, hdb, fun acct asset => ?_⟩
  apply h.getBalance_congr h'
  intro id v _ _
  rw [hdb]

theorem adjusted_write (h : Consistent bits s) (h' : Consistent bits s')
    (hobjects : s'.undo.db.objects = s.undo.db.objects.insert id v) (howner : v.owner = account)
    (hasset : v.assetType = delta.assetId)
    (hbefore : ∀ w, s.undo.db.objects.lookup id = some w →
      w.owner = v.owner ∧ w.assetType = v.assetType)
    (hold : ∃ b, s.getBalance bits account delta.assetId = .ok b ∧ v.balance = b + delta.amount) :
    Adjusted bits s account delta (s', none) := by
  intro acct asset
  obtain ⟨b, hb⟩ := h.exists_getBalance acct asset
  refine ⟨b, hb, ?_⟩
  rw [h.getBalance_insert h' hobjects hbefore, howner, hasset]
  split
  · rename_i hmine
    obtain ⟨b', hb', hv⟩ := hold
    rw [hmine.1, hmine.2] at hb
    obtain rfl : b = b' := Except.ok.inj (hb.symm.trans hb')
    rw [hv]
  · exact hb

theorem adjustBalance (h : Consistent bits s) (account : AccountId) (delta : Asset) :
    Consistent bits (s.adjustBalance bits account delta).1 ∧
      Adjusted bits s account delta (s.adjustBalance bits account delta) := by
  unfold BalanceDatabase.adjustBalance
  by_cases hzero : delta.amount = 0
  · rw [if_pos hzero]
    refine ⟨h, fun acct asset => ?_⟩
    obtain ⟨b, hb⟩ := h.exists_getBalance acct asset
    refine ⟨b, hb, ?_⟩
    rw [hzero, add_zero, ite_self]
    exact hb
  rw [if_neg hzero, BalancesByAccount.getAccountBalance_eq h.finds.chunked]
  cases hentry : s.index.entry bits account delta.assetId with
  | none =>
    have hfree : ∀ id, ¬Has s.undo.db account delta.assetId id := fun id hid =>
      nomatch hentry.symm.trans ((h.finds.entry_iff account delta.assetId id).mpr hid)
    dsimp only
    split
    · rename_i hpositive
      obtain ⟨h', hcreate⟩ := h.create (v := {
        owner := account
        assetType := delta.assetId
        balance := delta.amount
        maintenanceFlag := decide (delta.assetId = core) }) (Int.le_of_lt hpositive) hfree
      generalize s.create bits _ = r at h' hcreate ⊢
      obtain ⟨s', thrown⟩ := r
      rcases hcreate with ⟨⟨m, hthrown⟩, hsame⟩ | ⟨hreturned, hobjects⟩
      · obtain rfl : thrown = some (.fc m) := hthrown
        obtain rfl : s' = s := hsame
        exact ⟨h, h.adjusted_error h ⟨m, rfl⟩ rfl⟩
      · obtain rfl : thrown = none := hreturned
        have hfresh : s.undo.db.objects.lookup ⟨balanceIndex, s.undo.db.nextId balanceIndex⟩ =
            none := Records.lookup_eq_none_of_le h.wf le_rfl
        refine ⟨h', h.adjusted_write h' hobjects rfl rfl (fun w hw => ?_)
          ⟨0, h.getBalance_of_free hfree, (zero_add delta.amount).symm⟩⟩
        exact nomatch hw.symm.trans hfresh
    · exact ⟨h, h.adjusted_error h ⟨_, rfl⟩ rfl⟩
  | some id =>
    obtain ⟨abo, hlive, howner, hasset⟩ := (h.finds.entry_iff account delta.assetId id).mp hentry
    dsimp only
    rw [hlive]
    dsimp only
    have hcheck := sufficient_spec abo delta
    cases hsufficient : sufficient abo delta with
    | error e =>
      rw [hsufficient] at hcheck
      exact ⟨h, h.adjusted_error h hcheck rfl⟩
    | ok u =>
      rw [hsufficient] at hcheck
      have hnonneg : 0 ≤ abo.balance + delta.amount := by
        have habo := h.nonneg id abo hlive
        by_cases hneg : delta.amount < 0
        · exact hcheck hneg
        · omega
      have hspec := adjusted_spec hasset.symm
      obtain ⟨h', hmodify⟩ := h.modify (m := adjusted delta) hlive fun v hv => by
        rw [hv] at hspec
        obtain ⟨howner', hasset', hbalance⟩ := hspec
        exact ⟨howner', hasset', hbalance ▸ hnonneg⟩
      dsimp only
      generalize s.modify id (adjusted delta) = r at h' hmodify ⊢
      obtain ⟨s', thrown⟩ := r
      cases hadjusted : adjusted delta abo with
      | error e =>
        rw [hadjusted] at hmodify hspec
        obtain rfl : thrown = some e := hmodify.1
        exact ⟨h', h.adjusted_error h' hspec hmodify.2⟩
      | ok v =>
        rw [hadjusted] at hmodify hspec
        obtain rfl : thrown = none := hmodify.1
        obtain ⟨howner', hasset', hbalance⟩ := hspec
        refine ⟨h', h.adjusted_write h' hmodify.2 (howner'.trans howner) (hasset'.trans hasset)
          (fun w hw => ?_) ⟨abo.balance, ?_, hbalance⟩⟩
        · obtain rfl : abo = w := Option.some.inj (hlive.symm.trans hw)
          exact ⟨howner'.symm, hasset'.symm⟩
        · rw [← howner, ← hasset]
          exact h.getBalance_of_lookup hlive

theorem start {s : BalanceDatabase} (hobjects : s.undo.db.objects = ∅) (hstack : s.undo.stack = [])
    (hindex : s.index = {}) : Consistent bits s := by
  have hempty : ∀ id, s.undo.db.objects.lookup id = none := fun id => by
    rw [hobjects]
    exact Finmap.lookup_empty id
  refine ⟨⟨?_, fun acct asset id => ?_⟩, ⟨fun id v hv => ?_, fun id v hv => ?_⟩,
    fun id v hv => ?_, ?_, fun _ => hstack⟩
  · rw [hindex]
    exact .nil bits
  · rw [hindex]
    apply iff_of_false (fun hentry => nomatch hentry)
    rintro ⟨v, hv, -⟩
    exact nomatch hv.symm.trans (hempty id)
  · exact nomatch hv.symm.trans (hempty id)
  · exact nomatch hv.symm.trans (hempty id)
  · exact nomatch hv.symm.trans (hempty id)
  · rw [hstack]
    exact .nil

theorem step (h : Consistent bits s) {call : BalanceCall} (hregular : s.Regular call)
    (hfitting : s.Fitting call) (hstep : s.step bits call = .ok s') : Consistent bits s' := by
  cases call with
  | adjustBalance account delta =>
    cases hstep
    exact (h.adjustBalance account delta).1
  | insert v =>
    cases hstep
    exact (h.create hfitting.1 hfitting.2).1
  | remove id =>
    cases hstep
    exact h.remove id
  | startUndoSession =>
    cases hstep
    unfold UndoDatabase.startUndoSession
    split
    · exact h
    · rename_i hon
      exact h.started rfl rfl (Bool.eq_false_iff.mpr hon)
  | forceUndoSession =>
    cases hstep
    exact h.started rfl rfl rfl
  | disable =>
    cases hstep
    exact ⟨h.finds, h.wf, h.nonneg, h.history, fun _ => hregular⟩
  | undo order =>
    obtain ⟨henabled, hstep⟩ := of_fcAssert hstep
    obtain ⟨-, hstep⟩ := of_fcAssert hstep
    cases hstack : s.undo.stack with
    | nil =>
      rw [hstack] at hstep
      cases hstep
    | cons st stack =>
      rw [hstack] at hstep
      obtain ⟨⟨db, x⟩, hrevert, hs'⟩ := of_bind hstep
      cases hs'
      exact h.reverted hstack (hregular st (by rw [hstack]; rfl)) hrevert rfl rfl henabled
  | merge order =>
    obtain ⟨u, hmerge, hs'⟩ := of_bind hstep
    cases hs'
    obtain ⟨-, hmerge⟩ := of_fcAssert hmerge
    split at hmerge
    · split at hmerge
      · cases hmerge
        exact ⟨h.finds, h.wf, h.nonneg, .nil, fun _ => rfl⟩
      · cases hmerge
    · rename_i inner outer stack hstack
      obtain ⟨merged, hstates, hu⟩ := of_bind hmerge
      cases hu
      have hhistory := h.history
      rw [hstack] at hhistory
      refine ⟨h.finds, h.wf, h.nonneg,
        hhistory.merge (hregular inner (by rw [hstack]; rfl)) hstates, fun hoff => ?_⟩
      exact nomatch hstack.symm.trans (h.idle hoff)
    · cases hmerge
  | commit =>
    obtain ⟨u, hcommit, hs'⟩ := of_bind hstep
    cases hs'
    obtain ⟨-, hu⟩ := of_fcAssert hcommit
    cases hu
    exact ⟨h.finds, h.wf, h.nonneg, h.history, h.idle⟩
  | popCommit order =>
    obtain ⟨-, hstep⟩ := of_fcAssert hstep
    cases hstack : s.undo.stack with
    | nil =>
      rw [hstack] at hstep
      cases hstep
    | cons st stack =>
      rw [hstack] at hstep
      obtain ⟨⟨db, x⟩, hrevert, hs'⟩ := of_bind hstep
      cases hs'
      exact h.reverted hstack (hregular st (by rw [hstack]; rfl)) hrevert rfl rfl rfl
  | setMaxSize size =>
    cases hstep
    exact ⟨h.finds, h.wf, h.nonneg, h.history, h.idle⟩

end Consistent

def Empty (s : BalanceDatabase) : Prop :=
  s.undo.db.objects = ∅ ∧ s.undo.stack = [] ∧ s.index = {}

/-- In every state that calls reach from an empty database, the index finds exactly the objects that
are there, `adjust_balance` changes one balance by `delta` or throws and leaves it unchanged, and no
balance is negative. -/
theorem balances_agree (bits : Nat) {s : BalanceDatabase}
    (h : Reachable (BalanceDatabase.step bits) Empty
      (fun s call => s.Regular call ∧ s.Fitting call) s) :
    (∀ acct asset, ∃ r, s.index.getAccountBalance bits acct asset = .ok r ∧
        ∀ id, r = some id ↔ Has s.undo.db acct asset id) ∧
      (∀ account delta, Adjusted bits s account delta (s.adjustBalance bits account delta)) ∧
      ∀ id v, s.undo.db.objects.lookup id = some v → 0 ≤ v.balance := by
  have hconsistent : Consistent bits s := by
    apply h.invariant (Consistent bits)
    · exact fun s hs => .start hs.1 hs.2.1 hs.2.2
    · exact fun s call s' hs hcond hstep => hs.step hcond.1 hcond.2 hstep
  refine ⟨fun acct asset => ?_, fun account delta => (hconsistent.adjustBalance account delta).2,
    hconsistent.nonneg⟩
  exact ⟨_, BalancesByAccount.getAccountBalance_eq hconsistent.finds.chunked acct asset,
    hconsistent.finds.entry_iff acct asset⟩

def emptyBalances : BalanceDatabase where
  undo := {
    db := { objects := ∅, nextId := fun _ => 0 }
    disabled := false
    activeSessions := 0
    stack := []
    maxSize := 10 }

def boundaryCalls : List BalanceCall :=
  [.adjustBalance 1 ⟨5, 0⟩, .startUndoSession, .adjustBalance 2 ⟨7, 0⟩, .adjustBalance 1 ⟨-2, 0⟩,
    .remove ⟨balanceIndex, 0⟩, .undo {
      oldValues := []
      newIds := [⟨balanceIndex, 1⟩]
      oldIndexNextIds := [(balanceIndex, 1)]
      removed := [(⟨balanceIndex, 0⟩,
        { owner := 1, assetType := 0, balance := 5, maintenanceFlag := true })] },
    .adjustBalance 2 ⟨3, 0⟩]

theorem balances_agree_boundary : ∃ s, Lib.run (step 1) emptyBalances boundaryCalls = .ok s ∧
    (∀ acct asset, ∃ r, s.index.getAccountBalance 1 acct asset = .ok r ∧
        ∀ id, r = some id ↔ Has s.undo.db acct asset id) ∧
      (∀ account delta, Adjusted 1 s account delta (s.adjustBalance 1 account delta)) ∧
      ∀ id v, s.undo.db.objects.lookup id = some v → 0 ≤ v.balance := by
  have hmeet : Lib.StepsMeet (step 1) (fun s call => s.Regular call ∧ s.Fitting call) emptyBalances
      boundaryCalls := by
    refine ⟨⟨trivial, trivial⟩, ⟨trivial, trivial⟩, ⟨trivial, trivial⟩, ⟨trivial, trivial⟩,
      ⟨trivial, trivial⟩, ⟨fun st hst => ?_, trivial⟩, ⟨trivial, trivial⟩, trivial⟩
    have hnew : ({⟨balanceIndex, 1⟩} : Finset ObjectId) = st.newIds := by
      cases hst
      decide
    refine ⟨?_, ⟨by decide, fun id => ?_⟩, ?_, ?_⟩
    · cases hst
      decide
    · rw [← hnew, Finset.mem_singleton]
      exact List.mem_singleton
    · cases hst
      decide
    · cases hst
      decide
  have hrun : ∃ s, Lib.run (step 1) emptyBalances boundaryCalls = .ok s := ⟨_, rfl⟩
  obtain ⟨s, hs⟩ := hrun
  exact ⟨s, hs, balances_agree 1 ((Reachable.init ⟨rfl, rfl, rfl⟩).run hmeet hs)⟩

theorem create_undo (bits : Nat) (s : BalanceDatabase) (v : AccountBalance) :
    (s.create bits v).1.undo = (s.undo.create balanceIndex v).1 := by
  unfold BalanceDatabase.create
  split
  · rename_i heq
    rw [heq]
  · rename_i heq
    rw [heq]
    split
    · rfl
    · rfl

/-- The table takes two objects of one owner and one asset, of which the index finds the later. -/
theorem inserted_twice : ¬∀ s, Reachable (step 20) Empty Regular s → ∀ acct asset, ∃ r,
    s.index.getAccountBalance 20 acct asset = .ok r ∧
      ∀ id, r = some id ↔ Has s.undo.db acct asset id := by
  intro hall
  let first := (emptyBalances.create 20 { owner := 1, assetType := 0, balance := 5 }).1
  let second := (first.create 20 { owner := 1, assetType := 0, balance := 7 }).1
  have hreach : Reachable (step 20) Empty Regular second := by
    apply Reachable.step (s := first) (e := .insert { owner := 1, assetType := 0, balance := 7 })
    · apply Reachable.step (s := emptyBalances)
        (e := .insert { owner := 1, assetType := 0, balance := 5 })
      · exact .init ⟨rfl, rfl, rfl⟩
      · trivial
      · rfl
    · trivial
    · rfl
  have hundo : second.undo = ((emptyBalances.undo.create balanceIndex
      { owner := 1, assetType := 0, balance := 5 }).1.create balanceIndex
      { owner := 1, assetType := 0, balance := 7 }).1 := by
    rw [create_undo, create_undo]
  obtain ⟨r, -, hr⟩ := hall second hreach 1 0
  have hfirst : r = some ⟨balanceIndex, 0⟩ := by
    rw [hr, hundo]
    exact ⟨_, rfl, rfl, rfl⟩
  have hsecond : r = some ⟨balanceIndex, 1⟩ := by
    rw [hr, hundo]
    exact ⟨_, rfl, rfl, rfl⟩
  rw [hfirst] at hsecond
  exact absurd hsecond (by decide)

end BalanceDatabase

end Meta1Core.Db
