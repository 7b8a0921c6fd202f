import Meta1Core.Lib.FlatSet
import Meta1Core.Lib.Table

/-!
# Inverse relations

Rows refer to keys.  An index keeps, for each key, the set of the ids of the rows that refer to it,
and is changed a link at a time.
-/

namespace Meta1Core.Lib

universe u v

abbrev Links (κ : Type u) (ι : Type v) := Table κ (Finset ι)

namespace Links

variable {κ : Type u} {ι : Type v} [DecidableEq κ] [DecidableEq ι]

def members (m : Links κ ι) (k : κ) : Finset ι := (m.lookup k).getD ∅

def link (m : Links κ ι) (k : κ) (i : ι) : Links κ ι := m.insert k (insert i (m.members k))

def unlink (m : Links κ ι) (k : κ) (i : ι) : Links κ ι := m.insert k ((m.members k).erase i)

/-- Erase the link, and the key with it if it was the last one. -/
def drop (m : Links κ ι) (k : κ) (i : ι) : Links κ ι :=
  match m.lookup k with
  | none => m
  | some s => if s.erase i = ∅ then m.erase k else m.insert k (s.erase i)

def Tidy (m : Links κ ι) : Prop := ∀ k s, m.lookup k = some s → s ≠ ∅

def Inverts (m : Links κ ι) (refers : ι → κ → Prop) : Prop := ∀ k i, i ∈ m.members k ↔ refers i k

variable {m : Links κ ι} {k : κ} {i : ι}

omit [DecidableEq ι] in
theorem members_insert (m : Links κ ι) (k k' : κ) (s : Finset ι) :
    members (m.insert k s) k' = if k' = k then s else m.members k' := by
  unfold members
  rw [Table.lookup_insert_eq]
  split
  · rfl
  · rfl

variable {k' : κ} {j : ι}

@[simp] theorem mem_members_link :
    j ∈ (m.link k i).members k' ↔ j = i ∧ k' = k ∨ j ∈ m.members k' := by
  unfold link
  rw [members_insert]
  by_cases hk : k' = k
  · subst hk
    simp
  · simp [hk]

@[simp] theorem mem_members_unlink :
    j ∈ (m.unlink k i).members k' ↔ j ∈ m.members k' ∧ ¬(j = i ∧ k' = k) := by
  unfold unlink
  rw [members_insert]
  by_cases hk : k' = k
  · subst hk
    simp [and_comm]
  · simp [hk]

theorem members_drop (m : Links κ ι) (k : κ) (i : ι) (k' : κ) :
    (m.drop k i).members k' = (m.unlink k i).members k' := by
  unfold drop unlink
  rw [members_insert]
  cases hlookup : m.lookup k with
  | none =>
    have hnone : m.members k = ∅ := congrArg (Option.getD · ∅) hlookup
    by_cases hk : k' = k
    · rw [if_pos hk, hk, hnone, Finset.erase_empty]
    · rw [if_neg hk]
  | some s =>
    have hsome : m.members k = s := congrArg (Option.getD · ∅) hlookup
    rw [hsome]
    show members (if s.erase i = ∅ then _ else _) k' = _
    split
    · rename_i hempty
      unfold members
      rw [Table.lookup_erase_eq]
      split
      · exact hempty.symm
      · rfl
    · rw [members_insert]

@[simp] theorem mem_members_drop :
    j ∈ (m.drop k i).members k' ↔ j ∈ m.members k' ∧ ¬(j = i ∧ k' = k) := by
  rw [members_drop, mem_members_unlink]

theorem Tidy.link (h : m.Tidy) (k : κ) (i : ι) : (m.link k i).Tidy := by
  intro k' s hs
  unfold Links.link at hs
  rw [Table.lookup_insert_eq] at hs
  split at hs
  · cases hs
    exact Finset.insert_ne_empty i _
  · exact h k' s hs

theorem Tidy.drop (h : m.Tidy) (k : κ) (i : ι) : (m.drop k i).Tidy := by
  unfold Links.drop
  cases hlookup : m.lookup k with
  | none => exact h
  | some s =>
    show Tidy (if s.erase i = ∅ then _ else _)
    split
    · intro k' s' hs'
      rw [Table.lookup_erase_eq] at hs'
      split at hs'
      · cases hs'
      · exact h k' s' hs'
    · rename_i hne
      intro k' s' hs'
      rw [Table.lookup_insert_eq] at hs'
      split at hs'
      · cases hs'
        exact hne
      · exact h k' s' hs'

def linkAll (m : Links κ ι) (ks : List κ) (i : ι) : Links κ ι :=
  ks.foldl (fun m k => m.link k i) m

/-- Take away the links of an id to all keys of a range. -/
def unlinkAll (m : Links κ ι) (ks : List κ) (i : ι) : Links κ ι :=
  ks.foldl (fun m k => m.unlink k i) m

/-- Take away the links of an id to all keys of a range, and the keys that have no other one. -/
def dropAll (m : Links κ ι) (ks : List κ) (i : ι) : Links κ ι :=
  ks.foldl (fun m k => m.drop k i) m

@[simp] theorem mem_members_linkAll {ks : List κ} :
    j ∈ (m.linkAll ks i).members k' ↔ j = i ∧ k' ∈ ks ∨ j ∈ m.members k' := by
  induction ks generalizing m with
  | nil => simp [linkAll]
  | cons k ks ih =>
    show j ∈ ((m.link k i).linkAll ks i).members k' ↔ _
    rw [ih, mem_members_link, List.mem_cons]
    tauto

@[simp] theorem mem_members_unlinkAll {ks : List κ} :
    j ∈ (m.unlinkAll ks i).members k' ↔ j ∈ m.members k' ∧ ¬(j = i ∧ k' ∈ ks) := by
  induction ks generalizing m with
  | nil => simp [unlinkAll]
  | cons k ks ih =>
    show j ∈ ((m.unlink k i).unlinkAll ks i).members k' ↔ _
    rw [ih, mem_members_unlink, List.mem_cons]
    tauto

@[simp] theorem mem_members_dropAll {ks : List κ} :
    j ∈ (m.dropAll ks i).members k' ↔ j ∈ m.members k' ∧ ¬(j = i ∧ k' ∈ ks) := by
  induction ks generalizing m with
  | nil => simp [dropAll]
  | cons k ks ih =>
    show j ∈ ((m.drop k i).dropAll ks i).members k' ↔ _
    rw [ih, mem_members_drop, List.mem_cons]
    tauto

theorem Tidy.linkAll (h : m.Tidy) (ks : List κ) (i : ι) : (m.linkAll ks i).Tidy := by
  induction ks generalizing m with
  | nil => exact h
  | cons k ks ih => exact ih (h.link k i)

theorem Tidy.dropAll (h : m.Tidy) (ks : List κ) (i : ι) : (m.dropAll ks i).Tidy := by
  induction ks generalizing m with
  | nil => exact h
  | cons k ks ih => exact ih (h.drop k i)

section Relink

variable {lt : κ → κ → Prop} [DecidableRel lt]

/-- Take away the links to what is only in the first range, and link what is only in the second. -/
def relink (lt : κ → κ → Prop) [DecidableRel lt] (m : Links κ ι) (before after : List κ) (i : ι) :
    Links κ ι :=
  (m.unlinkAll (setDifference lt before after) i).linkAll (setDifference lt after before) i

theorem mem_members_relink_of_ne {before after : List κ} {k : κ} {j : ι} (hj : j ≠ i) :
    j ∈ (m.relink lt before after i).members k ↔ j ∈ m.members k := by
  simp [relink, hj]

theorem mem_members_relink_self {before after : List κ} {k : κ}
    (hasymm : ∀ x y, lt x y → ¬lt y x) (hbefore : before.Nodup) (hafter : after.Nodup)
    (heq : ∀ x ∈ before, ∀ y ∈ after, ¬lt x y → ¬lt y x → x = y)
    (hlinked : (i ∈ m.members k ↔ k ∈ before) ∨ (i ∈ m.members k ↔ k ∈ after)) :
    i ∈ (m.relink lt before after i).members k ↔ k ∈ after := by
  obtain ⟨common, hcommon, hremoved, hadded⟩ := exists_common hasymm hbefore hafter heq
  unfold relink
  rw [mem_members_linkAll, mem_members_unlinkAll, hremoved, hadded]
  simp only [true_and]
  -- what is in both ranges and has not met itself is taken away and linked again
  by_cases hk : k ∈ common
  · obtain ⟨hkbefore, hkafter⟩ := hcommon k hk
    rcases hlinked with hlinked | hlinked
    · simp [hlinked, hk, hkbefore, hkafter]
    · simp [hlinked, hk, hkafter]
  · rcases hlinked with hlinked | hlinked
    · simp [hlinked, hk]
    · simp only [hlinked, hk]
      tauto

end Relink

theorem Inverts.update {m' : Links κ ι} {refers refers' : ι → κ → Prop} (h : m.Inverts refers)
    (hother : ∀ j, j ≠ i → ∀ k, (j ∈ m'.members k ↔ j ∈ m.members k) ∧ (refers' j k ↔ refers j k))
    (hself : ∀ k, i ∈ m'.members k ↔ refers' i k) : m'.Inverts refers' := by
  intro k j
  by_cases hj : j = i
  · subst hj
    exact hself k
  · obtain ⟨hlinks, hrefers⟩ := hother j hj k
    rw [hlinks, hrefers]
    exact h k j

end Links

end Meta1Core.Lib
