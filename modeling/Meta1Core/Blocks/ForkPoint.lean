import Meta1Core.Blocks.Irreversible
import Mathlib.Data.List.Chain
import Mathlib.Data.List.Perm.Subperm

/-!
# The point where two branches part (`fork_database::fetch_branch_from`)

Two branches whose links are alive are followed down to the blocks on top of their nearest common
ancestor.
-/

namespace Meta1Core.Blocks

open Lib (Reachable Succeeds StepsMeet)

variable {σ Id Block : Type}

namespace ForkDatabase

variable {P : BlockIds Id Block} {f f' : ForkDatabase Block} {item : ForkItem Block}
  {items : List (ForkItem Block)}

/-! ## Paths -/

structure Held (f : ForkDatabase Block) (items : List (ForkItem Block)) : Prop where
  mem : ∀ item ∈ items, item ∈ f.index
  linked : items.IsChain fun item prev => item.prev = some prev.ref

def SamePrevious (P : BlockIds Id Block) (firsts seconds : List (ForkItem Block)) : Prop :=
  ∃ a b, firsts.getLast? = some a ∧ seconds.getLast? = some b ∧ P.previous a.data = P.previous b.data

/-- The paths from two items down to, and without, their nearest common ancestor -/
structure ForkPaths (P : BlockIds Id Block) (f : ForkDatabase Block) (first second : ForkItem Block)
    (firsts seconds : List (ForkItem Block)) : Prop where
  first_head : firsts.head? = some first
  second_head : seconds.head? = some second
  first_held : Held f firsts
  second_held : Held f seconds
  same_previous : SamePrevious P firsts seconds
  disjoint : ∀ x ∈ firsts, ∀ y ∈ seconds, P.id x.data ≠ P.id y.data

namespace Held

theorem tail (h : Held f (item :: items)) : Held f items :=
  ⟨fun x hx => h.mem x (List.mem_cons_of_mem _ hx), h.linked.of_cons⟩

theorem right {passed : List (ForkItem Block)} (h : Held f (passed ++ items)) : Held f items :=
  ⟨fun x hx => h.mem x (List.mem_append_right _ hx), h.linked.right_of_append⟩

theorem branch (h : f.Wf P) (hheld : Held f items) : Branch P f items := by
  refine ⟨hheld.mem, ?_⟩
  induction items with
  | nil => exact List.IsChain.nil
  | cons item items ih =>
    cases items with
    | nil => exact List.IsChain.singleton _
    | cons prev rest =>
      obtain ⟨hlink, -⟩ := List.isChain_cons_cons.mp hheld.linked
      apply List.isChain_cons_cons.mpr
      refine ⟨h.links item (hheld.mem item List.mem_cons_self) prev ?_ hlink, ih hheld.tail⟩
      exact hheld.mem prev (List.mem_cons_of_mem _ List.mem_cons_self)

theorem blockNum_eq (h : f.Wf P) {x z : ForkItem Block} {xs : List (ForkItem Block)}
    (hheld : Held f (x :: xs)) (hlast : (x :: xs).getLast? = some z) :
    P.blockNum x.data = P.blockNum z.data + xs.length := by
  induction xs generalizing x with
  | nil =>
    obtain rfl : x = z := Option.some.inj hlast
    rfl
  | cons y ys ih =>
    obtain ⟨hlink, -⟩ := List.isChain_cons_cons.mp (hheld.branch h).linked
    have hnum := BlockIds.blockNum_eq_succ hlink
    rw [List.getLast?_cons_cons] at hlast
    have hrest := ih hheld.tail hlast
    rw [List.length_cons]
    omega

theorem blockNum_lt (h : f.Wf P) (hheld : Held f (item :: items)) :
    ∀ lower ∈ items, P.blockNum lower.data < P.blockNum item.data :=
  (List.pairwise_cons.mp (hheld.branch h).pairwise).1

theorem blockNum_le (h : f.Wf P) (hheld : Held f (item :: items)) :
    ∀ lower ∈ item :: items, P.blockNum lower.data ≤ P.blockNum item.data := by
  intro lower hlower
  rcases List.mem_cons.mp hlower with rfl | hlower
  · exact Nat.le_refl _
  · exact Nat.le_of_lt (hheld.blockNum_lt h lower hlower)

theorem length_le (h : f.Wf P) (hheld : Held f items) : items.length ≤ f.nextRef := by
  have hnodup : items.Nodup :=
    (hheld.branch h).pairwise.imp fun hlt heq => by
      rw [heq] at hlt
      exact Nat.lt_irrefl _ hlt
  have hsub : items.length ≤ f.index.length := (List.subperm_of_subset hnodup hheld.mem).length_le
  have hrefs : (f.index.map ForkItem.ref).length ≤ (List.range f.nextRef).length := by
    apply (List.subperm_of_subset h.refs_nodup _).length_le
    intro ref href
    obtain ⟨x, hx, rfl⟩ := List.mem_map.mp href
    exact List.mem_range.mpr (h.ref_lt x hx)
  rw [List.length_map, List.length_range] at hrefs
  exact hsub.trans hrefs

theorem split (h : f.Wf P) {x z : ForkItem Block} {xs : List (ForkItem Block)}
    (hheld : Held f (x :: xs)) (hlast : (x :: xs).getLast? = some z) (num : Nat)
    (hle : P.blockNum z.data ≤ num) (hge : num ≤ P.blockNum x.data) :
    ∃ passed y rest, x :: xs = passed ++ y :: rest ∧ P.blockNum y.data = num ∧
      ∀ item ∈ passed, num < P.blockNum item.data := by
  induction xs generalizing x with
  | nil =>
    obtain rfl : x = z := Option.some.inj hlast
    exact ⟨[], x, [], rfl, Nat.le_antisymm hle hge, fun _ h => nomatch h⟩
  | cons y ys ih =>
    by_cases heq : P.blockNum x.data = num
    · exact ⟨[], x, y :: ys, rfl, heq, fun _ h => nomatch h⟩
    obtain ⟨hlink, -⟩ := List.isChain_cons_cons.mp (hheld.branch h).linked
    have hnum := BlockIds.blockNum_eq_succ hlink
    rw [List.getLast?_cons_cons] at hlast
    obtain ⟨passed, z', rest, hsplit, hz', hpassed⟩ := ih hheld.tail hlast (by omega)
    refine ⟨x :: passed, z', rest, by rw [hsplit]; rfl, hz', fun item hitem => ?_⟩
    rcases List.mem_cons.mp hitem with rfl | hitem
    · omega
    · exact hpassed item hitem

end Held

variable {rest xs ys : List (ForkItem Block)} {newHead x y : ForkItem Block}

theorem parent_of_held (h : f.Wf P) {prev : ForkItem Block} (hheld : Held f (item :: prev :: rest)) :
    f.parent [] item = some prev :=
  parent_of_mem h (hheld.mem prev (List.mem_cons_of_mem _ List.mem_cons_self))
    (List.isChain_cons_cons.mp hheld.linked).1 []

theorem descend_held (h : f.Wf P) {num fuel : Nat} {top last : ForkItem Block}
    {passed : List (ForkItem Block)} (hheld : Held f (passed ++ last :: rest))
    (hhead : (passed ++ last :: rest).head? = some top)
    (hpassed : ∀ item ∈ passed, num < P.blockNum item.data) (hlast : P.blockNum last.data ≤ num)
    (hfuel : passed.length < fuel) : descend P f num fuel top = .ok (passed, last) := by
  induction passed generalizing top fuel with
  | nil =>
    cases hhead
    cases fuel with
    | zero => exact absurd hfuel (Nat.not_lt_zero _)
    | succ fuel => rw [descend, if_neg (Nat.not_lt.mpr hlast)]
  | cons item passed ih =>
    cases hhead
    cases fuel with
    | zero => exact absurd hfuel (Nat.not_lt_zero _)
    | succ fuel =>
      obtain ⟨prev, tail, htail⟩ : ∃ prev tail, passed ++ last :: rest = prev :: tail := by
        cases passed with
        | nil => exact ⟨_, _, rfl⟩
        | cons prev passed => exact ⟨_, _, rfl⟩
      have hparent : f.parent [] item = some prev := by
        rw [List.cons_append, htail] at hheld
        exact parent_of_held h hheld
      have hrest := ih hheld.tail (by rw [htail]; rfl)
        (fun x hx => hpassed x (List.mem_cons_of_mem _ hx)) (Nat.lt_of_succ_lt_succ hfuel)
      rw [descend, if_pos (hpassed item List.mem_cons_self), hparent]
      dsimp only
      rw [hrest]
      rfl

variable [DecidableEq Id]

theorem meet_held (h : f.Wf P) {fuel : Nat} (hx : Held f (x :: xs)) (hy : Held f (y :: ys))
    (hlength : xs.length = ys.length) (hsame : SamePrevious P (x :: xs) (y :: ys))
    (hdisjoint : ∀ a ∈ x :: xs, ∀ b ∈ y :: ys, P.id a.data ≠ P.id b.data) (hfuel : xs.length < fuel) :
    meet P f fuel x y = .ok (x :: xs, y :: ys) := by
  induction xs generalizing x y ys fuel with
  | nil =>
    cases fuel with
    | zero => exact absurd hfuel (Nat.not_lt_zero _)
    | succ fuel =>
      obtain rfl : ys = [] := List.length_eq_zero_iff.mp hlength.symm
      obtain ⟨a, b, ha, hb, hprevious⟩ := hsame
      obtain rfl : x = a := Option.some.inj ha
      obtain rfl : y = b := Option.some.inj hb
      rw [meet, if_neg (not_not.mpr hprevious)]
  | cons x' xs ih =>
    cases fuel with
    | zero => exact absurd hfuel (Nat.not_lt_zero _)
    | succ fuel =>
      cases ys with
      | nil => exact absurd hlength (Nat.succ_ne_zero _)
      | cons y' ys =>
        -- the next blocks differ, so the previous ones do
        have hne : P.previous x.data ≠ P.previous y.data := by
          rw [← (List.isChain_cons_cons.mp (hx.branch h).linked).1,
            ← (List.isChain_cons_cons.mp (hy.branch h).linked).1]
          exact hdisjoint x' (List.mem_cons_of_mem _ List.mem_cons_self) y'
            (List.mem_cons_of_mem _ List.mem_cons_self)
        have hrest := ih hx.tail hy.tail (Nat.succ.inj hlength)
          (by
            obtain ⟨a, b, ha, hb, hprevious⟩ := hsame
            rw [List.getLast?_cons_cons] at ha hb
            exact ⟨a, b, ha, hb, hprevious⟩)
          (fun a ha b hb => hdisjoint a (List.mem_cons_of_mem _ ha) b (List.mem_cons_of_mem _ hb))
          (Nat.lt_of_succ_lt_succ hfuel)
        rw [meet, if_pos hne, parent_of_held h hx, parent_of_held h hy]
        dsimp only
        rw [hrest]
        rfl

theorem ForkPaths.fetchBranchFrom (h : f.Wf P) {first second : ForkItem Block}
    {firsts seconds : List (ForkItem Block)} (hpaths : ForkPaths P f first second firsts seconds) :
    f.fetchBranchFrom P (P.id first.data) (P.id second.data) = .ok (firsts, seconds) := by
  obtain ⟨firstRest, rfl⟩ := List.head?_eq_some_iff.mp hpaths.first_head
  obtain ⟨secondRest, rfl⟩ := List.head?_eq_some_iff.mp hpaths.second_head
  obtain ⟨a, b, ha, hb, hprevious⟩ := hpaths.same_previous
  have hfirst := hpaths.first_held
  have hsecond := hpaths.second_held
  have hab : P.blockNum a.data = P.blockNum b.data := by
    unfold BlockIds.blockNum
    rw [hprevious]
  have ha_le := hfirst.blockNum_le h a (List.mem_of_getLast? ha)
  have hb_le := hsecond.blockNum_le h b (List.mem_of_getLast? hb)
  -- both sides go down to the lower of the two
  obtain ⟨passed, x, xs, hxs, hx, hpassed⟩ :=
    hfirst.split h ha (min (P.blockNum first.data) (P.blockNum second.data)) (by omega) (by omega)
  obtain ⟨passed', y, ys, hys, hy, hpassed'⟩ :=
    hsecond.split h hb (min (P.blockNum first.data) (P.blockNum second.data)) (by omega) (by omega)
  have hlength := hfirst.length_le h
  have hlength' := hsecond.length_le h
  have hmem := hfirst.mem first List.mem_cons_self
  have hmem' := hsecond.mem second List.mem_cons_self
  have hle := hfirst.blockNum_le h
  have hdisjoint := hpaths.disjoint
  rw [hxs] at hfirst ha hlength hle hdisjoint ⊢
  rw [hys] at hsecond hb hlength' hdisjoint ⊢
  rw [List.length_append, List.length_cons] at hlength hlength'
  have hdescend : descend P f (P.blockNum second.data) (f.nextRef + 1) first = .ok (passed, x) := by
    apply descend_held h hfirst (by rw [← hxs]; rfl) _ (by omega) (by omega)
    intro item hitem
    have hlt := hpassed item hitem
    have hle := hle item (List.mem_append_left _ hitem)
    omega
  have hdescend' : descend P f (P.blockNum x.data) (f.nextRef + 1) second = .ok (passed', y) := by
    apply descend_held h hsecond (by rw [← hys]; rfl) _ (by omega) (by omega)
    intro item hitem
    have hlt := hpassed' item hitem
    omega
  rw [List.getLast?_append_cons] at ha hb
  have hnum := hfirst.right.blockNum_eq h ha
  have hnum' := hsecond.right.blockNum_eq h hb
  have hmeet : meet P f (f.nextRef + 1) x y = .ok (x :: xs, y :: ys) :=
    meet_held h hfirst.right hsecond.right (by omega) ⟨a, b, ha, hb, hprevious⟩
      (fun u hu v hv => hdisjoint u (List.mem_append_right _ hu) v (List.mem_append_right _ hv))
      (by omega)
  unfold ForkDatabase.fetchBranchFrom
  rw [h.fetchBlock_of_mem hmem, h.fetchBlock_of_mem hmem']
  dsimp only
  rw [hdescend]
  show (descend P f (P.blockNum x.data) (f.nextRef + 1) second >>= _) = _
  rw [hdescend']
  show (meet P f (f.nextRef + 1) x y >>= _) = _
  rw [hmeet]
  rfl

/-! ## The nearest common ancestor -/

namespace ForkPaths

variable {first second : ForkItem Block} {firsts seconds : List (ForkItem Block)}

section

omit [DecidableEq Id]

theorem symm (hpaths : ForkPaths P f first second firsts seconds) :
    ForkPaths P f second first seconds firsts := by
  obtain ⟨a, b, ha, hb, hprevious⟩ := hpaths.same_previous
  exact ⟨hpaths.second_head, hpaths.first_head, hpaths.second_held, hpaths.first_held,
    ⟨b, a, hb, ha, hprevious.symm⟩, fun x hx y hy heq => hpaths.disjoint y hy x hx heq.symm⟩

theorem second_le (h : f.Wf P) (hpaths : ForkPaths P f first second firsts seconds) :
    ∀ y ∈ seconds, P.blockNum y.data ≤ P.blockNum second.data := by
  obtain ⟨rest, rfl⟩ := List.head?_eq_some_iff.mp hpaths.second_head
  exact hpaths.second_held.blockNum_le h

theorem cons (hpaths : ForkPaths P f first second firsts seconds) {top : ForkItem Block}
    (htop : top ∈ f.index) (hlink : top.prev = some first.ref)
    (hne : ∀ y ∈ seconds, P.id top.data ≠ P.id y.data) :
    ForkPaths P f top second (top :: firsts) seconds := by
  obtain ⟨rest, rfl⟩ := List.head?_eq_some_iff.mp hpaths.first_head
  obtain ⟨a, b, ha, hb, hprevious⟩ := hpaths.same_previous
  refine ⟨rfl, hpaths.second_head, ⟨List.forall_mem_cons.mpr ⟨htop, hpaths.first_held.mem⟩,
      List.isChain_cons_cons.mpr ⟨hlink, hpaths.first_held.linked⟩⟩,
    hpaths.second_held, ⟨a, b, ?_, hb, hprevious⟩, List.forall_mem_cons.mpr ⟨hne, hpaths.disjoint⟩⟩
  rw [List.getLast?_cons_cons]
  exact ha

theorem append (h : f.Wf P) {passed rest : List (ForkItem Block)} {top : ForkItem Block}
    (hpaths : ForkPaths P f first second firsts seconds)
    (hheld : Held f (passed ++ first :: rest)) (hhead : (passed ++ first :: rest).head? = some top)
    (hpassed : ∀ item ∈ passed, P.blockNum second.data < P.blockNum item.data) :
    ∃ firsts', ForkPaths P f top second firsts' seconds := by
  induction passed generalizing top with
  | nil =>
    obtain rfl : first = top := Option.some.inj hhead
    exact ⟨firsts, hpaths⟩
  | cons item passed ih =>
    obtain rfl : item = top := Option.some.inj hhead
    obtain ⟨next, tail, htail⟩ : ∃ next tail, passed ++ first :: rest = next :: tail := by
      cases passed with
      | nil => exact ⟨_, _, rfl⟩
      | cons next passed => exact ⟨_, _, rfl⟩
    obtain ⟨firsts', hpaths'⟩ := ih hheld.tail (by rw [htail]; rfl)
      fun x hx => hpassed x (List.mem_cons_of_mem _ hx)
    have hlink : item.prev = some next.ref := by
      have hlinked := hheld.linked
      rw [List.cons_append, htail] at hlinked
      exact (List.isChain_cons_cons.mp hlinked).1
    refine ⟨item :: firsts', hpaths'.cons (hheld.mem item List.mem_cons_self) hlink ?_⟩
    intro y hy heq
    have hlt := hpassed item List.mem_cons_self
    have hle := hpaths.second_le h y hy
    rw [BlockIds.blockNum_eq_of_id_eq heq] at hlt
    omega

end

end ForkPaths

omit [DecidableEq Id] in
theorem forkPaths_single (hx : x ∈ f.index) (hy : y ∈ f.index)
    (hprevious : P.previous x.data = P.previous y.data) (hne : P.id x.data ≠ P.id y.data) :
    ForkPaths P f x y [x] [y] where
  first_head := rfl
  second_head := rfl
  first_held := ⟨List.forall_mem_singleton.mpr hx, List.IsChain.singleton _⟩
  second_held := ⟨List.forall_mem_singleton.mpr hy, List.IsChain.singleton _⟩
  same_previous := ⟨x, y, rfl, rfl, hprevious⟩
  disjoint := List.forall_mem_singleton.mpr (List.forall_mem_singleton.mpr hne)

theorem exists_forkPaths_of_length (h : f.Wf P) (hx : Held f (x :: xs)) (hy : Held f (y :: ys))
    (hlength : xs.length = ys.length) (hsame : SamePrevious P (x :: xs) (y :: ys))
    (hne : P.id x.data ≠ P.id y.data) : ∃ firsts seconds, ForkPaths P f x y firsts seconds := by
  induction xs generalizing x y ys with
  | nil =>
    obtain rfl : ys = [] := List.length_eq_zero_iff.mp hlength.symm
    obtain ⟨a, b, ha, hb, hprevious⟩ := hsame
    obtain rfl : x = a := Option.some.inj ha
    obtain rfl : y = b := Option.some.inj hb
    exact ⟨_, _, forkPaths_single (hx.mem x List.mem_cons_self)
      (hy.mem y List.mem_cons_self) hprevious hne⟩
  | cons x' xs ih =>
    cases ys with
    | nil => exact absurd hlength (Nat.succ_ne_zero _)
    | cons y' ys =>
      by_cases hprevious : P.previous x.data = P.previous y.data
      · exact ⟨_, _, forkPaths_single (hx.mem x List.mem_cons_self)
          (hy.mem y List.mem_cons_self) hprevious hne⟩
      obtain ⟨hid, -⟩ := List.isChain_cons_cons.mp (hx.branch h).linked
      obtain ⟨hid', -⟩ := List.isChain_cons_cons.mp (hy.branch h).linked
      obtain ⟨a, b, ha, hb, hlast⟩ := hsame
      have hnum : P.blockNum x.data = P.blockNum y.data := by
        rw [hx.blockNum_eq h ha, hy.blockNum_eq h hb, hlength, BlockIds.blockNum, BlockIds.blockNum,
          hlast]
      rw [List.getLast?_cons_cons] at ha hb
      obtain ⟨firsts, seconds, hpaths⟩ := ih hx.tail hy.tail (Nat.succ.inj hlength)
        ⟨a, b, ha, hb, hlast⟩ (by rw [hid, hid']; exact hprevious)
      -- both are above everything on the paths from the next items
      have hpaths' : ForkPaths P f x y' (x :: firsts) seconds := by
        apply hpaths.cons (hx.mem x List.mem_cons_self)
          (List.isChain_cons_cons.mp hx.linked).1
        intro z hz heq
        have hle := hpaths.second_le h z hz
        have hsucc := BlockIds.blockNum_eq_succ hid'
        rw [BlockIds.blockNum_eq_of_id_eq heq] at hnum
        omega
      refine ⟨x :: firsts, y :: seconds, (hpaths'.symm.cons (hy.mem y List.mem_cons_self)
        (List.isChain_cons_cons.mp hy.linked).1 ?_).symm⟩
      intro z hz heq
      rcases List.mem_cons.mp hz with rfl | hz
      · exact hne heq.symm
      · have hle := hpaths.symm.second_le h z hz
        have hsucc := BlockIds.blockNum_eq_succ hid
        rw [← BlockIds.blockNum_eq_of_id_eq heq] at hle
        omega

theorem exists_forkPaths (h : f.Wf P) {first second : ForkItem Block}
    {firsts seconds : List (ForkItem Block)} (hfirst : Held f firsts)
    (hfirst_head : firsts.head? = some first) (hsecond : Held f seconds)
    (hsecond_head : seconds.head? = some second) (hsame : SamePrevious P firsts seconds)
    (hnot : ∀ y ∈ seconds, P.id y.data ≠ P.id first.data)
    (hnot' : ∀ x ∈ firsts, P.id x.data ≠ P.id second.data) :
    ∃ firsts' seconds', ForkPaths P f first second firsts' seconds' := by
  obtain ⟨firstRest, rfl⟩ := List.head?_eq_some_iff.mp hfirst_head
  obtain ⟨secondRest, rfl⟩ := List.head?_eq_some_iff.mp hsecond_head
  obtain ⟨a, b, ha, hb, hprevious⟩ := hsame
  have hab : P.blockNum a.data = P.blockNum b.data := by
    unfold BlockIds.blockNum
    rw [hprevious]
  have ha_le := hfirst.blockNum_le h a (List.mem_of_getLast? ha)
  have hb_le := hsecond.blockNum_le h b (List.mem_of_getLast? hb)
  obtain ⟨passed, x, xs, hxs, hx, hpassed⟩ :=
    hfirst.split h ha (min (P.blockNum first.data) (P.blockNum second.data)) (by omega) (by omega)
  obtain ⟨passed', y, ys, hys, hy, hpassed'⟩ :=
    hsecond.split h hb (min (P.blockNum first.data) (P.blockNum second.data)) (by omega) (by omega)
  have hle := hfirst.blockNum_lt h
  have hle' := hsecond.blockNum_lt h
  have hsecond_le := hsecond.blockNum_le h
  -- the lower of the two is one of the items on the common level
  have hxmem : x ∈ first :: firstRest := hxs ▸ List.mem_append_right _ List.mem_cons_self
  have hymem : y ∈ second :: secondRest := hys ▸ List.mem_append_right _ List.mem_cons_self
  have hne : P.id x.data ≠ P.id y.data := by
    rcases Nat.le_total (P.blockNum first.data) (P.blockNum second.data) with hlow | hlow
    · rcases List.mem_cons.mp hxmem with rfl | hlower
      · exact (hnot y hymem).symm
      · have hlt := hle x hlower
        omega
    · rcases List.mem_cons.mp hymem with rfl | hlower
      · exact hnot' x hxmem
      · have hlt := hle' y hlower
        omega
  rw [hxs] at hfirst ha
  rw [hys] at hsecond hb
  rw [List.getLast?_append_cons] at ha hb
  have hnum := hfirst.right.blockNum_eq h ha
  have hnum' := hsecond.right.blockNum_eq h hb
  obtain ⟨firsts', seconds', hpaths⟩ := exists_forkPaths_of_length h hfirst.right hsecond.right
    (by omega) ⟨a, b, ha, hb, hprevious⟩ hne
  obtain ⟨firsts'', hpaths'⟩ := hpaths.append h hfirst (by rw [← hxs]; rfl)
    fun item hitem => by
      have hlt := hpassed item hitem
      omega
  obtain ⟨seconds'', hpaths''⟩ := hpaths'.symm.append h hsecond (by rw [← hys]; rfl)
    fun item hitem => by
      have hlt := hpassed' item hitem
      have hle := hsecond_le item (hys ▸ List.mem_append_left _ hitem)
      omega
  exact ⟨firsts'', seconds'', hpaths''.symm⟩

inductive Call (Block Id : Type) where
  | pushBlock (b : Block)
  | popBlock (held : List (ForkItem Block))
  | setMaxSize (size : Nat)
  | remove (held : List (ForkItem Block)) (id : Id)
  | setHead (item : ForkItem Block)

def call (P : BlockIds Id Block) (f : ForkDatabase Block) : Call Block Id →
    Except Exception (ForkDatabase Block)
  | .pushBlock b => do return (← f.pushBlock P b).1
  | .popBlock held => f.popBlock held
  | .setMaxSize size => .ok (f.setMaxSize P size)
  | .remove held id => .ok (f.remove P held id)
  | .setHead item => .ok (f.setHead item)

theorem Wf.insertItem_of_link (h : f.Wf P) {b : Block} {prev : Option Nat}
    (hprev : P.previous b = P.zero ∧ prev = none ∨
      ∃ parent, f.fetchBlock P (P.previous b) = some parent ∧ prev = some parent.ref) :
    (f.insertItem P ⟨f.nextRef, b, prev⟩).Wf P := by
  apply h.insertItem
  intro ref href
  rcases hprev with ⟨-, hnone⟩ | ⟨parent, hfound, hlink⟩
  · rw [hnone] at href
    cases href
  · obtain ⟨hmem, hid⟩ := fetchBlock_eq_some hfound
    rw [hlink] at href
    exact ⟨parent, hmem, Option.some.inj href, hid⟩

theorem Wf.pushBlock (h : f.Wf P) {b : Block} (hpush : f.pushBlock P b = .ok (f', newHead)) :
    f'.Wf P := by
  rcases pushBlock_eq_ok hpush with ⟨-, rfl, rfl⟩ | ⟨head, prev, -, -, -, rfl, hlink⟩ |
    ⟨head, prev, -, -, rfl, rfl, hprev⟩
  · have hwf : (f.insertItem P ⟨f.nextRef, b, none⟩).Wf P :=
      h.insertItem fun ref href => absurd href.symm (Option.some_ne_none ref)
    exact hwf.of_sublist (List.Sublist.refl _) rfl
  · exact h.insertItem hlink
  · exact (h.insertItem_of_link hprev).of_sublist List.filter_sublist rfl

theorem Wf.call (h : f.Wf P) {c : Call Block Id} (hcall : f.call P c = .ok f') : f'.Wf P := by
  cases c with
  | pushBlock b =>
    obtain ⟨⟨g, newHead⟩, hpush, hret⟩ := Lib.of_bind hcall
    cases hret
    exact h.pushBlock hpush
  | popBlock held =>
    unfold ForkDatabase.call popBlock at hcall
    dsimp only at hcall
    split at hcall
    · cases hcall
    · split at hcall
      · cases hcall
      · cases hcall
        exact h.of_sublist (List.Sublist.refl _) rfl
  | setMaxSize size =>
    cases hcall
    unfold setMaxSize prune
    dsimp only
    split
    · exact h.of_sublist (List.Sublist.refl _) rfl
    · exact h.of_sublist List.filter_sublist rfl
  | remove held id =>
    cases hcall
    obtain ⟨hindex, hnext, -⟩ := remove_index (P := P) (f := f) held id
    apply h.of_sublist _ hnext
    rw [hindex]
    exact List.filter_sublist
  | setHead item =>
    cases hcall
    exact h.of_sublist (List.Sublist.refl _) rfl

theorem wf_of_reachable
    (h : Reachable (call P) (· = ({} : ForkDatabase Block)) (fun _ _ => True) f) : f.Wf P := by
  refine h.invariant (Wf P) ?_ ?_
  · rintro f rfl
    exact ⟨List.nodup_nil, List.nodup_nil, fun _ h => (nomatch h), fun _ h => (nomatch h),
      fun _ h => (nomatch h)⟩
  · intro f c f' hf _ hcall
    exact hf.call hcall

/-- An item from `num` on whose parent is not in the index, or below `num` -/
def Bottom (P : BlockIds Id Block) (f : ForkDatabase Block) (num : Nat) (item : ForkItem Block) :
    Prop :=
  num ≤ P.blockNum item.data ∧ ∀ p ∈ f.index, item.prev = some p.ref → P.blockNum p.data < num

/-- The items from `num` on are one tree: the lowest ones of them are on top of the same block. -/
def TreeAbove (P : BlockIds Id Block) (f : ForkDatabase Block) (num : Nat) : Prop :=
  ∀ x ∈ f.index, ∀ y ∈ f.index, Bottom P f num x → Bottom P f num y →
    P.previous x.data = P.previous y.data

omit [DecidableEq Id] in
instance (P : BlockIds Id Block) (f : ForkDatabase Block) (num : Nat) (item : ForkItem Block) :
    Decidable (Bottom P f num item) :=
  inferInstanceAs (Decidable (_ ∧ ∀ _ ∈ _, _ → _))

instance (P : BlockIds Id Block) (f : ForkDatabase Block) (num : Nat) :
    Decidable (TreeAbove P f num) :=
  inferInstanceAs (Decidable (∀ _ ∈ _, ∀ _ ∈ _, _ → _ → _))

omit [DecidableEq Id] in
theorem exists_held (h : f.Wf P) (hx : x ∈ f.index) :
    ∃ xs z, Held f (x :: xs) ∧ (x :: xs).getLast? = some z ∧
      ∀ p ∈ f.index, z.prev ≠ some p.ref := by
  -- the number goes down along the links
  induction hn : P.blockNum x.data using Nat.strong_induction_on generalizing x with
  | h n ih =>
    by_cases hparent : ∃ p ∈ f.index, x.prev = some p.ref
    · obtain ⟨p, hp, hlink⟩ := hparent
      have hnum := BlockIds.blockNum_eq_succ (h.links x hx p hp hlink)
      obtain ⟨xs, z, hheld, hlast, hbottom⟩ := ih (P.blockNum p.data) (by omega) hp rfl
      refine ⟨p :: xs, z, ⟨List.forall_mem_cons.mpr ⟨hx, hheld.mem⟩,
        List.isChain_cons_cons.mpr ⟨hlink, hheld.linked⟩⟩, ?_, hbottom⟩
      rw [List.getLast?_cons_cons]
      exact hlast
    · exact ⟨[], x, ⟨List.forall_mem_singleton.mpr hx, List.IsChain.singleton _⟩, rfl,
        fun p hp hlink => hparent ⟨p, hp, hlink⟩⟩

theorem mem_pushed {num : Nat} :
    x ∈ (prune P { f.insertItem P newHead with head := some newHead } num).index ↔
      x ∈ (f.insertItem P newHead).index ∧ num - f.maxSize ≤ P.blockNum x.data := by
  unfold prune
  rw [List.mem_filter, decide_eq_true_iff]
  rfl

end ForkDatabase

open ForkDatabase (Held SamePrevious ForkPaths TreeAbove)

variable [DecidableEq Id]

/-! ## Switches -/

/-- The block makes the fork database choose a head that neither extends the head block nor is at
most as high. -/
def Switches (P : ChainLogic σ Id Block) (s : Node σ Block) (b : Block)
    (fork : ForkDatabase Block) (newHead : ForkItem Block) : Prop :=
  s.fork.pushBlock P.toBlockIds b = .ok (fork, newHead) ∧
    P.previous newHead.data ≠ P.headId s.state ∧ P.headNum s.state < P.blockNum newHead.data

def SwitchesToSome (P : ChainLogic σ Id Block) (s : Node σ Block) (b : Block) : Prop :=
  Succeeds (s.fork.pushBlock P.toBlockIds b) fun pushed =>
    P.previous pushed.2.data ≠ P.headId s.state ∧ P.headNum s.state < P.blockNum pushed.2.data

instance (P : ChainLogic σ Id Block) (s : Node σ Block) (b : Block) :
    Decidable (SwitchesToSome P s b) :=
  inferInstanceAs (Decidable (Succeeds _ _))

def Linked (P : ChainLogic σ Id Block) (s : Node σ Block) (b : Block) : Prop :=
  s.fork.head.isSome ∧ TreeAbove P.toBlockIds s.fork (P.blockNum b - s.fork.maxSize)

instance (P : ChainLogic σ Id Block) (s : Node σ Block) (b : Block) : Decidable (Linked P s b) :=
  inferInstanceAs (Decidable (_ ∧ _))

/-- A block that switches finds a tree, and the undo history and the windows cover the switch. -/
def SwitchesSafely (P : ChainLogic σ Id Block) (s : Node σ Block) (b : Block) : Prop :=
  ∀ fork newHead, Switches P s b fork newHead → Linked P s b ∧
    ∀ head firsts seconds, ForkPaths P.toBlockIds fork newHead head firsts seconds →
      P.id head.data = P.headId s.state → SwitchCovered P s (firsts, seconds)

variable {P : ChainLogic σ Id Block} {s : Node σ Block} {b : Block}

/-- What `fetch_branch_from` requires of a switch: the new head and the head block are linked, neither
is an ancestor of the other, and the paths to a common ancestor are held. -/
structure Meeting (P : ChainLogic σ Id Block) (s : Node σ Block) (fork : ForkDatabase Block)
    (newHead head : ForkItem Block) (firsts seconds : List (ForkItem Block)) : Prop where
  head_id : P.id head.data = P.headId s.state
  first_held : Held fork firsts
  first_head : firsts.head? = some newHead
  second_held : Held fork seconds
  second_head : seconds.head? = some head
  same_previous : SamePrevious P.toBlockIds firsts seconds
  not_ancestor : ∀ y ∈ seconds, P.id y.data ≠ P.id newHead.data
  not_ancestor' : ∀ x ∈ firsts, P.id x.data ≠ P.id head.data

theorem Settled.exists_meeting (h : Settled P s) {fork : ForkDatabase Block}
    {newHead : ForkItem Block} (hswitches : Switches P s b fork newHead) (hlinked : Linked P s b) :
    fork.Wf P.toBlockIds ∧
      ∃ head firsts seconds, Meeting P s fork newHead head firsts seconds := by
  obtain ⟨hpush, hne, hlt⟩ := hswitches
  rcases ForkDatabase.pushBlock_eq_ok hpush with ⟨hnone, -, -⟩ |
    ⟨head, prev, hhead, -, rfl, -, -⟩ | ⟨head, prev, hhead, hhigher, hnew, hfork, hprev⟩
  · have hsome := hlinked.1
    rw [hnone] at hsome
    cases hsome
  · -- the head of the fork database is the head block
    rw [h.headNum_eq hhead] at hlt
    exact absurd hlt (Nat.lt_irrefl _)
  obtain ⟨parent, hraised⟩ := h.raised hhead hhigher hnew hfork hprev
  have hwf := hraised.wf
  obtain ⟨xs, z, hx, hz, hbottom⟩ := ForkDatabase.exists_held hwf hraised.newHead_mem
  obtain ⟨ys, w, hy, hw, hbottom'⟩ := ForkDatabase.exists_held hwf hraised.old_mem
  have hid := h.head_id head hhead
  -- an item without a parent in the index was at the bottom before
  have hbottoms {v : ForkItem Block} (hv : v ∈ fork.index)
      (hnoparent : ∀ p ∈ fork.index, v.prev ≠ some p.ref) :
      v ∈ s.fork.index ∧
        ForkDatabase.Bottom P.toBlockIds s.fork (P.blockNum b - s.fork.maxSize) v := by
    have hmem := hv
    rw [hfork, ForkDatabase.mem_pushed] at hmem
    rcases ForkDatabase.mem_insertItem hmem.1 with hold | rfl
    · refine ⟨hold, hmem.2, fun p hp hlink => ?_⟩
      by_contra hnum
      refine hnoparent p ?_ hlink
      rw [hfork, ForkDatabase.mem_pushed]
      exact ⟨ForkDatabase.mem_insertItem_of_mem hp, Nat.le_of_not_lt hnum⟩
    · exact absurd hraised.parent_link (hnoparent parent hraised.parent_mem)
  obtain ⟨hz_old, hz_bottom⟩ := hbottoms (hx.mem z (List.mem_of_getLast? hz)) hbottom
  obtain ⟨hw_old, hw_bottom⟩ := hbottoms (hy.mem w (List.mem_of_getLast? hw)) hbottom'
  refine ⟨hwf, head, newHead :: xs, head :: ys, hid, hx, rfl, hy, rfl,
    ⟨z, w, hz, hw, hlinked.2 z hz_old w hw_old hz_bottom hw_bottom⟩, ?_, ?_⟩
  · intro y hymem heq
    have hle := hy.blockNum_le hwf y hymem
    have hnum := hraised.num
    rw [BlockIds.blockNum_eq_of_id_eq heq] at hle
    omega
  · intro x hxmem heq
    have hnum := hraised.num
    rcases List.mem_cons.mp hxmem with rfl | hxmem
    · rw [BlockIds.blockNum_eq_of_id_eq heq] at hnum
      omega
    cases xs with
    | nil => cases hxmem
    | cons x' xs =>
      have hlink := (List.isChain_cons_cons.mp (hx.branch hwf).linked).1
      rcases List.mem_cons.mp hxmem with rfl | hlower
      · exact hne (hlink.symm.trans (heq.trans hid))
      · have hlt := hx.tail.blockNum_lt hwf x hlower
        have hsucc := BlockIds.blockNum_eq_succ hlink
        rw [BlockIds.blockNum_eq_of_id_eq heq] at hlt
        omega

theorem Settled.exists_forkPaths (h : Settled P s) {fork : ForkDatabase Block}
    {newHead : ForkItem Block} (hswitches : Switches P s b fork newHead) (hlinked : Linked P s b) :
    ∃ head firsts seconds, Meeting P s fork newHead head firsts seconds ∧
      ∃ firsts' seconds',
        fork.fetchBranchFrom P.toBlockIds (P.id newHead.data) (P.headId s.state) =
          .ok (firsts', seconds') ∧
        ForkPaths P.toBlockIds fork newHead head firsts' seconds' := by
  obtain ⟨hwf, head, firsts, seconds, hmeeting⟩ := h.exists_meeting hswitches hlinked
  obtain ⟨firsts', seconds', hpaths⟩ := ForkDatabase.exists_forkPaths hwf hmeeting.first_held
    hmeeting.first_head hmeeting.second_held hmeeting.second_head hmeeting.same_previous
    hmeeting.not_ancestor hmeeting.not_ancestor'
  have hfetch := hpaths.fetchBranchFrom hwf
  rw [hmeeting.head_id] at hfetch
  exact ⟨head, firsts, seconds, hmeeting, firsts', seconds', hfetch, hpaths⟩

theorem Settled.covered (h : Settled P s) (hsafe : SwitchesSafely P s b) : Covered P s b := by
  unfold Covered
  split
  · trivial
  · rename_i fork newHead hpush
    by_cases hprevious : P.previous newHead.data = P.headId s.state
    · exact .inl hprevious
    by_cases hlow : P.blockNum newHead.data ≤ P.headNum s.state
    · exact .inr (.inl hlow)
    have hswitches : Switches P s b fork newHead := ⟨hpush, hprevious, Nat.lt_of_not_le hlow⟩
    obtain ⟨hlinked, hcovered⟩ := hsafe fork newHead hswitches
    obtain ⟨head, firsts', seconds', hmeeting, firsts, seconds, hfetch, hpaths⟩ :=
      h.exists_forkPaths hswitches hlinked
    exact .inr (.inr ⟨(firsts, seconds), hfetch,
      hcovered head firsts seconds hpaths hmeeting.head_id⟩)

/-- In any fork database, two items with paths to a common ancestor, neither an ancestor of the
other, have the paths down to the nearest one as their branches.  In every run of safe switches, a
block that switches in a tree makes the node ask for such items. -/
theorem fetchBranchFrom_finds_forkPoint (P : ChainLogic σ Id Block) :
    (∀ f, Reachable (ForkDatabase.call P.toBlockIds) (· = ({} : ForkDatabase Block))
        (fun _ _ => True) f →
      ∀ first second firsts seconds, Held f firsts → firsts.head? = some first →
        Held f seconds → seconds.head? = some second →
        SamePrevious P.toBlockIds firsts seconds →
        (∀ y ∈ seconds, P.id y.data ≠ P.id first.data) →
        (∀ x ∈ firsts, P.id x.data ≠ P.id second.data) →
        ∃ firsts' seconds',
          f.fetchBranchFrom P.toBlockIds (P.id first.data) (P.id second.data) =
            .ok (firsts', seconds') ∧
          ForkPaths P.toBlockIds f first second firsts' seconds') ∧
    ∀ s, Reachable (Node.push P) (· = Node.start P) (SwitchesSafely P) s →
      ∀ b fork newHead, Switches P s b fork newHead → Linked P s b →
        ∃ head firsts seconds, Meeting P s fork newHead head firsts seconds ∧
          ∃ firsts' seconds',
            fork.fetchBranchFrom P.toBlockIds (P.id newHead.data) (P.headId s.state) =
              .ok (firsts', seconds') ∧
            ForkPaths P.toBlockIds fork newHead head firsts' seconds' := by
  constructor
  · intro f hreach first second firsts seconds hfirst hfirst_head hsecond hsecond_head hsame hnot
      hnot'
    have hwf := ForkDatabase.wf_of_reachable hreach
    obtain ⟨firsts', seconds', hpaths⟩ := ForkDatabase.exists_forkPaths hwf hfirst hfirst_head
      hsecond hsecond_head hsame hnot hnot'
    exact ⟨firsts', seconds', hpaths.fetchBranchFrom hwf, hpaths⟩
  · intro s hreach b fork newHead hswitches hlinked
    have hsettled : Settled P s := by
      refine hreach.invariant (Settled P) ?_ ?_
      · rintro s rfl
        exact settled_start
      · intro s b s' hs hsafe hstep
        cases hstep
        exact (hs.pushBlock (hs.covered hsafe)).settled
    exact hsettled.exists_forkPaths hswitches hlinked

/-- In every run of safe switches nothing that the fork database holds is above the head block, and no
push lowers it, whether it returns or throws. -/
theorem head_longest (h : Reachable (Node.push P) (· = Node.start P) (SwitchesSafely P) s) :
    (∀ item ∈ s.fork.index, P.blockNum item.data ≤ P.headNum s.state) ∧
    (∀ head, s.fork.head = some head → head ∈ s.fork.index ∧ P.id head.data = P.headId s.state) ∧
    ∀ b, SwitchesSafely P s b → P.headNum s.state ≤ P.headNum (s.pushBlock P b).1.state := by
  have hsettled : Settled P s := by
    apply h.invariant (Settled P)
    · rintro s rfl
      exact settled_start
    · intro s b s' hs hsafe hstep
      cases hstep
      exact (hs.pushBlock (hs.covered hsafe)).settled
  refine ⟨hsettled.below, fun head hhead => ⟨hsettled.head_mem head hhead, hsettled.head_id head hhead⟩,
    fun b hsafe => ?_⟩
  have hatomic := hsettled.pushBlock (hsettled.covered hsafe)
  cases hpush : s.pushBlock P b with
  | mk s' outcome =>
    rw [hpush] at hatomic
    cases outcome with
    | ok r => exact headNum_le_of_pushBlock hsettled.replayed hpush
    | error e => exact Nat.le_of_eq (congrArg P.headNum (hatomic.state e rfl).symm)

def forkedItems : List (ForkItem PathBlock) :=
  [⟨0, ⟨[], 1, true⟩, none⟩, ⟨1, ⟨[1], 2, true⟩, some 0⟩, ⟨2, ⟨[1], 3, true⟩, some 0⟩,
    ⟨3, ⟨[3, 1], 4, true⟩, some 2⟩]

theorem fetchBranchFrom_finds_forkPoint_path :
    (∃ f firsts seconds, (∀ item ∈ forkedItems, item ∈ f.index) ∧
      f.fetchBranchFrom pathLogic.toBlockIds [4, 3, 1] [2, 1] = .ok (firsts, seconds) ∧
      ForkPaths pathLogic.toBlockIds f ⟨3, ⟨[3, 1], 4, true⟩, some 2⟩ ⟨1, ⟨[1], 2, true⟩, some 0⟩
        firsts seconds) ∧
    ∃ s fork newHead head firsts seconds, Switches pathLogic s ⟨[3, 1], 4, true⟩ fork newHead ∧
      fork.fetchBranchFrom pathLogic.toBlockIds (pathLogic.id newHead.data)
        (pathLogic.headId s.state) = .ok (firsts, seconds) ∧
      ForkPaths pathLogic.toBlockIds fork newHead head firsts seconds := by
  constructor
  · obtain ⟨f, hreach, hmem⟩ : ∃ f, Reachable (ForkDatabase.call pathLogic.toBlockIds)
        (· = ({} : ForkDatabase PathBlock)) (fun _ _ => True) f ∧
        ∀ item ∈ forkedItems, item ∈ f.index :=
      Reachable.of_run [.pushBlock ⟨[], 1, true⟩, .pushBlock ⟨[1], 2, true⟩,
        .pushBlock ⟨[1], 3, true⟩, .pushBlock ⟨[3, 1], 4, true⟩] rfl
        (.of_forall (fun _ _ _ => trivial) _) (by decide)
    have hheld (items : List (ForkItem PathBlock)) (hsub : items ⊆ forkedItems)
        (hlinked : items.IsChain fun item prev => item.prev = some prev.ref) : Held f items :=
      ⟨fun item hitem => hmem item (hsub hitem), hlinked⟩
    obtain ⟨firsts, seconds, hfetch, hpaths⟩ := (fetchBranchFrom_finds_forkPoint pathLogic).1 f hreach
      ⟨3, ⟨[3, 1], 4, true⟩, some 2⟩ ⟨1, ⟨[1], 2, true⟩, some 0⟩
      [⟨3, ⟨[3, 1], 4, true⟩, some 2⟩, ⟨2, ⟨[1], 3, true⟩, some 0⟩, ⟨0, ⟨[], 1, true⟩, none⟩]
      [⟨1, ⟨[1], 2, true⟩, some 0⟩, ⟨0, ⟨[], 1, true⟩, none⟩]
      (hheld _ (by decide) (by decide)) rfl (hheld _ (by decide) (by decide)) rfl
      ⟨_, _, rfl, rfl, rfl⟩ (by decide) (by decide)
    exact ⟨f, firsts, seconds, hmem, hfetch, hpaths⟩
  · obtain ⟨s, hreach, ⟨⟨fork, newHead⟩, hpush, hne, hlt⟩, hlinked⟩ :
        ∃ s, Reachable (Node.push pathLogic) (· = Node.start pathLogic)
          (fun s b => ¬ SwitchesToSome pathLogic s b) s ∧
        SwitchesToSome pathLogic s ⟨[3, 1], 4, true⟩ ∧ Linked pathLogic s ⟨[3, 1], 4, true⟩ :=
      Reachable.of_run [⟨[], 1, true⟩, ⟨[1], 2, true⟩, ⟨[1], 3, true⟩] rfl (by decide) (by decide)
    -- nothing switches before, so that every step is safe
    have hsafe : Reachable (Node.push pathLogic) (· = Node.start pathLogic)
        (SwitchesSafely pathLogic) s :=
      hreach.mono fun s b hquiet fork newHead hswitches =>
        absurd ⟨(fork, newHead), hswitches⟩ hquiet
    obtain ⟨head, -, -, -, firsts, seconds, hfetch, hpaths⟩ :=
      (fetchBranchFrom_finds_forkPoint pathLogic).2 s hsafe _ fork newHead ⟨hpush, hne, hlt⟩ hlinked
    exact ⟨s, fork, newHead, head, firsts, seconds, ⟨hpush, hne, hlt⟩, hfetch, hpaths⟩

theorem head_longest_fork :
    ∃ s : Node (List Nat) PathBlock, (∃ item ∈ s.fork.index, item.data = ⟨[1], 3, true⟩) ∧
      ∀ item ∈ s.fork.index, pathLogic.blockNum item.data ≤ pathLogic.headNum s.state := by
  obtain ⟨s, hreach, hmem⟩ : ∃ s, Reachable (Node.push pathLogic) (· = Node.start pathLogic)
        (fun s b => ¬ SwitchesToSome pathLogic s b) s ∧
      ∃ item ∈ s.fork.index, item.data = ⟨[1], 3, true⟩ :=
    Reachable.of_run [⟨[], 1, true⟩, ⟨[1], 2, true⟩, ⟨[1], 3, true⟩] rfl (by decide) (by decide)
  -- nothing switches, so that every step is safe
  have hsafe : Reachable (Node.push pathLogic) (· = Node.start pathLogic) (SwitchesSafely pathLogic) s :=
    hreach.mono fun s b hquiet fork newHead hswitches =>
      absurd ⟨(fork, newHead), hswitches⟩ hquiet
  exact ⟨s, hmem, (head_longest hsafe).1⟩

def takenTurns (tag : Nat) : Nat → List (Nat × Nat)
  | 0 => []
  | n + 1 => (n % 3, tag) :: takenTurns tag n

def turn (tag n : Nat) : SignedBlock := ⟨takenTurns tag n, n % 3, tag⟩

def sideBySide : Nat → List SignedBlock
  | 0 => []
  | n + 1 => sideBySide n ++ [turn 0 n, turn 1 n]

/-- The window moves past the blocks where the chains part, but the upper part of the other chain
stays, and when it becomes longer its link is dead. -/
theorem fetchBranchFrom_dead_link :
    ∃ s fork newHead, Reachable (Node.push witnessLogic.toChainLogic)
        (· = Node.start witnessLogic.toChainLogic) (fun _ _ => True) s ∧
      Switches witnessLogic.toChainLogic s (turn 1 6) fork newHead ∧
      fork.fetchBranchFrom witnessLogic.toBlockIds (witnessLogic.id newHead.data)
        (witnessLogic.headId s.state) = .error (.fc "first_branch") := by
  obtain ⟨s, hreach, hend⟩ : ∃ s, Reachable (Node.push witnessLogic.toChainLogic)
      (· = Node.start witnessLogic.toChainLogic) (fun _ _ => True) s ∧
      (match s.fork.pushBlock witnessLogic.toBlockIds (turn 1 6) with
        | .error _ => false
        | .ok (fork, newHead) =>
          decide (witnessLogic.previous newHead.data ≠ witnessLogic.headId s.state) &&
          decide (witnessLogic.headNum s.state < witnessLogic.blockNum newHead.data) &&
          match fork.fetchBranchFrom witnessLogic.toBlockIds (witnessLogic.id newHead.data)
              (witnessLogic.headId s.state) with
          | .error e => decide (e = .fc "first_branch")
          | .ok _ => false) = true :=
    Reachable.of_run (sideBySide 6) rfl (.of_forall (fun _ _ _ => trivial) _) (by decide +kernel)
  cases hpush : s.fork.pushBlock witnessLogic.toBlockIds (turn 1 6) with
  | error e =>
    rw [hpush] at hend
    cases hend
  | ok pushed =>
    rw [hpush] at hend
    dsimp only at hend
    rw [Bool.and_eq_true, Bool.and_eq_true, decide_eq_true_iff, decide_eq_true_iff] at hend
    obtain ⟨⟨hprevious, hnum⟩, hend⟩ := hend
    refine ⟨s, pushed.1, pushed.2, hreach, ⟨hpush, hprevious, hnum⟩, ?_⟩
    cases hfetch : pushed.1.fetchBranchFrom witnessLogic.toBlockIds (witnessLogic.id pushed.2.data)
        (witnessLogic.headId s.state) with
    | error e =>
      rw [hfetch] at hend
      rw [of_decide_eq_true hend]
    | ok branches =>
      rw [hfetch] at hend
      cases hend

end Meta1Core.Blocks
