import Mathlib.Data.List.Forall2
import Mathlib.Tactic.Common

/-!
# Hash trees

A list of digests is hashed in pairs, level by level, until one digest is left; the last one of a
level that has no partner goes up unhashed.  Two trees with the same digest at the root are compared
from the root down: they have the same leaves, or the hash has collided on two of the pairs that
were hashed, or where one tree has a leaf the other still has a pair.
-/

namespace Meta1Core.Lib

universe u

variable {D : Type u} (hash : D × D → D)

def hashPairs : List D → List D
  | a :: b :: ds => hash (a, b) :: hashPairs ds
  | ds => ds

def levelPairs : List D → List (D × D)
  | a :: b :: ds => (a, b) :: levelPairs ds
  | _ => []

theorem length_hashPairs : ∀ ds : List D, (hashPairs hash ds).length = (ds.length + 1) / 2
  | [] => by simp [hashPairs]
  | [_] => by simp [hashPairs]
  | _ :: _ :: ds => by
    rw [hashPairs, List.length_cons, length_hashPairs ds, List.length_cons, List.length_cons]
    omega

theorem length_hashPairs_lt (e : D) (ds : List D) :
    (hashPairs hash ds).length < (e :: ds).length := by
  rw [length_hashPairs, List.length_cons]
  omega

def rootDigest (d : D) : List D → D
  | [] => d
  | e :: ds => rootDigest (hash (d, e)) (hashPairs hash ds)
termination_by ds => ds.length
decreasing_by exact length_hashPairs_lt hash e ds

def hashedPairs (d : D) : List D → List (D × D)
  | [] => []
  | e :: ds =>
    levelPairs (d :: e :: ds) ++ hashedPairs (hash (d, e)) (hashPairs hash ds)
termination_by ds => ds.length
decreasing_by exact length_hashPairs_lt hash e ds

theorem hashedPairs_cons (d e : D) (ds : List D) :
    hashedPairs hash d (e :: ds) =
      levelPairs (d :: e :: ds) ++ hashedPairs hash (hash (d, e)) (hashPairs hash ds) := by
  rw [hashedPairs]

inductive HashTree (D : Type u) where
  | leaf (d : D)
  | node (l r : HashTree D)

namespace HashTree

def digest : HashTree D → D
  | .leaf d => d
  | .node l r => hash (l.digest, r.digest)

def leaves : HashTree D → List D
  | .leaf d => [d]
  | .node l r => l.leaves ++ r.leaves

def pairs : HashTree D → List (D × D)
  | .leaf _ => []
  | .node l r => (l.digest hash, r.digest hash) :: (l.pairs ++ r.pairs)

inductive SameShape : HashTree D → HashTree D → Prop where
  | leaf (d e : D) : SameShape (.leaf d) (.leaf e)
  | node {l l' r r' : HashTree D} (left : SameShape l l') (right : SameShape r r') :
    SameShape (.node l r) (.node l' r')

def Collide (t u : HashTree D) : Prop :=
  ∃ p ∈ t.pairs hash, ∃ q ∈ u.pairs hash, p ≠ q ∧ hash p = hash q

def LeafIsHash (t u : HashTree D) : Prop :=
  ∃ d ∈ t.leaves, ∃ q ∈ u.pairs hash, d = hash q

variable {hash}

variable {l l' r r' t u : HashTree D}

theorem Collide.node (h : Collide hash t u) (ht : t.pairs hash ⊆ l.pairs hash ++ r.pairs hash)
    (hu : u.pairs hash ⊆ l'.pairs hash ++ r'.pairs hash) :
    Collide hash (.node l r) (.node l' r') := by
  obtain ⟨p, hp, q, hq, hne, heq⟩ := h
  exact ⟨p, List.mem_cons_of_mem _ (ht hp), q, List.mem_cons_of_mem _ (hu hq), hne, heq⟩

theorem LeafIsHash.node (h : LeafIsHash hash t u) (ht : t.leaves ⊆ l.leaves ++ r.leaves)
    (hu : u.pairs hash ⊆ l'.pairs hash ++ r'.pairs hash) :
    LeafIsHash hash (.node l r) (.node l' r') := by
  obtain ⟨d, hd, q, hq, heq⟩ := h
  exact ⟨d, ht hd, q, List.mem_cons_of_mem _ (hu hq), heq⟩

theorem leaves_eq_of_sameShape (hshape : SameShape t u) (h : t.digest hash = u.digest hash) :
    t.leaves = u.leaves ∨ Collide hash t u := by
  induction hshape with
  | leaf d e =>
    left
    show [d] = [e]
    rw [show d = e from h]
  | @node l l' r r' left right ihl ihr =>
    by_cases hne : (l.digest hash, r.digest hash) = (l'.digest hash, r'.digest hash)
    · obtain ⟨hl, hr⟩ := Prod.mk.inj hne
      rcases ihl hl with hl | hl
      · rcases ihr hr with hr | hr
        · left
          show l.leaves ++ r.leaves = l'.leaves ++ r'.leaves
          rw [hl, hr]
        · exact .inr (hr.node (List.subset_append_right _ _) (List.subset_append_right _ _))
      · exact .inr (hl.node (List.subset_append_left _ _) (List.subset_append_left _ _))
    · exact .inr ⟨_, List.mem_cons_self, _, List.mem_cons_self, hne, h⟩

theorem leaves_eq_of_digest_eq : ∀ {t u : HashTree D}, t.digest hash = u.digest hash →
    t.leaves = u.leaves ∨ Collide hash t u ∨ LeafIsHash hash t u ∨ LeafIsHash hash u t
  | .leaf d, .leaf e, h => by
    left
    show [d] = [e]
    rw [show d = e from h]
  | .leaf d, .node l r, h =>
    .inr (.inr (.inl ⟨d, List.mem_cons_self, _, List.mem_cons_self, h⟩))
  | .node l r, .leaf d, h =>
    .inr (.inr (.inr ⟨d, List.mem_cons_self, _, List.mem_cons_self, h.symm⟩))
  | .node l r, .node l' r', h => by
    by_cases hne : (l.digest hash, r.digest hash) = (l'.digest hash, r'.digest hash)
    · obtain ⟨hl, hr⟩ := Prod.mk.inj hne
      rcases leaves_eq_of_digest_eq hl with hl | hl | hl | hl
      · rcases leaves_eq_of_digest_eq hr with hr | hr | hr | hr
        · left
          show l.leaves ++ r.leaves = l'.leaves ++ r'.leaves
          rw [hl, hr]
        · exact .inr (.inl (hr.node (List.subset_append_right _ _) (List.subset_append_right _ _)))
        · exact .inr (.inr (.inl (hr.node (List.subset_append_right _ _)
            (List.subset_append_right _ _))))
        · exact .inr (.inr (.inr (hr.node (List.subset_append_right _ _)
            (List.subset_append_right _ _))))
      · exact .inr (.inl (hl.node (List.subset_append_left _ _) (List.subset_append_left _ _)))
      · exact .inr (.inr (.inl (hl.node (List.subset_append_left _ _)
          (List.subset_append_left _ _))))
      · exact .inr (.inr (.inr (hl.node (List.subset_append_left _ _)
          (List.subset_append_left _ _))))
    · exact .inr (.inl ⟨_, List.mem_cons_self, _, List.mem_cons_self, hne, h⟩)

/-! ## Growing a tree -/

def joinPairs : List (HashTree D) → List (HashTree D)
  | t :: u :: ts => .node t u :: joinPairs ts
  | ts => ts

theorem length_joinPairs : ∀ ts : List (HashTree D), (joinPairs ts).length = (ts.length + 1) / 2
  | [] => by simp [joinPairs]
  | [_] => by simp [joinPairs]
  | _ :: _ :: ts => by
    rw [joinPairs, List.length_cons, length_joinPairs ts, List.length_cons, List.length_cons]
    omega

def grow (t : HashTree D) : List (HashTree D) → HashTree D
  | [] => t
  | u :: ts => grow (.node t u) (joinPairs ts)
termination_by ts => ts.length
decreasing_by
  rw [length_joinPairs, List.length_cons]
  omega

theorem map_digest_joinPairs : ∀ ts : List (HashTree D),
    (joinPairs ts).map (digest hash) = hashPairs hash (ts.map (digest hash))
  | [] => rfl
  | [_] => rfl
  | t :: u :: ts => by
    simp only [joinPairs, List.map_cons, hashPairs, map_digest_joinPairs ts]
    rfl

theorem flatMap_leaves_joinPairs : ∀ ts : List (HashTree D),
    (joinPairs ts).flatMap leaves = ts.flatMap leaves
  | [] => rfl
  | [_] => rfl
  | t :: u :: ts => by
    simp only [joinPairs, List.flatMap_cons, flatMap_leaves_joinPairs ts, leaves, List.append_assoc]

theorem mem_flatMap_pairs_joinPairs {p : D × D} : ∀ ts : List (HashTree D),
    p ∈ (joinPairs ts).flatMap (pairs hash) ↔
      p ∈ levelPairs (ts.map (digest hash)) ∨ p ∈ ts.flatMap (pairs hash)
  | [] => by simp [joinPairs, levelPairs]
  | [t] => by simp [joinPairs, levelPairs]
  | t :: u :: ts => by
    have ih := mem_flatMap_pairs_joinPairs (p := p) ts
    simp only [joinPairs, List.flatMap_cons, List.mem_append, pairs, List.mem_cons, List.map_cons,
      levelPairs, ih]
    tauto

theorem sameShape_joinPairs : ∀ {ts us : List (HashTree D)}, List.Forall₂ SameShape ts us →
    List.Forall₂ SameShape (joinPairs ts) (joinPairs us)
  | [], _, .nil => .nil
  | [_], _, .cons h .nil => .cons h .nil
  | _ :: _ :: _, _, .cons h (.cons h' hs) => .cons (.node h h') (sameShape_joinPairs hs)

theorem digest_grow (t : HashTree D) (ts : List (HashTree D)) :
    (grow t ts).digest hash = rootDigest hash (t.digest hash) (ts.map (digest hash)) := by
  induction t, ts using grow.induct with
  | case1 t => rw [grow, List.map_nil, rootDigest]
  | case2 t u ts ih =>
    rw [grow, ih, List.map_cons, rootDigest, map_digest_joinPairs]
    rfl

theorem leaves_grow (t : HashTree D) (ts : List (HashTree D)) :
    (grow t ts).leaves = t.leaves ++ ts.flatMap leaves := by
  induction t, ts using grow.induct with
  | case1 t => simp [grow]
  | case2 t u ts ih =>
    rw [grow, ih, flatMap_leaves_joinPairs, leaves, List.flatMap_cons, List.append_assoc]

theorem mem_pairs_grow {p : D × D} (t : HashTree D) (ts : List (HashTree D)) :
    p ∈ (grow t ts).pairs hash ↔
      p ∈ hashedPairs hash (t.digest hash) (ts.map (digest hash)) ∨
        p ∈ (t :: ts).flatMap (pairs hash) := by
  induction t, ts using grow.induct with
  | case1 t => simp [grow, hashedPairs]
  | case2 t u ts ih =>
    have hjoin := @mem_flatMap_pairs_joinPairs _ hash p (t :: u :: ts)
    rw [joinPairs] at hjoin
    rw [grow, ih, hjoin, List.map_cons, List.map_cons, hashedPairs_cons, map_digest_joinPairs,
      List.mem_append]
    simp only [digest]
    tauto

theorem sameShape_grow {ts us : List (HashTree D)} (h : SameShape t u)
    (hs : List.Forall₂ SameShape ts us) : SameShape (grow t ts) (grow u us) := by
  induction t, ts using grow.induct generalizing u us with
  | case1 t =>
    cases hs
    rw [grow, grow]
    exact h
  | case2 t t' ts ih =>
    cases hs with
    | cons h' hs =>
      rw [grow, grow]
      exact ih (.node h h') (sameShape_joinPairs hs)

def ofDigests (d : D) (ds : List D) : HashTree D := grow (.leaf d) (ds.map .leaf)

theorem digest_ofDigests (d : D) (ds : List D) :
    (ofDigests d ds).digest hash = rootDigest hash d ds := by
  rw [ofDigests, digest_grow, List.map_map]
  congr 1
  exact List.map_id' ds

theorem leaves_ofDigests (d : D) (ds : List D) : (ofDigests d ds).leaves = d :: ds := by
  rw [ofDigests, leaves_grow]
  simp [leaves, List.flatMap_map]

theorem mem_pairs_ofDigests {p : D × D} (d : D) (ds : List D) :
    p ∈ (ofDigests d ds).pairs hash ↔ p ∈ hashedPairs hash d ds := by
  have hleaf : (HashTree.leaf d :: ds.map .leaf).flatMap (pairs hash) = [] := by
    simp [pairs]
  rw [ofDigests, mem_pairs_grow, hleaf, List.map_map]
  simp [Function.comp_def, digest]

theorem sameShape_ofDigests {d e : D} {ds es : List D} (h : ds.length = es.length) :
    SameShape (ofDigests d ds) (ofDigests e es) := by
  apply sameShape_grow (.leaf d e)
  rw [List.forall₂_map_left_iff, List.forall₂_map_right_iff, List.forall₂_iff_get]
  exact ⟨h, fun i _ _ => .leaf _ _⟩

end HashTree

variable {hash}

theorem eq_or_of_rootDigest_eq {d e : D} {ds es : List D}
    (h : rootDigest hash d ds = rootDigest hash e es) :
    d :: ds = e :: es ∨
      (∃ p ∈ hashedPairs hash d ds, ∃ q ∈ hashedPairs hash e es, p ≠ q ∧ hash p = hash q) ∨
      (∃ x ∈ d :: ds, ∃ q ∈ hashedPairs hash e es, x = hash q) ∨
      ∃ x ∈ e :: es, ∃ p ∈ hashedPairs hash d ds, x = hash p := by
  rw [← HashTree.digest_ofDigests, ← HashTree.digest_ofDigests] at h
  have hcases := HashTree.leaves_eq_of_digest_eq h
  simpa only [HashTree.Collide, HashTree.LeafIsHash, HashTree.leaves_ofDigests,
    HashTree.mem_pairs_ofDigests] using hcases

theorem eq_or_of_rootDigest_eq_of_length {d e : D} {ds es : List D}
    (h : rootDigest hash d ds = rootDigest hash e es) (hlen : ds.length = es.length) :
    d :: ds = e :: es ∨
      ∃ p ∈ hashedPairs hash d ds, ∃ q ∈ hashedPairs hash e es, p ≠ q ∧ hash p = hash q := by
  rw [← HashTree.digest_ofDigests, ← HashTree.digest_ofDigests] at h
  have hcases := HashTree.leaves_eq_of_sameShape (HashTree.sameShape_ofDigests hlen) h
  simpa only [HashTree.Collide, HashTree.leaves_ofDigests, HashTree.mem_pairs_ofDigests]
    using hcases

end Meta1Core.Lib
