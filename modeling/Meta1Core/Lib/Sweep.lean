import Meta1Core.Lib.Run

/-!
# Sweeping the marked entries of an index

An index holds its entries by a mark and then by a key.
-/

namespace Meta1Core.Lib.Sweep

universe u

variable {κ δ err : Type u} [DecidableEq κ]

def after (k : κ) : List κ → Option κ
  | [] => none
  | x :: xs => if x = k then xs.head? else after k xs

/-- The entries in the order of the index, those that are not marked first -/
def order (keys : List κ) (marked : κ → Bool) : List κ :=
  (keys.filter fun k => !marked k) ++ keys.filter marked

/-- The sweep from an iterator on, with the entries that it visits; the iterator moves on before the
visit. -/
def sweep (keys : List κ) (marked : δ → κ → Bool) (visit : κ → δ → Except err δ) (stuck : err) :
    Nat → Option κ → δ → Except err (List κ × δ)
  | _, none, d => .ok ([], d)
  | 0, some _, _ => .error stuck
  | fuel + 1, some k, d => do
    let next := after k (order keys (marked d))
    let d ← visit k d
    let (visited, d) ← sweep keys marked visit stuck fuel next d
    return (k :: visited, d)

theorem sweep_keeps {keys : List κ} {marked : δ → κ → Bool} {visit : κ → δ → Except err δ}
    {stuck : err} {P : δ → Prop} (hvisit : ∀ k d d', P d → visit k d = .ok d' → P d')
    {fuel : Nat} {k : Option κ} {d d' : δ} {visited : List κ} (hd : P d)
    (h : sweep keys marked visit stuck fuel k d = .ok (visited, d')) : P d' := by
  induction fuel generalizing k d visited with
  | zero =>
    cases k with
    | none =>
      cases h
      exact hd
    | some k => cases h
  | succ fuel ih =>
    cases k with
    | none =>
      cases h
      exact hd
    | some k =>
      rw [sweep] at h
      obtain ⟨d1, hd1, h⟩ := of_bind h
      obtain ⟨⟨visited', d2⟩, hrest, hret⟩ := of_bind h
      cases hret
      exact ih (hvisit k d d1 hd hd1) hrest

end Meta1Core.Lib.Sweep
