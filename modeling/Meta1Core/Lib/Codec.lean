import Meta1Core.Lib.Run

/-!
# Codecs

A codec writes a value as bytes and reads it back from the front of a stream.  A lawful one reads
what it writes, and accepts nothing that it would have written otherwise.
-/

namespace Meta1Core.Lib

universe u

/-- A way to write values as bytes, and to read them from a stream -/
structure Codec (err : Type u) (V : Type u) where
  pack : V → Except err (List UInt8)
  unpack : List UInt8 → Except err (V × List UInt8)

namespace Codec

variable {err V : Type}

/-- The codec round-trips, and every accepted stream starts with what it packs. -/
structure Lawful (c : Codec err V) : Prop where
  roundTrip : ∀ {v b}, c.pack v = .ok b → ∀ rest, c.unpack (b ++ rest) = .ok (v, rest)
  canonical : ∀ {s v rest}, c.unpack s = .ok (v, rest) → ∃ b, c.pack v = .ok b ∧ s = b ++ rest

def Total (c : Codec err V) : Prop := ∀ v, ∃ b, c.pack v = .ok b

namespace Lawful

variable {c : Codec err V} (h : c.Lawful)

include h

theorem unpack_iff {s rest : List UInt8} {v : V} :
    c.unpack s = .ok (v, rest) ↔ ∃ b, c.pack v = .ok b ∧ s = b ++ rest := by
  constructor
  · exact h.canonical
  · rintro ⟨b, hb, rfl⟩
    exact h.roundTrip hb rest

theorem split {v v' : V} {b b' x y : List UInt8} (hv : c.pack v = .ok b)
    (hv' : c.pack v' = .ok b') (heq : b ++ x = b' ++ y) : v = v' ∧ b = b' ∧ x = y := by
  have hread := h.roundTrip hv x
  rw [heq, h.roundTrip hv' y] at hread
  obtain ⟨rfl, rfl⟩ := Prod.mk.inj (Except.ok.inj hread)
  exact ⟨rfl, Except.ok.inj (hv.symm.trans hv'), rfl⟩

theorem unpack_nil_iff {b : List UInt8} {v : V} : c.unpack b = .ok (v, []) ↔ c.pack v = .ok b := by
  rw [h.unpack_iff]
  simp

end Lawful

end Codec

end Meta1Core.Lib
