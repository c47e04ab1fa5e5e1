import ChangeRelay.Change.Position
import Mathlib.Data.Prod.Lex
import Mathlib.Data.String.Basic
/-!
# The order of positions

Positions are linearly ordered, and the test that passes over a change (`Position.atOrBefore`) is
the order's `≤`.
-/

namespace ChangeRelay
namespace Position

/-- The file and the offset, ordered by the file first. -/
def key (p : Position) : String ×ₗ ℕ :=
  toLex (p.file, p.offset.toNat)

theorem key_injective : Function.Injective key := by
  intro p q h
  obtain ⟨f, o⟩ := p
  obtain ⟨f', o'⟩ := q
  have h' : (f, o.toNat) = (f', o'.toNat) := toLex.injective h
  obtain ⟨rfl, ho⟩ := Prod.mk.inj h'
  rw [UInt64.toNat_inj.mp ho]

instance : LinearOrder Position :=
  LinearOrder.lift' key key_injective

theorem le_iff_key (p q : Position) : p ≤ q ↔ key p ≤ key q := Iff.rfl

theorem atOrBefore_iff (p q : Position) : p.atOrBefore q = true ↔ p ≤ q := by
  rw [le_iff_key, key, key, Prod.Lex.toLex_le_toLex]
  simp only [atOrBefore, order, bne_iff_ne, ne_eq]
  rcases lt_trichotomy p.file q.file with h | h | h
  · rw [compare_lt_iff_lt.mpr h]
    simp [Ordering.then, h]
  · rw [compare_eq_iff_eq.mpr h]
    -- the files agree, so the offsets decide
    have ho : ¬compare p.offset q.offset = .gt ↔ p.offset ≤ q.offset := by
      rw [← Std.isLE_compare, Ordering.isLE_iff_ne_gt]
    simp [Ordering.then, h, ho, UInt64.le_iff_toNat_le]
  · rw [compare_gt_iff_gt.mpr h]
    simp [Ordering.then, not_lt_of_gt h, ne_of_gt h]

end Position
end ChangeRelay
