import Mathlib.Data.List.Basic

namespace Mineshaft.Lib.Spacing

variable {gap last base base' now delay t : Nat} {ts : List Nat}

/-- The times at which the things in flight were sent. Each was sent at most
`gap` after the one before it, the first at most `gap` after `base`, and nothing
was sent after `last` that is not in flight. -/
def Spaced (gap last : Nat) : Nat → List Nat → Prop
  | base, [] => last ≤ base
  | base, t :: ts => t ≤ base + gap ∧ Spaced gap last t ts

theorem Spaced.mono (h : Spaced gap last base ts) (hb : base ≤ base') : Spaced gap last base' ts := by
  cases ts with
  | nil => exact Nat.le_trans h hb
  | cons t ts => exact ⟨by have := h.1; omega, h.2⟩

theorem Spaced.weaken {last' : Nat} (h : Spaced gap last base ts) (hl : last' ≤ last) :
    Spaced gap last' base ts := by
  induction ts generalizing base with
  | nil => exact Nat.le_trans hl h
  | cons t ts ih => exact ⟨h.1, ih h.2⟩

theorem Spaced.send (h : Spaced gap last base ts) (hn : now ≤ last + gap) :
    Spaced gap now base (ts ++ [now]) := by
  induction ts generalizing base with
  | nil =>
    have hb : last ≤ base := h
    exact ⟨by omega, Nat.le_refl now⟩
  | cons t ts ih => exact ⟨h.1, ih h.2⟩

theorem Spaced.arrive (h : Spaced gap last base (t :: ts)) (ht : t ≤ now) :
    Spaced gap last now ts :=
  Spaced.mono h.2 ht

theorem Spaced.bound (h : Spaced gap last base ts) (hd : ∀ t ∈ ts, now ≤ t + delay)
    (hn : now ≤ last + gap) : now ≤ base + gap + delay := by
  cases ts with
  | nil =>
    have hb : last ≤ base := h
    omega
  | cons t ts =>
    have ht := h.1
    have hnow := hd t List.mem_cons_self
    omega

end Mineshaft.Lib.Spacing
