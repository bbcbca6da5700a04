/-
Page-table entries: 32-bit words holding a frame number above twelve flag
bits. Words are natural numbers, so `page | flags` is a sum and a flag is a
remainder, and every fact here is linear arithmetic.
-/
import Mathlib.Tactic.Common

namespace Linux011.Mm

/-- `PAGE_PRESENT`, bit 0. -/
def Present (w : Nat) : Prop := w % 2 = 1

/-- `PAGE_RW`, bit 1. -/
def Rw (w : Nat) : Prop := w / 2 % 2 = 1

/-- `PAGE_DIRTY`, bit 6. -/
def Dirty (w : Nat) : Prop := w / 64 % 2 = 1

instance (w : Nat) : Decidable (Present w) := inferInstanceAs (Decidable (_ = _))
instance (w : Nat) : Decidable (Rw w) := inferInstanceAs (Decidable (_ = _))
instance (w : Nat) : Decidable (Dirty w) := inferInstanceAs (Decidable (_ = _))

/-- `MAP_NR`: the frame an address or an entry names. -/
def frame (w : Nat) : Nat := w / 4096

/-- `page | flags`, for the page with frame number `n`. -/
def entry (n flags : Nat) : Nat := n * 4096 + flags

/-- `w & ~PAGE_RW`. -/
def clearRw (w : Nat) : Nat := w - w / 2 % 2 * 2

/-- `w | PAGE_RW`. -/
def setRw (w : Nat) : Nat := w - w / 2 % 2 * 2 + 2

/-- `w | PAGE_DIRTY | PAGE_ACCESSED`: what the processor does to the entry it
writes through. -/
def setDirty (w : Nat) : Nat := w - w / 32 % 4 * 32 + 96

@[simp] theorem not_present_zero : ¬ Present 0 := by simp [Present]
@[simp] theorem clearRw_zero : clearRw 0 = 0 := rfl

@[simp] theorem frame_entry {n f : Nat} (hf : f < 4096) : frame (entry n f) = n := by
  unfold frame entry; omega

theorem present_entry {n f : Nat} : Present (entry n f) ↔ f % 2 = 1 := by
  unfold Present entry; omega

theorem rw_entry {n f : Nat} : Rw (entry n f) ↔ f / 2 % 2 = 1 := by
  unfold Rw entry; omega

theorem dirty_entry {n f : Nat} : Dirty (entry n f) ↔ f / 64 % 2 = 1 := by
  unfold Dirty entry; omega

@[simp] theorem frame_clearRw (w : Nat) : frame (clearRw w) = frame w := by
  unfold frame clearRw; omega

@[simp] theorem present_clearRw (w : Nat) : Present (clearRw w) ↔ Present w := by
  unfold Present clearRw; omega

@[simp] theorem not_rw_clearRw (w : Nat) : ¬ Rw (clearRw w) := by
  unfold Rw clearRw; omega

@[simp] theorem dirty_clearRw (w : Nat) : Dirty (clearRw w) ↔ Dirty w := by
  unfold Dirty clearRw; omega

@[simp] theorem clearRw_clearRw (w : Nat) : clearRw (clearRw w) = clearRw w := by
  unfold clearRw; omega

theorem clearRw_eq_self {w : Nat} (h : ¬ Rw w) : clearRw w = w := by
  unfold Rw at h; unfold clearRw; omega

@[simp] theorem frame_setRw (w : Nat) : frame (setRw w) = frame w := by
  unfold frame setRw; omega

@[simp] theorem present_setRw (w : Nat) : Present (setRw w) ↔ Present w := by
  unfold Present setRw; omega

@[simp] theorem rw_setRw (w : Nat) : Rw (setRw w) := by
  unfold Rw setRw; omega

theorem setRw_clearRw {w : Nat} (h : Rw w) : setRw (clearRw w) = w := by
  unfold Rw at h; unfold setRw clearRw; omega

@[simp] theorem frame_setDirty (w : Nat) : frame (setDirty w) = frame w := by
  unfold frame setDirty; omega

@[simp] theorem present_setDirty (w : Nat) : Present (setDirty w) ↔ Present w := by
  unfold Present setDirty; omega

@[simp] theorem rw_setDirty (w : Nat) : Rw (setDirty w) ↔ Rw w := by
  unfold Rw setDirty; omega

@[simp] theorem setDirty_setDirty (w : Nat) : setDirty (setDirty w) = setDirty w := by
  unfold setDirty; omega

@[simp] theorem dirty_setDirty (w : Nat) : Dirty (setDirty w) := by
  unfold Dirty setDirty; omega

end Linux011.Mm
