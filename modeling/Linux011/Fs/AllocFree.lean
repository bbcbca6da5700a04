/-
What `truncate` frees.

A file's zones are a list, level by level as `truncate` goes through them,
and freeing the list zone by zone is one change of the bitmap and the blocks
(`Disk.freed`). In sound trees no zone comes twice in it, so no `free_block`
finds its bit clear.
-/
import Mathlib.Data.List.Nodup
import Mathlib.Tactic.Common
import Linux011.Fs.AllocSteps

namespace Linux011.Fs

variable {I : Type*}

/-! ## Freeing a list of zones -/

/-- The file system after the zones of a list are freed. -/
def Disk.freed (d : Disk I) (zs : List Nat) : Disk I :=
  { d with
    zmap := fun j => d.zmap j && !decide (j ∈ zs.map d.index)
    blk := fun z => if z ∈ zs then d.disk z else d.blk z }

/-- Marked data zones that nobody has in hand, none twice. -/
structure CanFree (d : Disk I) (zs : List Nat) : Prop where
  nodup : zs.Nodup
  range : ∀ z ∈ zs, d.sb.firstdatazone ≤ z ∧ z < d.sb.nzones
  bit : ∀ z ∈ zs, d.bit z = true
  hold : ∀ z ∈ zs, d.hold z = 0

section Freeing

variable {d : Disk I}

theorem Disk.freed_nil (d : Disk I) : d.freed [] = d := by
  simp [Disk.freed]

theorem Disk.freed_append (d : Disk I) (xs ys : List Nat) : (d.freed xs).freed ys = d.freed (xs ++ ys) := by
  have hindex : ∀ (e : Disk I), e.sb = d.sb → e.index = d.index := fun e he => by
    ext z
    rw [Disk.index, Disk.index, he]
  have hindex := hindex (d.freed xs) rfl
  unfold Disk.freed at hindex ⊢
  simp only [hindex, Disk.mk.injEq, true_and, and_true]
  constructor
  · ext j
    simp only [List.map_append, List.mem_append, Bool.decide_or, Bool.not_or, Bool.and_assoc]
  · ext z
    by_cases hy : z ∈ ys <;> simp [hy]

theorem Disk.bit_freed (d : Disk I) {zs : List Nat} (hzs : ∀ z ∈ zs, d.sb.firstdatazone ≤ z) {y : Nat}
    (hy : d.sb.firstdatazone ≤ y) : (d.freed zs).bit y = (d.bit y && !decide (y ∈ zs)) := by
  have hmem : d.index y ∈ zs.map d.index ↔ y ∈ zs := by
    rw [List.mem_map]
    constructor
    · intro ⟨z, hz, he⟩
      exact d.index_inj (hzs z hz) hy he ▸ hz
    · exact fun h => ⟨y, h, rfl⟩
  simp only [Disk.freed, Disk.bit, ← hmem]
  rfl

theorem CanFree.freeBlock {z : Nat} (h : CanFree d [z]) : freeBlock d z = some (d.freed [z]) := by
  have hz : z ∈ [z] := List.mem_singleton_self z
  have hrange := h.range z hz
  unfold Linux011.Fs.freeBlock
  rw [if_neg (by omega), if_neg (by simp [h.hold z hz]), if_pos (h.bit z hz)]
  simp only [Disk.freed, List.map_cons, List.map_nil, List.mem_singleton, Option.some.injEq, Disk.mk.injEq, true_and,
    and_true]
  constructor
  · ext j
    by_cases hj : j = d.index z <;> simp [hj]
  · ext y : 1
    by_cases hy : y = z <;> simp [hy]

theorem CanFree.left {xs ys : List Nat} (h : CanFree d (xs ++ ys)) : CanFree d xs :=
  ⟨(List.nodup_append.1 h.nodup).1, fun z hz => h.range z (List.mem_append_left _ hz),
    fun z hz => h.bit z (List.mem_append_left _ hz), fun z hz => h.hold z (List.mem_append_left _ hz)⟩

theorem CanFree.disjoint {xs ys : List Nat} (h : CanFree d (xs ++ ys)) {z : Nat} (hx : z ∈ xs) : z ∉ ys :=
  fun hy => (List.nodup_append.1 h.nodup).2.2 z hx z hy rfl

/-- What is left of a list can be freed when the first part has been. -/
theorem CanFree.right {xs ys : List Nat} (h : CanFree d (xs ++ ys)) : CanFree (d.freed xs) ys := by
  refine ⟨(List.nodup_append.1 h.nodup).2.1, fun z hz => h.range z (List.mem_append_right _ hz), fun z hz => ?_,
    fun z hz => h.hold z (List.mem_append_right _ hz)⟩
  have hx : z ∉ xs := fun hx => h.disjoint hx hz
  rw [d.bit_freed (fun y hy => (h.range y (List.mem_append_left _ hy)).1) (h.range z (List.mem_append_right _ hz)).1,
    h.bit z (List.mem_append_right _ hz)]
  simp [hx]

theorem CanFree.bread {b : Nat} {zs : List Nat} (h : CanFree d zs) (hb : b ∉ zs) : CanFree (d.bread b) zs := by
  refine ⟨h.nodup, h.range, h.bit, fun z hz => ?_⟩
  have hne : z ≠ b := fun e => hb (e ▸ hz)
  exact (Function.update_of_ne hne _ _).trans (h.hold z hz)

/-- The nonzero values of a table, from `w` on. -/
def nonzeros (f : Nat → Nat) (w : Nat) : Nat → List Nat
  | 0 => []
  | n + 1 => if f w = 0 then nonzeros f (w + 1) n else f w :: nonzeros f (w + 1) n

theorem mem_nonzeros {f : Nat → Nat} {w n z : Nat} :
    z ∈ nonzeros f w n ↔ z ≠ 0 ∧ ∃ v, w ≤ v ∧ v < w + n ∧ f v = z := by
  induction n generalizing w with
  | zero =>
    simp only [nonzeros, List.not_mem_nil, false_iff, not_and, not_exists]
    intro _ v
    omega
  | succ n ih =>
    have hstep : (∃ v, w ≤ v ∧ v < w + (n + 1) ∧ f v = z) ↔
        f w = z ∨ ∃ v, w + 1 ≤ v ∧ v < w + 1 + n ∧ f v = z := by
      constructor
      · intro ⟨v, h1, h2, h3⟩
        rcases Nat.eq_or_lt_of_le h1 with e | hlt
        · exact .inl (e ▸ h3)
        · exact .inr ⟨v, hlt, by omega, h3⟩
      · intro h
        rcases h with h | ⟨v, h1, h2, h3⟩
        · exact ⟨w, Nat.le_refl w, by omega, h⟩
        · exact ⟨v, by omega, by omega, h3⟩
    rw [nonzeros, hstep]
    split
    · rename_i h0
      rw [ih]
      constructor
      · exact fun h => ⟨h.1, .inr h.2⟩
      · intro ⟨hz, h⟩
        rcases h with h | h
        · exact absurd (h.symm.trans h0) hz
        · exact ⟨hz, h⟩
    · rename_i h0
      rw [List.mem_cons, ih]
      constructor
      · intro h
        rcases h with rfl | h
        · exact ⟨h0, .inl rfl⟩
        · exact ⟨h.1, .inr h.2⟩
      · intro ⟨hz, h⟩
        rcases h with h | h
        · exact .inl h.symm
        · exact .inr ⟨hz, h⟩

theorem nonzeros_congr {f g : Nat → Nat} {w n : Nat} (h : ∀ v, w ≤ v → f v = g v) : nonzeros f w n = nonzeros g w n := by
  induction n generalizing w with
  | zero => rfl
  | succ n ih =>
    rw [nonzeros, nonzeros, h w (Nat.le_refl w), ih fun v hv => h v (by omega)]

/-- Different entries that are not 0 have different values. -/
theorem nodup_nonzeros {f : Nat → Nat} {w n : Nat}
    (h : ∀ v v', v < w + n → v' < w + n → f v ≠ 0 → f v = f v' → v = v') : (nonzeros f w n).Nodup := by
  induction n generalizing w with
  | zero => exact List.nodup_nil
  | succ n ih =>
    have ih := ih (w := w + 1) fun v v' hv hv' => h v v' (by omega) (by omega)
    rw [nonzeros]
    split
    · exact ih
    · rename_i h0
      refine List.nodup_cons.2 ⟨fun hm => ?_, ih⟩
      obtain ⟨-, v, h1, h2, h3⟩ := mem_nonzeros.1 hm
      have := h w v (by omega) (by omega) h0 h3.symm
      omega

/-- A routine that frees the zones `L d z` for a slot with zone `z`, which it
finds by reading that block only. -/
structure Frees (free : Disk I → Nat → Option (Disk I)) (L : Disk I → Nat → List Nat) : Prop where
  eq : ∀ d z, z ≠ 0 → CanFree d (L d z) → free d z = some (d.freed (L d z))
  self : ∀ d z, z ≠ 0 → z ∈ L d z
  reads : ∀ (d d' : Disk I) z, d'.blk z = d.blk z → L d' z = L d z

theorem frees_freeBlock : Frees (I := I) Linux011.Fs.freeBlock fun _ z => [z] :=
  ⟨fun _ _ _ h => h.freeBlock, fun _ z _ => List.mem_singleton_self z, fun _ _ _ _ => rfl⟩

/-- What an indirect block leads to, if it can be read. -/
def below (ok : Nat → Bool) (L : Disk I → Nat → List Nat) (d : Disk I) (b : Nat) : List Nat :=
  if ok b then (nonzeros (d.blk b) 0 512).flatMap (L d) else []

theorem mem_below {ok : Nat → Bool} {L : Disk I → Nat → List Nat} {b z : Nat} :
    z ∈ below ok L d b ↔ ok b = true ∧ ∃ c ∈ nonzeros (d.blk b) 0 512, z ∈ L d c := by
  unfold below
  split
  · rename_i hok
    simp [hok, List.mem_flatMap]
  · rename_i hok
    simp [hok]

/-- The zones of an indirect block: what its slots lead to, and itself. -/
def slotZones (ok : Nat → Bool) (L : Disk I → Nat → List Nat) (d : Disk I) (b : Nat) : List Nat :=
  if b = 0 then [] else below ok L d b ++ [b]

theorem forWords_eq {free : Disk I → Nat → Option (Disk I)} {L : Disk I → Nat → List Nat} (hL : Frees free L)
    {b w n : Nat} (h : CanFree d ((nonzeros (d.blk b) w n).flatMap (L d)))
    (hb : b ∉ (nonzeros (d.blk b) w n).flatMap (L d)) :
    forWords free b d w n = some (d.freed ((nonzeros (d.blk b) w n).flatMap (L d))) := by
  induction n generalizing d w with
  | zero => exact congrArg some d.freed_nil.symm
  | succ n ih =>
    rw [nonzeros] at h hb ⊢
    rw [forWords]
    by_cases h0 : d.blk b w = 0
    · rw [if_pos h0] at h hb
      simp only [if_pos h0]
      exact ih h hb
    · simp only [if_neg h0, List.flatMap_cons] at h hb ⊢
      rw [hL.eq d _ h0 h.left, Option.bind_some]
      -- the rest of the list is the same in the file system with the first part freed
      have hbx : b ∉ L d (d.blk b w) := fun hx => hb (List.mem_append_left _ hx)
      have hblk : (d.freed (L d (d.blk b w))).blk b = d.blk b := if_neg hbx
      have hlist : (nonzeros ((d.freed (L d (d.blk b w))).blk b) (w + 1) n).flatMap (L (d.freed (L d (d.blk b w)))) =
          (nonzeros (d.blk b) (w + 1) n).flatMap (L d) := by
        rw [hblk]
        refine List.flatMap_congr fun z hz => hL.reads _ _ z (if_neg fun hx => ?_)
        refine h.disjoint hx (List.mem_flatMap.2 ⟨z, hz, hL.self d z (mem_nonzeros.1 hz).1⟩)
      have ih := ih (d := d.freed (L d (d.blk b w))) (w := w + 1) (hlist ▸ h.right)
        (hlist ▸ fun hx => hb (List.mem_append_right _ hx))
      rw [ih, hlist, Disk.freed_append]

theorem frees_slots {ok : Nat → Bool} {free : Disk I → Nat → Option (Disk I)} {L : Disk I → Nat → List Nat}
    (hL : Frees free L) {b : Nat} (h : CanFree d (slotZones ok L d b)) :
    freeSlotsIo ok free d b = some (d.freed (slotZones ok L d b)) := by
  by_cases hb : b = 0
  · rw [freeSlotsIo, if_pos hb, slotZones, if_pos hb, Disk.freed_nil]
  · have hzones : slotZones ok L d b = below ok L d b ++ [b] := if_neg hb
    rw [hzones] at h ⊢
    rw [freeSlotsIo, if_neg hb]
    by_cases hok : ok b = true
    · rw [below, if_pos hok] at h ⊢
      have hnot : b ∉ (nonzeros (d.blk b) 0 512).flatMap (L d) := fun hx => h.disjoint hx (List.mem_singleton_self b)
      have hlist : (nonzeros ((d.bread b).blk b) 0 512).flatMap (L (d.bread b)) =
          (nonzeros (d.blk b) 0 512).flatMap (L d) := List.flatMap_congr fun z _ => hL.reads d (d.bread b) z rfl
      have hwords := forWords_eq (d := d.bread b) (b := b) (w := 0) (n := 512) hL (hlist ▸ h.left.bread hnot)
        (hlist ▸ hnot)
      rw [hlist] at hwords
      have hrel : ((d.bread b).freed ((nonzeros (d.blk b) 0 512).flatMap (L d))).brelse b =
          d.freed ((nonzeros (d.blk b) 0 512).flatMap (L d)) := Disk.brelse_of_hold (d := d) rfl
      rw [if_pos hok, freeSlots, if_neg hb, hwords, Option.bind_some, hrel, h.right.freeBlock, Disk.freed_append]
    · have hnil : below ok L d b = [] := if_neg hok
      rw [hnil, List.nil_append] at h ⊢
      rw [if_neg hok, h.freeBlock]

theorem slotZones_self (ok : Nat → Bool) (L : Disk I → Nat → List Nat) (d : Disk I) {b : Nat} (hb : b ≠ 0) :
    b ∈ slotZones ok L d b := by
  rw [slotZones, if_neg hb]
  exact List.mem_append_right _ (List.mem_singleton_self b)

theorem slotZones_congr {ok : Nat → Bool} {free : Disk I → Nat → Option (Disk I)} {L : Disk I → Nat → List Nat}
    (hL : Frees free L) {d' : Disk I} {b : Nat} (h : ∀ z ∈ slotZones ok L d b, d'.blk z = d.blk z) :
    slotZones ok L d' b = slotZones ok L d b := by
  by_cases hb : b = 0
  · rw [slotZones, slotZones, if_pos hb, if_pos hb]
  · have hblk := h b (slotZones_self ok L d hb)
    rw [slotZones, if_neg hb] at h
    rw [slotZones, slotZones, if_neg hb, if_neg hb]
    congr 1
    unfold below
    split
    · rename_i hok
      rw [hblk]
      refine List.flatMap_congr fun z hz => hL.reads d d' z (h z (List.mem_append_left _ ?_))
      exact mem_below.2 ⟨hok, z, hz, hL.self d z (mem_nonzeros.1 hz).1⟩
    · rfl

/-- The zones an indirect, and a double indirect, block leads to. -/
abbrev indZones (ok : Nat → Bool) (d : Disk I) (b : Nat) : List Nat := slotZones ok (fun _ z => [z]) d b
abbrev dindZones (ok : Nat → Bool) (d : Disk I) (b : Nat) : List Nat := slotZones ok (indZones ok) d b

theorem frees_freeInd (ok : Nat → Bool) : Frees (I := I) (freeIndIo ok) (indZones ok) where
  eq _ _ _ h := frees_slots frees_freeBlock h
  self d z hz := slotZones_self ok _ d hz
  reads d d' z h := by
    rw [indZones, indZones, slotZones, slotZones, below, below, h]

theorem freeIndIo_eq (ok : Nat → Bool) {b : Nat} (h : CanFree d (indZones ok d b)) :
    freeIndIo ok d b = some (d.freed (indZones ok d b)) :=
  frees_slots frees_freeBlock h

theorem freeDindIo_eq (ok : Nat → Bool) {b : Nat} (h : CanFree d (dindZones ok d b)) :
    freeDindIo ok d b = some (d.freed (dindZones ok d b)) :=
  frees_slots (frees_freeInd ok) h

theorem CanFree.congr {d' : Disk I} {zs : List Nat} (h : CanFree d zs) (hsb : d'.sb = d.sb) (hz : d'.zmap = d.zmap)
    (hh : d'.hold = d.hold) : CanFree d' zs := by
  refine ⟨h.nodup, hsb ▸ h.range, fun z hm => ?_, fun z hm => by rw [hh]; exact h.hold z hm⟩
  rw [Disk.bit, Disk.index, hsb, hz]
  exact h.bit z hm

variable [DecidableEq I]

/-- The file system with some of a file's entries set to 0. -/
def Disk.zeroed (d : Disk I) (i : I) (k n : Nat) : Disk I :=
  { d with
    ino := Function.update d.ino i
      { d.ino i with zone := fun v => if k ≤ v ∧ v < k + n then 0 else (d.ino i).zone v } }

theorem Disk.zeroed_zero {d : Disk I} {i : I} {k n : Nat} (h : (d.ino i).zone k = 0) :
    d.zeroed i (k + 1) n = d.zeroed i k (n + 1) := by
  have hz : (fun v => if k + 1 ≤ v ∧ v < k + 1 + n then 0 else (d.ino i).zone v) =
      fun v => if k ≤ v ∧ v < k + (n + 1) then 0 else (d.ino i).zone v := by
    ext v
    by_cases hv : v = k
    · rw [hv, h]
      split <;> split <;> rfl
    · congr 1
      exact propext ⟨fun h => by omega, fun h => by omega⟩
  rw [Disk.zeroed, hz]
  rfl

theorem Disk.zeroed_set {d : Disk I} {i : I} {k n : Nat} :
    (d.setZone i k 0).zeroed i (k + 1) n = d.zeroed i k (n + 1) := by
  have hk : ((d.setZone i k 0).ino i).zone k = 0 := by simp [Disk.setZone]
  rw [Disk.zeroed_zero hk]
  have hz : (fun v => if k ≤ v ∧ v < k + (n + 1) then 0 else ((d.setZone i k 0).ino i).zone v) =
      fun v => if k ≤ v ∧ v < k + (n + 1) then 0 else (d.ino i).zone v := by
    ext v
    split
    · rfl
    · rename_i hv
      have hne : v ≠ k := by omega
      simp [Disk.setZone, hne]
  rw [Disk.zeroed, hz]
  simp [Disk.zeroed, Disk.setZone]

theorem freeDirect_eq {i : I} {k n : Nat} (h : CanFree d (nonzeros (d.ino i).zone k n)) :
    freeDirect i d k n = some ((d.freed (nonzeros (d.ino i).zone k n)).zeroed i k n) := by
  induction n generalizing d k with
  | zero =>
    have hz : (fun v => if k ≤ v ∧ v < k + 0 then 0 else (d.ino i).zone v) = (d.ino i).zone := by
      ext v
      exact if_neg (by omega)
    rw [freeDirect, nonzeros, Disk.freed_nil, Disk.zeroed, hz]
    simp
  | succ n ih =>
    rw [nonzeros] at h ⊢
    rw [freeDirect]
    by_cases h0 : (d.ino i).zone k = 0
    · rw [if_pos h0] at h
      simp only [if_pos h0]
      rw [ih h]
      exact congrArg some (Disk.zeroed_zero h0)
    · rw [if_neg h0] at h
      simp only [if_neg h0]
      have h : CanFree d ([(d.ino i).zone k] ++ nonzeros (d.ino i).zone (k + 1) n) := h
      rw [h.left.freeBlock, Option.bind_some]
      have hlist : nonzeros (((d.freed [(d.ino i).zone k]).setZone i k 0).ino i).zone (k + 1) n =
          nonzeros (d.ino i).zone (k + 1) n := by
        refine nonzeros_congr fun v hv => ?_
        have hne : v ≠ k := by omega
        simp [Disk.setZone, Disk.freed, hne]
      have hcan : CanFree ((d.freed [(d.ino i).zone k]).setZone i k 0) (nonzeros (d.ino i).zone (k + 1) n) :=
        h.right.congr rfl rfl rfl
      rw [ih (hlist ▸ hcan), hlist]
      have hcomm : ((d.freed [(d.ino i).zone k]).setZone i k 0).freed (nonzeros (d.ino i).zone (k + 1) n) =
          ((d.freed [(d.ino i).zone k]).freed (nonzeros (d.ino i).zone (k + 1) n)).setZone i k 0 := rfl
      rw [hcomm, Disk.zeroed_set, Disk.freed_append]
      rfl

/-- The zones of a file, as far as the indirect blocks can be read. -/
def fileZones (ok : Nat → Bool) (d : Disk I) (i : I) : List Nat :=
  nonzeros (d.ino i).zone 0 7 ++ (indZones ok d ((d.ino i).zone 7) ++ dindZones ok d ((d.ino i).zone 8))

/-- The file system after a file is cut to nothing. -/
def Disk.cut (d : Disk I) (ok : Nat → Bool) (i : I) : Disk I :=
  { d.freed (fileZones ok d i) with
    ino := Function.update d.ino i
      { d.ino i with zone := fun v => if v < 9 then 0 else (d.ino i).zone v, size := 0 } }

theorem truncateIo_eq {ok : Nat → Bool} {i : I} (h : CanFree d (fileZones ok d i))
    (hmode : (isReg (d.ino i).mode || isDir (d.ino i).mode) = true) : truncateIo ok d i = some (d.cut ok i) := by
  unfold fileZones at h
  have hdirect := freeDirect_eq (k := 0) (n := 7) h.left
  -- the indirect blocks are as they were: their zones are not among those freed before
  have hblk : ∀ xs ys : List Nat, CanFree d (xs ++ ys) → ∀ z ∈ ys, (d.freed xs).blk z = d.blk z :=
    fun xs ys hc z hz => if_neg fun hx => hc.disjoint hx hz
  have hind : indZones ok ((d.freed (nonzeros (d.ino i).zone 0 7)).zeroed i 0 7) ((d.ino i).zone 7) =
      indZones ok d ((d.ino i).zone 7) :=
    slotZones_congr frees_freeBlock fun z hz => hblk _ _ h z (List.mem_append_left _ hz)
  have hdind : ∀ e : Disk I, e.blk = (d.freed (nonzeros (d.ino i).zone 0 7 ++ indZones ok d ((d.ino i).zone 7))).blk →
      dindZones ok e ((d.ino i).zone 8) = dindZones ok d ((d.ino i).zone 8) := fun e he =>
    slotZones_congr (frees_freeInd ok) fun z hz => by
      rw [he]
      rw [← List.append_assoc] at h
      exact hblk _ _ h z hz
  have h1 := freeIndIo_eq ok (d := (d.freed (nonzeros (d.ino i).zone 0 7)).zeroed i 0 7) (b := (d.ino i).zone 7)
    (hind ▸ (h.right.left.congr rfl rfl rfl))
  rw [hind] at h1
  have h2 := freeDindIo_eq ok (b := (d.ino i).zone 8)
    (d := ((d.freed (nonzeros (d.ino i).zone 0 7)).zeroed i 0 7).freed (indZones ok d ((d.ino i).zone 7)))
    (by
      rw [hdind]
      · exact h.right.right.congr rfl rfl rfl
      · rw [← Disk.freed_append]
        rfl)
  rw [hdind] at h2
  · have hz7 : (((d.freed (nonzeros (d.ino i).zone 0 7)).zeroed i 0 7).ino i).zone 7 = (d.ino i).zone 7 := by
      simp [Disk.zeroed, Disk.freed]
    have hz8 : ((((d.freed (nonzeros (d.ino i).zone 0 7)).zeroed i 0 7).freed
        (indZones ok d ((d.ino i).zone 7))).ino i).zone 8 = (d.ino i).zone 8 := by
      simp [Disk.zeroed, Disk.freed]
    have hall : (((d.freed (nonzeros (d.ino i).zone 0 7)).zeroed i 0 7).freed (indZones ok d ((d.ino i).zone 7))).freed
        (dindZones ok d ((d.ino i).zone 8)) = (d.freed (fileZones ok d i)).zeroed i 0 7 := by
      rw [fileZones, ← Disk.freed_append, ← Disk.freed_append]
      rfl
    rw [truncateIo, if_neg (by simp [hmode]), hdirect, Option.bind_some, hz7, h1, Option.bind_some, hz8, h2,
      Option.map_some, hall]
    have hzone : Function.update (Function.update (fun v => if 0 ≤ v ∧ v < 0 + 7 then 0 else (d.ino i).zone v) 8
        (0 % 65536)) 7 (0 % 65536) = fun v => if v < 9 then 0 else (d.ino i).zone v := by
      ext v
      simp only [Function.update_apply]
      split
      · rw [if_pos (by omega)]
      · split
        · rw [if_pos (by omega)]
        · congr 1
          exact propext ⟨fun h => by omega, fun h => by omega⟩
    simp only [Disk.cut, Disk.setZone, Disk.zeroed, Function.update_self, Function.update_idem]
    rw [← hzone]
    rfl
  · rw [← Disk.freed_append]
    rfl

end Freeing

/-! ## The zones of a tree -/

/-- The zone is at a place of the file's tree. -/
structure At (T : Trees I) (i : I) (l : Loc I) (z : Nat) : Prop where
  nonzero : z ≠ 0
  val : T.val l = z
  leads : ∃ n rest, n < maxBlock ∧ Leads T i n l rest

section FileZones

variable {T : Trees I} {i : I} {l l' : Loc I} {z : Nat}

theorem refBy_iff_at : RefBy T i z ↔ ∃ l, At T i l z := by
  constructor
  · intro h
    obtain ⟨hz, n, l, rest, hn, hl, hv⟩ := h
    exact ⟨l, hz, hv, n, rest, hn, hl⟩
  · intro h
    obtain ⟨l, hz, hv, n, rest, hn, hl⟩ := h
    exact ⟨hz, n, l, rest, hn, hl, hv⟩

theorem At.inj {first nzones : Nat} (hs : Sound T first nzones) (h : At T i l z) (h' : At T i l' z) : l = l' := by
  obtain ⟨hz, hv, n, rest, hn, hl⟩ := h
  obtain ⟨-, hv', n', rest', hn', hl'⟩ := h'
  exact hs.inj _ _ _ _ _ _ _ _ hn hn' hl hl' (hv.trans_ne hz) (hv.trans hv'.symm)

theorem At.of_eq {y : Nat} (h : At T i l z) (e : z = y) : At T i l y := e ▸ h

theorem path_direct {k : Nat} (h : k < 7) : path k = (k, []) := if_pos h

theorem path_ind {w : Nat} (h : w < 512) : path (7 + w) = (7, [w]) := by
  rw [path, if_neg (by omega), if_pos (by omega)]
  simp

theorem path_dind {w v : Nat} (hv : v < 512) : path (519 + 512 * w + v) = (8, [w, v]) := by
  rw [path, if_neg (by omega), if_neg (by omega)]
  have h1 : (519 + 512 * w + v - 519) / 512 = w := by omega
  have h2 : (519 + 512 * w + v - 519) % 512 = v := by omega
  rw [h1, h2]

/-- The entries of `i_zone` are places of the tree. -/
theorem at_ino {k : Nat} (hk : k < 9) (hz : T.zone i k ≠ 0) : At T i (.ino i k) (T.zone i k) := by
  refine ⟨hz, rfl, ?_⟩
  have hroot : ∀ n rest, n < maxBlock → path n = (k, rest) → ∃ n rest, n < maxBlock ∧ Leads T i n (.ino i k) rest := by
    intro n rest hn hp
    have h : Leads T i n _ _ := .root
    rw [hp] at h
    exact ⟨n, rest, hn, h⟩
  by_cases h7 : k < 7
  · exact hroot k [] (by simp only [maxBlock]; omega) (path_direct h7)
  · by_cases h8 : k = 7
    · subst h8
      exact hroot 7 [0] (by decide) (path_ind (w := 0) (by omega))
    · obtain rfl : k = 8 := by omega
      exact hroot 519 [0, 0] (by decide) (path_dind (w := 0) (v := 0) (by omega))

/-- The slots of the indirect block. -/
theorem at_ind {w : Nat} (hw : w < 512) (h7 : T.zone i 7 ≠ 0) (hz : T.blk (T.zone i 7) w ≠ 0) :
    At T i (.blk (T.zone i 7) w) (T.blk (T.zone i 7) w) := by
  have h : Leads T i (7 + w) _ _ := .root
  rw [path_ind hw] at h
  exact ⟨hz, rfl, 7 + w, [], by simp only [maxBlock]; omega, .down h h7⟩

/-- The slots of the double indirect block, and of the blocks below it. -/
theorem at_dind {w v : Nat} (hw : w < 512) (hv : v < 512) (h8 : T.zone i 8 ≠ 0) (hz : T.blk (T.zone i 8) w ≠ 0) :
    At T i (.blk (T.zone i 8) w) (T.blk (T.zone i 8) w) ∧
      (T.blk (T.blk (T.zone i 8) w) v ≠ 0 →
        At T i (.blk (T.blk (T.zone i 8) w) v) (T.blk (T.blk (T.zone i 8) w) v)) := by
  have h : Leads T i (519 + 512 * w + v) _ _ := .root
  rw [path_dind hv] at h
  have hn : 519 + 512 * w + v < maxBlock := by
    simp only [maxBlock]
    omega
  have h1 := Leads.down h h8
  exact ⟨⟨hz, rfl, _, _, hn, h1⟩, fun hz' => ⟨hz', rfl, _, _, hn, .down h1 hz⟩⟩

/-- The slots of a path. -/
theorem path_cons {n w : Nat} {rest : List Nat} (hn : n < maxBlock) (h : (path n).2 = w :: rest) :
    w < 512 ∧ (((path n).1 = 7 ∧ rest = []) ∨ ((path n).1 = 8 ∧ ∃ v, v < 512 ∧ rest = [v])) := by
  simp only [maxBlock] at hn
  unfold path at h ⊢
  split at h
  · cases h
  · split at h
    · cases h
      rename_i h7 h512
      rw [if_neg h7, if_pos h512]
      exact ⟨h512, .inl ⟨rfl, rfl⟩⟩
    · cases h
      rename_i h7 h512
      rw [if_neg h7, if_neg h512]
      exact ⟨by omega, .inr ⟨rfl, _, Nat.mod_lt _ (by omega), rfl⟩⟩

theorem Leads.suffix {n : Nat} {rest : List Nat} (h : Leads T i n l rest) : rest <:+ (path n).2 := by
  induction h with
  | root => exact List.suffix_refl _
  | down _ _ ih => exact (List.suffix_cons _ _).trans ih

/-- A place below the inode, one slot on. -/
theorem Leads.inner {n w : Nat} {rest : List Nat} (hn : n < maxBlock) (h : Leads T i n l (w :: rest)) :
    (l = .ino i (path n).1 ∧ (path n).2 = w :: rest) ∨
      ∃ u, u < 512 ∧ w < 512 ∧ rest = [] ∧ T.zone i 8 ≠ 0 ∧ l = .blk (T.zone i 8) u := by
  generalize hr : w :: rest = r at h
  cases h with
  | root => exact .inl ⟨rfl, rfl⟩
  | @down l₀ u _ h₀ hz =>
    generalize hr₀ : u :: r = r₀ at h₀
    cases h₀ with
    | root =>
      rw [← hr] at hr₀
      obtain ⟨hu, h | ⟨h8, v, hv, hvr⟩⟩ := path_cons hn hr₀.symm
      · cases h.2
      · cases hvr
        rw [h8] at hz ⊢
        exact .inr ⟨u, hu, hv, rfl, hz, rfl⟩
    | @down l₁ u' _ h₁ _ =>
      have hlen := h₁.suffix.length_le
      have htwo := path_length n
      rw [← hr₀, ← hr] at hlen
      simp only [List.length_cons] at hlen
      omega

/-- The places of a tree, level by level. -/
theorem At.cases (h : At T i l z) :
    (∃ k, k < 9 ∧ l = .ino i k) ∨ (∃ w, w < 512 ∧ T.zone i 7 ≠ 0 ∧ l = .blk (T.zone i 7) w) ∨
      (∃ w, w < 512 ∧ T.zone i 8 ≠ 0 ∧ l = .blk (T.zone i 8) w) ∨
      ∃ w v, w < 512 ∧ v < 512 ∧ T.zone i 8 ≠ 0 ∧ T.blk (T.zone i 8) w ≠ 0 ∧ l = .blk (T.blk (T.zone i 8) w) v := by
  obtain ⟨-, -, n, rest, hn, hl⟩ := h
  cases hl with
  | root => exact .inl ⟨_, path_lt n, rfl⟩
  | @down l₀ w _ h₀ hz =>
    rcases h₀.inner hn with ⟨rfl, hp⟩ | ⟨u, hu, hw, -, h8, rfl⟩
    · obtain ⟨hw, ⟨hk, -⟩ | ⟨hk, -⟩⟩ := path_cons hn hp
      · rw [hk] at hz ⊢
        exact .inr (.inl ⟨w, hw, hz, rfl⟩)
      · rw [hk] at hz ⊢
        exact .inr (.inr (.inl ⟨w, hw, hz, rfl⟩))
    · exact .inr (.inr (.inr ⟨u, w, hu, hw, h8, hz, rfl⟩))

theorem mem_indZones {ok : Nat → Bool} {d : Disk I} {b : Nat} :
    z ∈ indZones ok d b ↔ b ≠ 0 ∧ (z = b ∨ (ok b = true ∧ z ≠ 0 ∧ ∃ w, w < 512 ∧ d.blk b w = z)) := by
  rw [indZones, slotZones]
  by_cases hb : b = 0
  · simp [hb]
  · rw [if_neg hb]
    simp only [List.mem_append, mem_below, mem_nonzeros, List.mem_singleton, Nat.zero_le, true_and, Nat.zero_add,
      exists_eq_right', ne_eq, hb, not_false_eq_true]
    exact or_comm

theorem mem_dindZones {ok : Nat → Bool} {d : Disk I} {b : Nat} :
    z ∈ dindZones ok d b ↔ b ≠ 0 ∧ (z = b ∨ (ok b = true ∧ ∃ w, w < 512 ∧ z ∈ indZones ok d (d.blk b w))) := by
  rw [dindZones, slotZones]
  by_cases hb : b = 0
  · simp [hb]
  · rw [if_neg hb]
    simp only [List.mem_append, mem_below, mem_nonzeros, List.mem_singleton, Nat.zero_le, true_and, Nat.zero_add,
      ne_eq, hb, not_false_eq_true]
    constructor
    · intro h
      rcases h with ⟨hok, c, ⟨-, w, hw, rfl⟩, hz⟩ | rfl
      · exact .inr ⟨hok, w, hw, hz⟩
      · exact .inl rfl
    · intro h
      rcases h with rfl | ⟨hok, w, hw, hz⟩
      · exact .inr rfl
      · exact .inl ⟨hok, _, ⟨(mem_indZones.1 hz).1, w, hw, rfl⟩, hz⟩

/-- Below the indirect block. -/
theorem ind_at {ok : Nat → Bool} {d : Disk I} (h : z ∈ indZones ok d ((d.ino i).zone 7)) :
    At d.trees i (.ino i 7) z ∨ ∃ w, At d.trees i (.blk ((d.ino i).zone 7) w) z := by
  obtain ⟨h7, rfl | ⟨-, hz, w, hw, rfl⟩⟩ := mem_indZones.1 h
  · exact .inl (at_ino (by omega) h7)
  · exact .inr ⟨w, at_ind hw h7 hz⟩

/-- Below the double indirect block. -/
theorem dind_at {ok : Nat → Bool} {d : Disk I} (h : z ∈ dindZones ok d ((d.ino i).zone 8)) :
    At d.trees i (.ino i 8) z ∨ (∃ w, At d.trees i (.blk ((d.ino i).zone 8) w) z) ∨
      ∃ c w v, At d.trees i (.blk ((d.ino i).zone 8) w) c ∧ At d.trees i (.blk c v) z := by
  obtain ⟨h8, rfl | ⟨-, w, hw, hz⟩⟩ := mem_dindZones.1 h
  · exact .inl (at_ino (by omega) h8)
  · obtain ⟨hc, rfl | ⟨-, hz, v, hv, rfl⟩⟩ := mem_indZones.1 hz
    · exact .inr (.inl ⟨w, (at_dind hw (by omega : 0 < 512) h8 hc).1⟩)
    · obtain ⟨h1, h2⟩ := at_dind (T := d.trees) hw hv h8 hc
      exact .inr (.inr ⟨_, w, v, h1, h2 hz⟩)

theorem direct_at {d : Disk I} (h : z ∈ nonzeros (d.ino i).zone 0 7) : ∃ k, k < 7 ∧ At d.trees i (.ino i k) z := by
  obtain ⟨hz, k, -, hk, rfl⟩ := mem_nonzeros.1 h
  exact ⟨k, by omega, at_ino (T := d.trees) (by omega) hz⟩

/-- The list of a file's zones has only what its walks meet. -/
theorem refBy_of_mem [DecidableEq I] {ok : Nat → Bool} {d : Disk I} (h : z ∈ fileZones ok d i) : RefBy d.trees i z := by
  rw [fileZones, List.mem_append, List.mem_append] at h
  rw [refBy_iff_at]
  rcases h with h | h | h
  · obtain ⟨k, -, hk⟩ := direct_at h
    exact ⟨_, hk⟩
  · rcases ind_at h with h | ⟨w, h⟩ <;> exact ⟨_, h⟩
  · rcases dind_at h with h | ⟨w, h⟩ | ⟨c, w, v, -, h⟩ <;> exact ⟨_, h⟩

/-- With every block readable it has all of them. -/
theorem mem_fileZones [DecidableEq I] {d : Disk I} : z ∈ fileZones (fun _ => true) d i ↔ RefBy d.trees i z := by
  refine ⟨refBy_of_mem, fun h => ?_⟩
  obtain ⟨l, h⟩ := refBy_iff_at.1 h
  rw [fileZones, List.mem_append, List.mem_append]
  have hz := h.nonzero
  have hv := h.val
  rcases h.cases with ⟨k, hk, rfl⟩ | ⟨w, hw, h7, rfl⟩ | ⟨w, hw, h8, rfl⟩ | ⟨w, v, hw, hv', h8, hc, rfl⟩
  · have hv : (d.ino i).zone k = z := hv
    by_cases h7 : k < 7
    · exact .inl (mem_nonzeros.2 ⟨hz, k, Nat.zero_le k, by omega, hv⟩)
    · by_cases h8 : k = 7
      · subst h8
        exact .inr (.inl (mem_indZones.2 ⟨hv.trans_ne hz, .inl hv.symm⟩))
      · obtain rfl : k = 8 := by omega
        exact .inr (.inr (mem_dindZones.2 ⟨hv.trans_ne hz, .inl hv.symm⟩))
  · exact .inr (.inl (mem_indZones.2 ⟨h7, .inr ⟨rfl, hz, w, hw, hv⟩⟩))
  · have hv : d.blk ((d.ino i).zone 8) w = z := hv
    exact .inr (.inr (mem_dindZones.2 ⟨h8, .inr ⟨rfl, w, hw, mem_indZones.2 ⟨hv.trans_ne hz, .inl hv.symm⟩⟩⟩))
  · exact .inr (.inr (mem_dindZones.2 ⟨h8, .inr ⟨rfl, w, hw, mem_indZones.2 ⟨hc, .inr ⟨rfl, hz, v, hv', hv⟩⟩⟩⟩))

section Nodup

variable {ok : Nat → Bool} {first nzones : Nat} {d : Disk I}

theorem nodup_direct (hs : Sound d.trees first nzones) (i : I) : (nonzeros (d.ino i).zone 0 7).Nodup := by
  refine nodup_nonzeros fun v v' hv hv' hz he => ?_
  have h := at_ino (T := d.trees) (i := i) (k := v) (by omega) hz
  have h' := at_ino (T := d.trees) (i := i) (k := v') (by omega) (he.symm.trans_ne hz)
  injection h.inj hs (h'.of_eq he.symm)

/-- An indirect block that is at a place not its own. -/
theorem nodup_indZones (hs : Sound d.trees first nzones) {b : Nat} {lb : Loc I} (hb : At d.trees i lb b)
    (hslot : ∀ w, w < 512 → d.blk b w ≠ 0 → At d.trees i (.blk b w) (d.blk b w)) (hne : ∀ w, lb ≠ .blk b w) :
    (indZones ok d b).Nodup := by
  rw [indZones, slotZones, if_neg hb.nonzero]
  have hlist : (nonzeros (d.blk b) 0 512).flatMap (fun z => [z]) = nonzeros (d.blk b) 0 512 := List.flatMap_singleton' _
  have hbelow : (below ok (fun _ z => [z]) d b).Nodup := by
    unfold below
    split
    · rw [hlist]
      refine nodup_nonzeros fun w w' hw hw' hz he => ?_
      have h := hslot w (by omega) hz
      have h' := hslot w' (by omega) (he.symm.trans_ne hz)
      injection h.inj hs (h'.of_eq he.symm)
    · exact List.nodup_nil
  refine List.nodup_append.2 ⟨hbelow, List.nodup_singleton b, fun z hz y hy => ?_⟩
  rw [List.mem_singleton] at hy
  subst hy
  intro e
  subst e
  obtain ⟨-, c, hc, hz⟩ := mem_below.1 hz
  rw [List.mem_singleton] at hz
  obtain ⟨h0, w, -, hw, he⟩ := mem_nonzeros.1 hc
  have he : d.blk z w = z := he.trans hz.symm
  have h := hslot w (by omega) (he.trans_ne hb.nonzero)
  exact hne w (hb.inj hs (h.of_eq he))

theorem nodup_dindZones (hs : Sound d.trees first nzones) (i : I) : (dindZones ok d ((d.ino i).zone 8)).Nodup := by
  by_cases h8 : (d.ino i).zone 8 = 0
  · rw [dindZones, slotZones, if_pos h8]
    exact List.nodup_nil
  · have hb : At d.trees i (.ino i 8) ((d.ino i).zone 8) := at_ino (T := d.trees) (by omega) h8
    -- a block below the double indirect one is at one of its slots, and is not that block
    have hmid : ∀ c ∈ nonzeros (d.blk ((d.ino i).zone 8)) 0 512,
        ∃ w, At d.trees i (.blk ((d.ino i).zone 8) w) c ∧ c ≠ (d.ino i).zone 8 ∧
          ∀ v, v < 512 → d.blk c v ≠ 0 → At d.trees i (.blk c v) (d.blk c v) := by
      intro c hc
      obtain ⟨h0, w, -, hw, rfl⟩ := mem_nonzeros.1 hc
      have hw : w < 512 := by omega
      have hat := (at_dind (T := d.trees) hw (by omega : 0 < 512) h8 h0).1
      refine ⟨w, hat, fun e => ?_, fun v hv hz => (at_dind (T := d.trees) hw hv h8 h0).2 hz⟩
      cases hb.inj hs (hat.of_eq e)
    have hbelow : (below ok (indZones ok) d ((d.ino i).zone 8)).Nodup := by
      unfold below
      split
      · refine List.nodup_flatMap.2 ⟨fun c hc => ?_, ?_⟩
        · obtain ⟨w, hat, hne, hslot⟩ := hmid c hc
          refine nodup_indZones hs hat hslot fun v e => ?_
          injection e with e
          exact hne e.symm
        · have hnd : (nonzeros (d.blk ((d.ino i).zone 8)) 0 512).Nodup := by
            refine nodup_nonzeros fun w w' hw hw' hz he => ?_
            have h := (at_dind (T := d.trees) (by omega : w < 512) (by omega : 0 < 512) h8 hz).1
            have h' := (at_dind (T := d.trees) (by omega : w' < 512) (by omega : 0 < 512) h8 (he.symm.trans_ne hz)).1
            injection h.inj hs (h'.of_eq he.symm)
          refine hnd.pairwise_of_forall_ne fun c hc c' hc' hcc => ?_
          intro z hz hz'
          obtain ⟨w, hat, hne, hslot⟩ := hmid c hc
          obtain ⟨w', hat', hne', hslot'⟩ := hmid c' hc'
          obtain ⟨-, rfl | ⟨-, h0, v, hv, rfl⟩⟩ := mem_indZones.1 hz
          · obtain ⟨-, rfl | ⟨-, h0, v, hv, he⟩⟩ := mem_indZones.1 hz'
            · exact hcc rfl
            · injection hat.inj hs ((hslot' v hv (he.trans_ne h0)).of_eq he) with e
              exact hne' e.symm
          · have h := hslot v hv h0
            obtain ⟨-, he | ⟨-, -, v', hv', he⟩⟩ := mem_indZones.1 hz'
            · injection (h.of_eq he).inj hs hat' with e
              exact hne e
            · injection h.inj hs ((hslot' v' hv' (he.trans_ne h0)).of_eq he) with e
              exact hcc e
      · exact List.nodup_nil
    rw [dindZones, slotZones, if_neg h8]
    refine List.nodup_append.2 ⟨hbelow, List.nodup_singleton _, fun z hz y hy => ?_⟩
    rw [List.mem_singleton] at hy
    subst hy
    intro e
    subst e
    obtain ⟨-, c, hc, hz⟩ := mem_below.1 hz
    obtain ⟨w, hat, hne, hslot⟩ := hmid c hc
    obtain ⟨-, he | ⟨-, h0, v, hv, he⟩⟩ := mem_indZones.1 hz
    · exact hne he.symm
    · cases hb.inj hs ((hslot v hv (he.trans_ne h0)).of_eq he)

/-- No zone comes twice in the list of a file's zones. -/
theorem nodup_fileZones [DecidableEq I] (hs : Sound d.trees first nzones) (i : I) : (fileZones ok d i).Nodup := by
  have hind : (indZones ok d ((d.ino i).zone 7)).Nodup := by
    by_cases h7 : (d.ino i).zone 7 = 0
    · rw [indZones, slotZones, if_pos h7]
      exact List.nodup_nil
    · exact nodup_indZones hs (at_ino (T := d.trees) (by omega) h7) (fun w hw hz => at_ind (T := d.trees) hw h7 hz)
        fun w e => by cases e
  refine List.nodup_append.2 ⟨nodup_direct hs i, List.nodup_append.2 ⟨hind, nodup_dindZones hs i, fun z hz y hy e => ?_⟩,
    fun z hz y hy e => ?_⟩
  · subst e
    have h7 : At d.trees i (.ino i 7) ((d.ino i).zone 7) := at_ino (T := d.trees) (by omega) (mem_indZones.1 hz).1
    have h8 : At d.trees i (.ino i 8) ((d.ino i).zone 8) := at_ino (T := d.trees) (by omega) (mem_dindZones.1 hy).1
    have h78 : (d.ino i).zone 7 ≠ (d.ino i).zone 8 := by
      intro e
      rw [e] at h7
      cases h7.inj hs h8
    rcases ind_at hz with h | ⟨w, h⟩ <;> rcases dind_at hy with h' | ⟨w', h'⟩ | ⟨c, w', v, hc, h'⟩
    · cases h.inj hs h'
    · cases h.inj hs h'
    · cases h.inj hs h'
    · cases h.inj hs h'
    · injection h.inj hs h' with e
      exact h78 e
    · injection h.inj hs h' with e
      rw [← e] at hc
      cases h7.inj hs hc
  · subst e
    obtain ⟨k, hk, h⟩ := direct_at hz
    rcases List.mem_append.1 hy with hy | hy
    · rcases ind_at hy with h' | ⟨w, h'⟩
      · injection h.inj hs h' with _ e
        omega
      · cases h.inj hs h'
    · rcases dind_at hy with h' | ⟨w, h'⟩ | ⟨c, w, v, -, h'⟩
      · injection h.inj hs h' with _ e
        omega
      · cases h.inj hs h'
      · cases h.inj hs h'

end Nodup

end FileZones

/-! ## A tree taken away -/

section Truncation

variable [DecidableEq I] {d d' : Disk I} {i : I}

theorem Marked.canFree (hd : Marked d) (ok : Nat → Bool) (i : I) : CanFree d (fileZones ok d i) := by
  have href : ∀ z ∈ fileZones ok d i, Ref d.trees z := fun z hz => ref_iff.2 ⟨i, refBy_of_mem hz⟩
  exact ⟨nodup_fileZones hd.sound i, fun z hz => hd.sound.range z (href z hz), fun z hz => hd.bits z (href z hz),
    fun z _ => hd.hold z⟩

theorem Disk.cut_pruned (d : Disk I) (ok : Nat → Bool) (i : I) : Pruned d.trees (d.cut ok i).trees i where
  zone j hj := by simp [Disk.trees, Disk.cut, hj]
  zero k hk := by simp [Disk.trees, Disk.cut, hk]
  blk z hz := if_neg fun hm => hz (refBy_of_mem hm)

/-- `S_ISREG` or `S_ISDIR`. -/
def isFile (mode : Nat) : Bool := isReg mode || isDir mode

end Truncation

end Linux011.Fs
