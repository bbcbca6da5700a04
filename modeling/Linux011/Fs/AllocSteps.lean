/-
What `_bmap` does to a file system, slot by slot.

The walk to a block comes to one slot after the other. At each it leaves the
trees as they are or puts a new zone into an empty slot, and whether it gets a
zone or not, and whether or not the indirect blocks can be read, every zone in
a tree stays marked and at one place only (`Marked`).
-/
import Mathlib.Data.Finset.Card
import Mathlib.Order.Interval.Finset.Nat
import Mathlib.Tactic.Common
import Linux011.Fs.Alloc

namespace Linux011.Fs

variable {I : Type*}

/-! ## The invariant -/

/-- A bitmap that covers the data zones, with zones that fit a word. -/
structure MapOk (d : Disk I) : Prop where
  first : 0 < d.sb.firstdatazone
  short : d.sb.nzones ≤ 65536
  covers : d.sb.nzones + 1 ≤ d.sb.firstdatazone + 8192 * d.sb.zmapBlocks
  reserved : d.zmap 0 = true

/-- The zones of the trees are marked, and at one place; no buffer is in use. -/
structure Marked (d : Disk I) : Prop where
  map : MapOk d
  sound : Sound d.trees d.sb.firstdatazone d.sb.nzones
  bits : ∀ z, Ref d.trees z → d.bit z = true
  hold : ∀ z, d.hold z = 0

theorem Marked.not_ref {d : Disk I} (hd : Marked d) {z : Nat} (h : d.bit z = false) : ¬Ref d.trees z := by
  intro hr
  rw [hd.bits z hr] at h
  cases h

theorem Disk.index_inj (d : Disk I) {y z : Nat} (hy : d.sb.firstdatazone ≤ y) (hz : d.sb.firstdatazone ≤ z)
    (h : d.index y = d.index z) : y = z := by
  simp only [Disk.index] at h
  omega

theorem Disk.brelse_of_hold {d d' : Disk I} {b : Nat} (h : d'.hold = (d.bread b).hold) :
    d'.brelse b = { d' with hold := d.hold } := by
  have hh : Function.update d'.hold b (d'.hold b - 1) = d.hold := by
    rw [h]
    simp [Disk.bread]
  rw [Disk.brelse, hh]

/-! ## A new zone -/

/-- What `new_block` comes to: the disk is full, at most a bit beyond the zones
has changed, or a zone that was free is marked and its block cleared. -/
inductive NewBlock (d : Disk I) : Disk I → Nat → Prop
  | full (zmap) : zmap 0 = true →
      (∀ y, d.sb.firstdatazone ≤ y → y < d.sb.nzones → d.bit y = true ∧ zmap (d.index y) = true) →
      NewBlock d { d with zmap := zmap } 0
  | got (z) : d.sb.firstdatazone ≤ z → z < d.sb.nzones → d.bit z = false →
      NewBlock d
        { d with
          zmap := Function.update d.zmap (d.index z) true
          blk := Function.update d.blk z fun _ => 0 } z

theorem newBlock_spec {d : Disk I} (hm : MapOk d) (hh : ∀ z, d.bit z = false → d.hold z = 0) :
    ∃ d' z, newBlock d = some (d', z) ∧ NewBlock d d' z := by
  have hfirst := hm.first
  have hcovers := hm.covers
  unfold newBlock
  split
  · rename_i hnone
    refine ⟨d, 0, rfl, .full d.zmap hm.reserved fun y h1 h2 => ?_⟩
    have := firstZero_none hnone (d.index y) (Nat.zero_le _) (by simp only [Disk.index]; omega)
    exact ⟨this, this⟩
  · rename_i j hj
    obtain ⟨-, -, hjz, hlow⟩ := firstZero_some hj
    have hj0 : j ≠ 0 := by
      intro e
      rw [e, hm.reserved] at hjz
      cases hjz
    have hres : Function.update d.zmap j true 0 = true := by
      rw [Function.update_of_ne hj0.symm]
      exact hm.reserved
    have hindex : d.index (j + d.sb.firstdatazone - 1) = j := by
      simp only [Disk.index]
      omega
    by_cases hbig : d.sb.nzones ≤ j + d.sb.firstdatazone - 1
    · refine ⟨_, 0, if_pos hbig, .full _ hres fun y h1 h2 => ?_⟩
      have hy := hlow (d.index y) (Nat.zero_le _) (by simp only [Disk.index]; omega)
      refine ⟨hy, ?_⟩
      rw [Function.update_apply]
      split
      · rfl
      · exact hy
    · have hbit : d.bit (j + d.sb.firstdatazone - 1) = false := by
        rw [Disk.bit, hindex]
        exact hjz
      have hhold := hh _ hbit
      refine ⟨_, _, (if_neg hbig).trans ((if_neg ?_).trans
        (congrArg (fun e => some (e, _)) (Disk.brelse_of_hold (d := d) rfl))), ?_⟩
      · simp [Disk.bread, hhold]
      · have := NewBlock.got (d := d) (j + d.sb.firstdatazone - 1) (by omega) (by omega) hbit
        rw [hindex] at this
        exact this

/-! ## Slots -/

/-- The data zones that are not marked. -/
def freeZones (d : Disk I) : Finset Nat := {z ∈ Finset.Ico d.sb.firstdatazone d.sb.nzones | d.bit z = false}

/-- What coming to a place on the way to block `n` of file `i`, with `rest`
still to go, does to the file system. -/
structure Visit (d : Disk I) (i : I) (n : Nat) (rest : List Nat) (d' : Disk I) : Prop where
  marked : Marked d'
  sb : d'.sb = d.sb
  leads : ∀ {j m l rest}, m < maxBlock → Leads d.trees j m l rest → Leads d'.trees j m l rest
  bmap : ∀ j m, m < maxBlock → (rest = [] → (j, m) ≠ (i, n)) → d'.trees.bmap j m = d.trees.bmap j m
  keep : ∀ j m, m < maxBlock → d.trees.bmap j m ≠ 0 → d'.trees.bmap j m = d.trees.bmap j m
  refBy : ∀ j z, RefBy d.trees j z → RefBy d'.trees j z
  refs : ∀ z, Ref d'.trees z → Ref d.trees z ∨ RefBy d'.trees i z
  bits : ∀ y, d.sb.firstdatazone ≤ y → y < d.sb.nzones → (d'.bit y = true ↔ d.bit y = true ∨ RefBy d'.trees i y)
  leaf : ∀ j m, m < maxBlock → d.trees.bmap j m ≠ 0 → d'.blk (d.trees.bmap j m) = d.blk (d.trees.bmap j m)
  clear : d.trees.bmap i n = 0 → d'.trees.bmap i n ≠ 0 → ∀ w, d'.blk (d'.trees.bmap i n) w = 0
  room : (freeZones d).card ≤ (freeZones d').card + 1
  ino : ∀ j, d'.ino j = { d.ino j with zone := (d'.ino j).zone }
  others : ∀ j, j ≠ i → d'.ino j = d.ino j

section Slots

variable {d d' : Disk I} {i : I} {n : Nat} {l : Loc I} {rest : List Nat} {create : Bool}

theorem Marked.refBy_bit (hd : Marked d) {z : Nat} (h : RefBy d.trees i z) : d.bit z = true :=
  hd.bits z (ref_iff.2 ⟨i, h⟩)

theorem Visit.refl (hd : Marked d) : Visit d i n rest d where
  marked := hd
  sb := rfl
  leads _ h := h
  bmap _ _ _ _ := rfl
  keep _ _ _ _ := rfl
  refBy _ _ h := h
  refs _ h := .inl h
  bits _ _ _ := ⟨.inl, fun h => h.elim id hd.refBy_bit⟩
  leaf _ _ _ _ := rfl
  clear h h' := absurd h h'
  room := Nat.le_succ _
  ino _ := rfl
  others _ _ := rfl

/-- No zone was to be had. -/
theorem Visit.full (hd : Marked d) {zmap : Nat → Bool} (h0 : zmap 0 = true)
    (hz : ∀ y, d.sb.firstdatazone ≤ y → y < d.sb.nzones → d.bit y = true ∧ zmap (d.index y) = true) :
    Visit d i n rest { d with zmap := zmap } where
  marked := by
    refine ⟨⟨hd.map.first, hd.map.short, hd.map.covers, h0⟩, hd.sound, fun z hr => ?_, hd.hold⟩
    exact (hz z (hd.sound.range z hr).1 (hd.sound.range z hr).2).2
  sb := rfl
  leads _ h := h
  bmap _ _ _ _ := rfl
  keep _ _ _ _ := rfl
  refBy _ _ h := h
  refs _ h := .inl h
  bits y h1 h2 := ⟨fun _ => .inl (hz y h1 h2).1, fun _ => (hz y h1 h2).2⟩
  leaf _ _ _ _ := rfl
  clear h h' := absurd h h'
  room := by
    have he : freeZones d = ∅ := by
      refine Finset.filter_eq_empty_iff.2 fun y hy => ?_
      obtain ⟨h1, h2⟩ := Finset.mem_Ico.1 hy
      simp [(hz y h1 h2).1]
    rw [he]
    exact Nat.zero_le _
  ino _ := rfl
  others _ _ := rfl

theorem Disk.bit_mark (d : Disk I) {y z : Nat} (hy : d.sb.firstdatazone ≤ y) (hz : d.sb.firstdatazone ≤ z) :
    Function.update d.zmap (d.index z) true (d.index y) = if y = z then true else d.bit y := by
  rw [Function.update_apply]
  congr 1
  exact propext ⟨d.index_inj hy hz, fun e => e ▸ rfl⟩

variable [DecidableEq I]

/-- A new zone in an empty place. -/
theorem Visit.grow (hd : Marked d) (hl : Leads d.trees i n l rest) (hn : n < maxBlock) (h0 : d.trees.val l = 0)
    {z : Nat} (h1 : d.sb.firstdatazone ≤ z) (h2 : z < d.sb.nzones) (hb : d.bit z = false)
    (htrees : d'.trees = d.trees.grow l z) (hsb : d'.sb = d.sb) (hhold : d'.hold = d.hold)
    (hzmap : d'.zmap = Function.update d.zmap (d.index z) true)
    (hino : ∀ j, d'.ino j = { d.ino j with zone := (d'.ino j).zone }) (hothers : ∀ j, j ≠ i → d'.ino j = d.ino j) :
    Visit d i n rest d' := by
  have hz0 : z ≠ 0 := by
    have := hd.map.first
    omega
  have hz := hd.not_ref hb
  have href := Trees.ref_grow hl hn h0 hz hz0
  have hself : RefBy d'.trees i z := htrees ▸ RefBy.grow hl hn h0 hz hz0 (.inr ⟨rfl, rfl⟩)
  have hbit : ∀ y, d.sb.firstdatazone ≤ y → d'.bit y = if y = z then true else d.bit y := by
    intro y hy
    rw [← d.bit_mark hy h1, Disk.bit, Disk.index, hsb, hzmap]
    rfl
  have hblk : d'.blk = (d.trees.grow l z).blk := congrArg Trees.blk htrees
  have hmarked : Marked d' := by
    refine ⟨⟨hsb ▸ hd.map.first, hsb ▸ hd.map.short, hsb ▸ hd.map.covers, ?_⟩, ?_, fun y hy => ?_, fun y => ?_⟩
    · rw [hzmap, Function.update_apply]
      split
      · rfl
      · exact hd.map.reserved
    · rw [htrees, hsb]
      exact hd.sound.grow hl hn h0 hz hz0 ⟨h1, h2⟩
    · rw [htrees, href] at hy
      rcases hy with hy | rfl
      · rw [hbit y (hd.sound.range y hy).1, hd.bits y hy]
        exact ite_self _
      · rw [hbit y h1, if_pos rfl]
    · rw [hhold]
      exact hd.hold y
  exact
    { marked := hmarked
      sb := hsb
      leads := fun hm h => htrees ▸ hl.grow hn h0 hz hz0 hm h
      bmap := fun j m hm hne => htrees ▸ Trees.bmap_grow_of_ne hd.sound hl hn h0 hz hz0 hm hne
      keep := fun j m hm hb => htrees ▸ Trees.bmap_grow hl hn h0 hz hz0 hm hb
      refBy := fun j y hy => htrees ▸ RefBy.grow hl hn h0 hz hz0 (.inl hy)
      refs := fun y hy => by
        rw [htrees, href] at hy
        rcases hy with hy | rfl
        · exact .inl hy
        · exact .inr hself
      bits := fun y hy1 hy2 => by
        rw [hbit y hy1]
        constructor
        · intro h
          split at h
          · rename_i e
            exact .inr (e ▸ hself)
          · exact .inl h
        · intro h
          rcases h with h | h
          · rw [h]
            exact ite_self _
          · rw [← hbit y hy1]
            exact hmarked.refBy_bit h
      leaf := fun j m hm hne => by
        rw [hblk]
        refine Trees.blk_grow_of_ne _ _ (fun e => hz ?_) fun w e => ?_
        · exact e ▸ ref_iff.2 ⟨j, Trees.bmap_refBy hm hne⟩
        · rw [e] at hl
          exact hd.sound.leaf_ne hl hn hm hne rfl
      clear := fun hzero hne w => by
        have hrest : rest = [] := by
          by_contra hrest
          refine hne ?_
          rw [htrees, Trees.bmap_grow_of_ne hd.sound hl hn h0 hz hz0 hn fun e => absurd e hrest]
          exact hzero
        subst hrest
        have hv : d'.trees.bmap i n = z := by
          rw [htrees, (hl.grow hn h0 hz hz0 hn hl).bmap_end, Trees.val_grow hz hn hl, if_pos rfl]
        rw [hv, hblk]
        exact Trees.val_grow_new hl hn hz w
      room := by
        have hsub : freeZones d ⊆ insert z (freeZones d') := by
          intro y hy
          obtain ⟨hrange, hfree⟩ := Finset.mem_filter.1 hy
          by_cases he : y = z
          · exact he ▸ Finset.mem_insert_self _ _
          · refine Finset.mem_insert_of_mem (Finset.mem_filter.2 ⟨hsb ▸ hrange, ?_⟩)
            rw [hbit y (Finset.mem_Ico.1 hrange).1, if_neg he]
            exact hfree
        exact (Finset.card_le_card hsub).trans (Finset.card_insert_le _ _)
      ino := hino
      others := hothers }

theorem Disk.setZone_trees (d : Disk I) (i : I) (k : Nat) {z : Nat} (hz : z < 65536) :
    (d.setZone i k z).trees = d.trees.set (.ino i k) z := by
  have hzone : (fun j => ((d.setZone i k z).ino j).zone) =
      Function.update (fun j => (d.ino j).zone) i (Function.update (d.ino i).zone k z) := by
    ext j
    simp only [Disk.setZone, Function.update_apply, Nat.mod_eq_of_lt hz]
    split <;> rfl
  simp only [Disk.trees, Trees.set, hzone]
  rfl

/-- What a slot comes to: the disk afterwards and the zone in it. -/
structure Slot.Ok (create : Bool) (d : Disk I) (i : I) (n : Nat) (l : Loc I) (rest : List Nat) (d' : Disk I)
    (z : Nat) : Prop where
  visit : Visit d i n rest d'
  val : z = d'.trees.val l
  same : create = false → d' = d
  full : create = true → z = 0 → freeZones d' = ∅

omit [DecidableEq I] in
theorem freeZones_eq_empty (h : ∀ y, d.sb.firstdatazone ≤ y → y < d.sb.nzones → d.bit y = true) : freeZones d = ∅ := by
  refine Finset.filter_eq_empty_iff.2 fun y hy => ?_
  obtain ⟨h1, h2⟩ := Finset.mem_Ico.1 hy
  simp [h y h1 h2]

theorem inodeSlot_spec (hd : Marked d) (hn : n < maxBlock) {k : Nat} (hl : Leads d.trees i n (.ino i k) rest)
    (create : Bool) :
    ∃ d' z, inodeSlot create d i k = some (d', z) ∧ Slot.Ok create d i n (.ino i k) rest d' z := by
  unfold inodeSlot
  split
  · rename_i hc
    simp only [Bool.and_eq_true, beq_iff_eq] at hc
    have hfalse : create = false → False := fun e => by simp [e] at hc
    obtain ⟨d', z, hnew, ho⟩ := newBlock_spec hd.map fun z _ => hd.hold z
    refine ⟨d'.setZone i k z, z % 65536, by rw [hnew]; rfl, ?_, ?_, fun e => (hfalse e).elim, fun _ hz0 => ?_⟩
    · cases ho with
      | full zmap h0 hz =>
        -- the entry is set to the 0 it has
        have hset : ({ d with zmap := zmap } : Disk I).setZone i k 0 = { d with zmap := zmap } := by
          have hk : Function.update (d.ino i).zone k 0 = (d.ino i).zone := by
            rw [← hc.2]
            exact Function.update_eq_self k _
          simp [Disk.setZone, hk]
        rw [hset]
        exact .full hd h0 hz
      | got z h1 h2 hb =>
        have hshort : z < 65536 := Nat.lt_of_lt_of_le h2 hd.map.short
        refine .grow hd hl hn hc.2 h1 h2 hb (Disk.setZone_trees _ i k hshort) rfl rfl rfl (fun j => ?_)
          fun j hj => Function.update_of_ne hj _ _
        simp only [Disk.setZone, Function.update_apply]
        split
        · rename_i e
          rw [e]
        · rfl
    · simp [Disk.setZone, Disk.trees, Trees.val]
    · cases ho with
      | full zmap h0 hz => exact freeZones_eq_empty fun y h1 h2 => (hz y h1 h2).2
      | got z h1 h2 hb =>
        rw [Nat.mod_eq_of_lt (Nat.lt_of_lt_of_le h2 hd.map.short)] at hz0
        have := hd.map.first
        omega
  · rename_i hc
    refine ⟨d, _, rfl, .refl hd, rfl, fun _ => rfl, fun hcreate hz => absurd ?_ hc⟩
    simpa [hcreate] using hz

theorem blockSlot_spec (hd : Marked d) (hn : n < maxBlock) {b w : Nat} (hl : Leads d.trees i n (.blk b w) rest)
    (create : Bool) :
    ∃ d' z, blockSlot create d b w = some (d', z) ∧ Slot.Ok create d i n (.blk b w) rest d' z := by
  by_cases hc : (create && (d.bread b).blk b w == 0) = true
  · have hslot : blockSlot create d b w = _ := if_pos hc
    simp only [Bool.and_eq_true, beq_iff_eq] at hc
    have hfalse : create = false → False := fun e => by simp [e] at hc
    have hc0 : d.blk b w = 0 := hc.2
    -- the block in hand is marked, so it is not the new one
    have hmarked : d.bit b = true := hd.bits b (hl.ref_block hn)
    obtain ⟨d', z, hnew, ho⟩ := newBlock_spec (d := d.bread b)
      ⟨hd.map.first, hd.map.short, hd.map.covers, hd.map.reserved⟩ fun z hz => by
        have hne : z ≠ b := by
          intro e
          have hz : d.bit z = false := hz
          rw [e, hmarked] at hz
          cases hz
        exact (Function.update_of_ne hne _ _).trans (hd.hold z)
    rw [hnew] at hslot
    refine ⟨_, z, hslot, ?_⟩
    cases ho with
    | full zmap h0 hz =>
      have he : (if (0 : Nat) = 0 then ({ d.bread b with zmap := zmap } : Disk I)
          else ({ d.bread b with zmap := zmap } : Disk I).setWord b w 0).brelse b = { d with zmap := zmap } := by
        rw [if_pos rfl]
        exact Disk.brelse_of_hold (d := d) rfl
      simp only at he ⊢
      rw [he]
      exact ⟨.full hd h0 hz, hc0.symm, fun e => (hfalse e).elim,
        fun _ _ => freeZones_eq_empty fun y h1 h2 => (hz y h1 h2).2⟩
    | got z h1 h2 hb =>
      have h1 : d.sb.firstdatazone ≤ z := h1
      have h2 : z < d.sb.nzones := h2
      have hshort : z < 65536 := Nat.lt_of_lt_of_le h2 hd.map.short
      have hz0 : z ≠ 0 := by
        have := hd.map.first
        omega
      have hrel : (({ d.bread b with
          zmap := Function.update d.zmap (d.index z) true
          blk := Function.update d.blk z fun _ => 0 } : Disk I).setWord b w z).brelse b =
          ({ d with
            zmap := Function.update d.zmap (d.index z) true
            blk := Function.update d.blk z fun _ => 0 } : Disk I).setWord b w z := Disk.brelse_of_hold (d := d) rfl
      rw [if_neg hz0]
      refine hrel ▸ ⟨.grow hd hl hn hc0 h1 h2 hb ?_ rfl rfl rfl (fun _ => rfl) fun _ _ => rfl, ?_,
        fun e => (hfalse e).elim, fun _ hz => absurd hz hz0⟩
      · simp only [Disk.setWord, Nat.mod_eq_of_lt hshort]
        rfl
      · simp [Disk.setWord, Disk.trees, Trees.val, Nat.mod_eq_of_lt hshort]
  · refine ⟨d, _, (if_neg hc).trans ?_, .refl hd, rfl, fun _ => rfl, fun hcreate hz => absurd ?_ hc⟩
    · exact congrArg (fun e => some (e, _)) (Disk.brelse_of_hold (d := d) rfl)
    · rw [hcreate, Bool.true_and, beq_iff_eq]
      exact hz

/-! ## The walk -/

/-- `_bmap` below the inode. -/
def descend (ok : Nat → Bool) (create : Bool) (d : Disk I) (z : Nat) : List Nat → Option (Disk I × Nat)
  | [] => some (d, z)
  | w :: rest =>
    if z = 0 then some (d, 0) else (blockSlotIo ok create d z w).bind fun r => descend ok create r.1 r.2 rest

omit [DecidableEq I] in
theorem descend_one (ok : Nat → Bool) (create : Bool) (d : Disk I) (z w : Nat) :
    descend ok create d z [w] = if z = 0 then some (d, 0) else blockSlotIo ok create d z w := by
  simp only [descend]
  split
  · rfl
  · exact Option.bind_fun_some _

theorem bmapCreateIo_eq (ok : Nat → Bool) (create : Bool) (d : Disk I) (i : I) (hn : n < maxBlock) :
    bmapCreateIo ok create d i n =
      (inodeSlot create d i (path n).1).bind fun r => descend ok create r.1 r.2 (path n).2 := by
  unfold bmapCreateIo
  rw [if_neg (Nat.not_le.2 hn)]
  unfold path
  split
  · exact (Option.bind_fun_some _).symm
  · split
    · simp only [descend_one]
    · simp only [descend]
      congr 1
      ext r : 1
      split
      · rfl
      · congr 1
        ext r' : 1
        split
        · rfl
        · exact (Option.bind_fun_some _).symm

/-- What `_bmap` comes to, with `k` slots to fill at most. -/
structure Mapped (ok : Nat → Bool) (create : Bool) (d : Disk I) (i : I) (n k : Nat) (d' : Disk I) (z : Nat) : Prop where
  marked : Marked d'
  sb : d'.sb = d.sb
  self : z ≠ 0 → d'.trees.bmap i n = z
  zero : (∀ b, ok b = true) → z = 0 → d'.trees.bmap i n = 0
  other : ∀ j m, m < maxBlock → (j, m) ≠ (i, n) → d'.trees.bmap j m = d.trees.bmap j m
  keep : ∀ j m, m < maxBlock → d.trees.bmap j m ≠ 0 → d'.trees.bmap j m = d.trees.bmap j m
  refBy : ∀ j z, RefBy d.trees j z → RefBy d'.trees j z
  refs : ∀ z, Ref d'.trees z → Ref d.trees z ∨ RefBy d'.trees i z
  bits : ∀ y, d.sb.firstdatazone ≤ y → y < d.sb.nzones → (d'.bit y = true ↔ d.bit y = true ∨ RefBy d'.trees i y)
  leaf : ∀ j m, m < maxBlock → d.trees.bmap j m ≠ 0 → d'.blk (d.trees.bmap j m) = d.blk (d.trees.bmap j m)
  clear : d.trees.bmap i n = 0 → d'.trees.bmap i n ≠ 0 → ∀ w, d'.blk (d'.trees.bmap i n) w = 0
  full : create = true → (∀ b, ok b = true) → z = 0 → (freeZones d).card ≤ k
  ino : ∀ j, d'.ino j = { d.ino j with zone := (d'.ino j).zone }
  others : ∀ j, j ≠ i → d'.ino j = d.ino j
  same : create = false → d' = d

section Walk

variable {ok : Nat → Bool} {k : Nat}

omit [DecidableEq I] in
theorem Mapped.refl (hd : Marked d) {z : Nat} (hself : z ≠ 0 → d.trees.bmap i n = z)
    (hzero : (∀ b, ok b = true) → z = 0 → d.trees.bmap i n = 0)
    (hfull : create = true → (∀ b, ok b = true) → z = 0 → (freeZones d).card ≤ k) :
    Mapped ok create d i n k d z where
  marked := hd
  sb := rfl
  self := hself
  zero := hzero
  other _ _ _ _ := rfl
  keep _ _ _ _ := rfl
  refBy _ _ h := h
  refs _ h := .inl h
  bits _ _ _ := ⟨.inl, fun h => h.elim id hd.refBy_bit⟩
  leaf _ _ _ _ := rfl
  clear h h' := absurd h h'
  full := hfull
  ino _ := rfl
  others _ _ := rfl
  same _ := rfl

omit [DecidableEq I] in
theorem Mapped.of_slot {d₁ : Disk I} {z z' : Nat} (hn : n < maxBlock) (hs : Slot.Ok create d i n l rest d₁ z)
    (h : Mapped ok create d₁ i n k d' z') : Mapped ok create d i n (k + 1) d' z' where
  marked := h.marked
  sb := h.sb.trans hs.visit.sb
  self := h.self
  zero := h.zero
  other j m hm hne := (h.other j m hm hne).trans (hs.visit.bmap j m hm fun _ => hne)
  keep j m hm hz := by
    have h1 := hs.visit.keep j m hm hz
    exact (h.keep j m hm (h1 ▸ hz)).trans h1
  refBy j y hy := h.refBy j y (hs.visit.refBy j y hy)
  refs y hy := by
    rcases h.refs y hy with hy | hy
    · exact (hs.visit.refs y hy).imp_right (h.refBy i y)
    · exact .inr hy
  bits y h1 h2 := by
    have hsb := hs.visit.sb
    rw [h.bits y (hsb ▸ h1) (hsb ▸ h2), hs.visit.bits y h1 h2, or_assoc]
    exact or_congr_right ⟨fun hy => hy.elim (h.refBy i y) id, .inr⟩
  leaf j m hm hz := by
    have h1 := hs.visit.keep j m hm hz
    have h2 := h.leaf j m hm (h1 ▸ hz)
    rw [h1] at h2
    exact h2.trans (hs.visit.leaf j m hm hz)
  clear h0 hne := by
    by_cases h1 : d₁.trees.bmap i n = 0
    · exact h.clear h1 hne
    · intro w
      rw [h.keep i n hn h1, h.leaf i n hn h1]
      exact hs.visit.clear h0 h1 w
  full hc hok hz := hs.visit.room.trans (Nat.add_le_add_right (h.full hc hok hz) 1)
  ino j := by
    have h1 := h.ino j
    rw [hs.visit.ino j] at h1
    exact h1
  others j hj := (h.others j hj).trans (hs.visit.others j hj)
  same e := (h.same e).trans (hs.same e)

theorem descend_spec (ok : Nat → Bool) (create : Bool) (hd : Marked d) (hn : n < maxBlock)
    (hl : Leads d.trees i n l rest) (hfull : create = true → d.trees.val l = 0 → freeZones d = ∅) :
    ∃ d' z, descend ok create d (d.trees.val l) rest = some (d', z) ∧ Mapped ok create d i n rest.length d' z := by
  induction rest generalizing d l with
  | nil =>
    refine ⟨d, _, rfl, .refl hd (fun _ => hl.bmap_end) (fun _ hz => hl.bmap_end.trans hz) fun hc _ hz => ?_⟩
    rw [hfull hc hz]
    exact Nat.le_refl 0
  | cons w rest ih =>
    by_cases hz : d.trees.val l = 0
    · refine ⟨d, 0, if_pos hz, .refl hd (fun h => absurd rfl h) (fun _ _ => ?_) fun hc _ _ => ?_⟩
      · rw [hl.bmap, Trees.walk, if_pos hz]
      · rw [hfull hc hz]
        exact Nat.zero_le _
    · have hdown := Leads.down hl hz
      cases hok : ok (d.trees.val l) with
      | false =>
        have hread : blockSlotIo ok create d (d.trees.val l) w = some (d, 0) := by
          rw [blockSlotIo, hok]
          rfl
        have hnot : ∀ {p : Prop}, (∀ b, ok b = true) → p := fun h => by
          rw [h] at hok
          cases hok
        refine ⟨d, 0, ?_, .refl hd (fun h => absurd rfl h) (fun h _ => hnot h) fun _ h _ => hnot h⟩
        rw [descend, if_neg hz, hread]
        cases rest <;> rfl
      | true =>
        obtain ⟨d₁, z₁, hslot, hs⟩ := blockSlot_spec hd hn hdown create
        obtain ⟨d', z, hrest, hm⟩ := ih hs.visit.marked (hs.visit.leads hn hdown) fun hc h0 =>
          hs.full hc (hs.val.trans h0)
        refine ⟨d', z, ?_, .of_slot hn hs hm⟩
        rw [descend, if_neg hz, blockSlotIo, hok, if_pos rfl, hslot]
        rw [← hs.val] at hrest
        exact hrest

/-- **`_bmap`** never halts on a block a file can have, returns the block's
zone if it could read its way there, and keeps the zones marked. -/
theorem bmapCreateIo_spec (ok : Nat → Bool) (hd : Marked d) (hn : n < maxBlock) (create : Bool) (i : I) :
    ∃ d' z, bmapCreateIo ok create d i n = some (d', z) ∧
      Mapped ok create d i n ((path n).2.length + 1) d' z := by
  obtain ⟨d₁, z₁, hslot, hs⟩ := inodeSlot_spec hd hn (.root : Leads d.trees i n _ _) create
  obtain ⟨d', z, hrest, hm⟩ := descend_spec ok create hs.visit.marked hn (hs.visit.leads hn .root) fun hc h0 =>
    hs.full hc (hs.val.trans h0)
  refine ⟨d', z, ?_, .of_slot hn hs hm⟩
  rw [bmapCreateIo_eq ok create d i hn, hslot]
  rw [← hs.val] at hrest
  exact hrest

end Walk

end Slots

end Linux011.Fs
