/-
The zone bitmap and the files' trees say the same.

Between calls a data zone is marked if and only if a walk of some file meets
it, and then at one place only (`Exact`). `_bmap` keeps this at each of its
levels, whether `new_block` has a zone for it or not, and `truncate` frees the
zones of one tree.
-/
import Linux011.Lib.Run
import Linux011.Fs.AllocFree

namespace Linux011.Fs

variable {I : Type*}

structure Exact (d : Disk I) : Prop where
  map : MapOk d
  sound : Sound d.trees d.sb.firstdatazone d.sb.nzones
  bits : ∀ z, d.sb.firstdatazone ≤ z → z < d.sb.nzones → (d.bit z = true ↔ Ref d.trees z)
  hold : ∀ z, d.hold z = 0

theorem Exact.marked {d : Disk I} (hd : Exact d) : Marked d :=
  ⟨hd.map, hd.sound, fun z h => (hd.bits z (hd.sound.range z h).1 (hd.sound.range z h).2).2 h, hd.hold⟩

/-! ## Truncation -/

section Truncation

variable [DecidableEq I] {d d' : Disk I} {i : I} {n : Nat}

theorem Exact.canFree (hd : Exact d) (i : I) : CanFree d (fileZones (fun _ => true) d i) := hd.marked.canFree _ i

/-- A file's tree taken away, its zones freed. -/
theorem Exact.prune (hd : Exact d) (hp : Pruned d.trees d'.trees i) (hsb : d'.sb = d.sb)
    (hz : d'.zmap = (d.freed (fileZones (fun _ => true) d i)).zmap) (hh : d'.hold = d.hold) : Exact d' := by
  have hbit : ∀ y, d.sb.firstdatazone ≤ y → d'.bit y = (d.bit y && !decide (y ∈ fileZones (fun _ => true) d i)) := by
    intro y hy
    rw [← d.bit_freed (fun z hz => ((hd.canFree i).range z hz).1) hy, Disk.bit, Disk.index, hsb, hz]
    rfl
  refine ⟨⟨hsb ▸ hd.map.first, hsb ▸ hd.map.short, hsb ▸ hd.map.covers, ?_⟩, hsb ▸ hp.sound hd.sound, fun y h1 h2 => ?_,
    fun y => hh ▸ hd.hold y⟩
  · have h0 : (0 : Nat) ∉ (fileZones (fun _ => true) d i).map d.index := by
      intro hm
      obtain ⟨z, hz, he⟩ := List.mem_map.1 hm
      have := ((hd.canFree i).range z hz).1
      simp only [Disk.index] at he
      omega
    rw [hz, Disk.freed]
    simp [hd.map.reserved, h0]
  · rw [hsb] at h1 h2
    rw [hbit y h1, ref_iff]
    simp only [Bool.and_eq_true, Bool.not_eq_true', decide_eq_false_iff_not, mem_fileZones, hp.refBy hd.sound,
      hd.bits y h1 h2, ref_iff]
    constructor
    · intro h
      obtain ⟨⟨j, hj⟩, hi⟩ := h
      exact ⟨j, fun e => hi (e ▸ hj), hj⟩
    · intro h
      obtain ⟨j, hji, hj⟩ := h
      exact ⟨⟨j, hj⟩, fun hi => hji (hd.sound.refBy_unique hj hi)⟩

theorem truncate_spec (hd : Exact d) (hf : isFile (d.ino i).mode = true) :
    truncate d i = some (d.cut (fun _ => true) i) := by
  rw [← truncateIo_readable]
  exact truncateIo_eq (hd.canFree i) hf

theorem bmapCreate_spec (hd : Exact d) (hn : n < maxBlock) (create : Bool) (i : I) :
    ∃ d' z, bmapCreate create d i n = some (d', z) ∧ Exact d' ∧ d'.trees.bmap i n = z ∧
      Mapped (fun _ => true) create d i n ((path n).2.length + 1) d' z := by
  obtain ⟨d', z, hrun, hm⟩ := bmapCreateIo_spec (fun _ => true) hd.marked hn create i
  refine ⟨d', z, hrun, ⟨hm.marked.map, hm.marked.sound, fun y h1 h2 => ?_, hm.marked.hold⟩, ?_, hm⟩
  · rw [hm.sb] at h1 h2
    refine ⟨fun h => ?_, hm.marked.bits y⟩
    rcases (hm.bits y h1 h2).1 h with h | h
    · obtain ⟨j, hj⟩ := ref_iff.1 ((hd.bits y h1 h2).1 h)
      exact ref_iff.2 ⟨j, hm.refBy j y hj⟩
    · exact ref_iff.2 ⟨i, h⟩
  · by_cases hz : z = 0
    · rw [hz]
      exact hm.zero (fun _ => rfl) hz
    · exact hm.self hz

/-! ## Runs -/

/-- The calls, an inode made anew, and the write of a block to the disk. -/
inductive Op (I : Type*)
  | create (i : I) (n : Nat)
  | bmap (i : I) (n : Nat)
  | truncate (i : I)
  | iput (i : I)
  | newInode (i : I) (mode : Nat)
  | writeBack (z : Nat)

/-- A file system, and what `create_block` last returned for each block since the file was cut. -/
structure History (I : Type*) where
  disk : Disk I
  last : I → Nat → Nat

def Op.run (s : History I) : Op I → Option (History I)
  | .create i n =>
    (createBlock s.disk i n).map fun r => ⟨r.1, Function.update s.last i (Function.update (s.last i) n r.2)⟩
  | .bmap i n => (Linux011.Fs.bmap s.disk i n).map fun r => ⟨r.1, s.last⟩
  | .truncate i => (Linux011.Fs.truncate s.disk i).map fun d => ⟨d, Function.update s.last i fun _ => 0⟩
  | .iput i => (iputLast s.disk i).map fun d => ⟨d, Function.update s.last i fun _ => 0⟩
  | .newInode i mode =>
    some ⟨{ s.disk with ino := Function.update s.disk.ino i { DInode.blank with mode := mode, nlinks := 1 } },
      Function.update s.last i fun _ => 0⟩
  | .writeBack z => some { s with disk := { s.disk with disk := Function.update s.disk.disk z (s.disk.blk z) } }

def Op.Step (s : History I) (o : Op I) (s' : History I) : Prop := o.run s = some s'

/-- The calls are for regular files and directories, the blocks are ones a file
can have, and an inode made anew is a free one. -/
def Op.Legal (s : History I) : Op I → Prop
  | .create i n | .bmap i n => isFile (s.disk.ino i).mode = true ∧ n < maxBlock
  | .truncate i | .iput i => isFile (s.disk.ino i).mode = true
  | .newInode i mode => (s.disk.ino i).mode = 0 ∧ isFile mode = true
  | .writeBack _ => True

/-- Every state of a run. -/
structure Good (s : History I) : Prop where
  exact : Exact s.disk
  kind : ∀ i, ((s.disk.ino i).mode = 0 ∧ ∀ k, k < 9 → (s.disk.ino i).zone k = 0) ∨ isFile (s.disk.ino i).mode = true
  last : ∀ i n, n < maxBlock → s.disk.trees.bmap i n = s.last i n

theorem Good.create {s : History I} (hs : Good s) (hn : n < maxBlock) (hf : isFile (s.disk.ino i).mode = true) :
    ∃ s', (Op.create i n).run s = some s' ∧ Good s' := by
  obtain ⟨d', z, hrun, hexact, hself, hm⟩ := bmapCreate_spec hs.exact hn true i
  refine ⟨_, by rw [Op.run, createBlock, hrun]; rfl, hexact, fun j => ?_, fun j m hmm => ?_⟩
  · by_cases hj : j = i
    · rw [hm.ino j, hj]
      exact .inr hf
    · simp only [hm.others j hj]
      exact hs.kind j
  · simp only [Function.update_apply]
    split
    · rename_i hj
      subst hj
      rw [Function.update_apply]
      split
      · rename_i hmn
        rw [hmn]
        exact hself
      · rename_i hmn
        rw [hm.other j m hmm fun e => hmn (congrArg Prod.snd e)]
        exact hs.last j m hmm
    · rename_i hj
      rw [hm.other j m hmm fun e => hj (congrArg Prod.fst e)]
      exact hs.last j m hmm

/-- A file's tree is taken away, and its inode is made one without zones. -/
theorem Good.prune {s : History I} (hs : Good s) (hp : Pruned s.disk.trees d'.trees i) (hsb : d'.sb = s.disk.sb)
    (hz : d'.zmap = (s.disk.freed (fileZones (fun _ => true) s.disk i)).zmap) (hh : d'.hold = s.disk.hold)
    (hother : ∀ j, j ≠ i → d'.ino j = s.disk.ino j)
    (hkind : ((d'.ino i).mode = 0 ∧ ∀ k, k < 9 → (d'.ino i).zone k = 0) ∨ isFile (d'.ino i).mode = true) :
    Good ⟨d', Function.update s.last i fun _ => 0⟩ := by
  refine ⟨hs.exact.prune hp hsb hz hh, fun j => ?_, fun j m hm => ?_⟩
  · by_cases hj : j = i
    · rw [hj]
      exact hkind
    · simp only [hother j hj]
      exact hs.kind j
  · simp only [Function.update_apply]
    split
    · rename_i hj
      subst hj
      exact hp.bmap_self hs.exact.sound hm
    · rename_i hj
      rw [hp.bmap_of_ne hs.exact.sound hj hm]
      exact hs.last j m hm

theorem Good.truncate {s : History I} (hs : Good s) (hf : isFile (s.disk.ino i).mode = true) :
    ∃ s', (Op.truncate i).run s = some s' ∧ Good s' := by
  refine ⟨_, by rw [Op.run, truncate_spec hs.exact hf]; rfl, ?_⟩
  refine hs.prune (s.disk.cut_pruned (fun _ => true) i) rfl rfl rfl (fun j hj => Function.update_of_ne hj _ _) (.inr ?_)
  simpa [Disk.cut] using hf

theorem Good.iput {s : History I} (hs : Good s) (hf : isFile (s.disk.ino i).mode = true) :
    ∃ s', (Op.iput i).run s = some s' ∧ Good s' := by
  refine ⟨_, by rw [Op.run, iputLast, truncate_spec hs.exact hf]; rfl, ?_⟩
  have hcut := s.disk.cut_pruned (fun _ => true) i
  refine hs.prune ⟨fun j hj => ?_, fun k _ => ?_, hcut.blk⟩ rfl rfl rfl (fun j hj => ?_) (.inl ?_)
  · simp [Disk.trees, Disk.cut, hj]
  · simp [Disk.trees, Disk.cut, DInode.blank]
  · simp [Disk.cut, hj]
  · simp [Disk.cut, DInode.blank]

/-- An inode without zones has an empty list. -/
theorem fileZones_eq_nil (h : ∀ k, k < 9 → (d.ino i).zone k = 0) : fileZones (fun _ => true) d i = [] := by
  refine List.eq_nil_iff_forall_not_mem.2 fun z hz => ?_
  obtain ⟨l, hl⟩ := refBy_iff_at.1 (mem_fileZones.1 hz)
  rcases hl.cases with ⟨k, hk, rfl⟩ | ⟨-, -, h7, -⟩ | ⟨-, -, h8, -⟩ | ⟨-, -, -, -, h8, -, -⟩
  · exact hl.nonzero (hl.val.symm.trans (h k hk))
  · exact h7 (h 7 (by omega))
  · exact h8 (h 8 (by omega))
  · exact h8 (h 8 (by omega))

theorem Good.newInode {s : History I} (hs : Good s) {mode : Nat} (h0 : (s.disk.ino i).mode = 0) (hf : isFile mode = true) :
    ∃ s', (Op.newInode i mode).run s = some s' ∧ Good s' := by
  have hz : ∀ k, k < 9 → (s.disk.ino i).zone k = 0 := by
    rcases hs.kind i with ⟨-, hz⟩ | hfile
    · exact hz
    · rw [h0] at hfile
      cases hfile
  refine ⟨_, rfl, hs.prune ⟨fun j hj => ?_, fun k _ => ?_, fun _ _ => rfl⟩ rfl ?_ rfl (fun j hj => ?_) (.inr ?_)⟩
  · simp [Disk.trees, hj]
  · simp [Disk.trees, DInode.blank]
  · rw [fileZones_eq_nil hz, Disk.freed_nil]
  · exact Function.update_of_ne hj _ _
  · simpa using hf

/-- **One call** from a good state: no panic, and a good state again. -/
theorem Good.run {s : History I} (hs : Good s) {o : Op I} (ho : o.Legal s) : ∃ s', o.run s = some s' ∧ Good s' := by
  cases o with
  | create i n => exact hs.create ho.2 ho.1
  | bmap i n =>
    obtain ⟨d', z, hrun, -, -, hm⟩ := bmapCreate_spec hs.exact ho.2 false i
    obtain rfl := hm.same rfl
    exact ⟨_, by rw [Op.run, bmap, hrun]; rfl, hs⟩
  | truncate i => exact hs.truncate ho
  | iput i => exact hs.iput ho
  | newInode i mode => exact hs.newInode ho.1 ho.2
  | writeBack z =>
    have hm := hs.exact.map
    exact ⟨_, rfl, ⟨⟨hm.first, hm.short, hm.covers, hm.reserved⟩, hs.exact.sound, hs.exact.bits, hs.exact.hold⟩,
      hs.kind, hs.last⟩

/-- **Zone allocation is exact.** In every state a sequence of calls reaches: a
zone is at one place of one file's tree, a data zone is marked if and only if it
is in a tree, `bmap` returns what `create_block` last returned since the file was cut,
no call halts, and `truncate` clears the marks of the file's zones and no others. -/
theorem zones_exact {s s' : History I} (h0 : Good s) (hr : Run.Reaches (Run.Under (fun s o => Op.Legal s o) Op.Step) s s') :
    (∀ i n l rest i' n' l' rest', n < maxBlock → n' < maxBlock → Leads s'.disk.trees i n l rest →
      Leads s'.disk.trees i' n' l' rest' → s'.disk.trees.val l ≠ 0 →
      s'.disk.trees.val l = s'.disk.trees.val l' → i = i' ∧ l = l') ∧
    (∀ z, s'.disk.sb.firstdatazone ≤ z → z < s'.disk.sb.nzones → (s'.disk.bit z = true ↔ Ref s'.disk.trees z)) ∧
    (∀ i n, n < maxBlock → bmap s'.disk i n = some (s'.disk, s'.last i n)) ∧
    (∀ o : Op I, o.Legal s' → (o.run s').isSome) ∧
    ∀ i, isFile (s'.disk.ino i).mode = true → ∃ d, truncate s'.disk i = some d ∧
      ∀ z, s'.disk.sb.firstdatazone ≤ z → z < s'.disk.sb.nzones →
        (d.bit z = true ↔ s'.disk.bit z = true ∧ ¬RefBy s'.disk.trees i z) := by
  have h : Good s' := by
    refine hr.invariant (I := Good) (fun s o s' hs h => ?_) h0
    obtain ⟨s₁, hrun, hg⟩ := hs.run h.1
    have hstep : o.run s = some s' := h.2
    rw [hrun] at hstep
    cases hstep
    exact hg
  have hd := h.exact
  refine ⟨fun i n l rest i' n' l' rest' hn hn' hl hl' hz he => ?_, hd.bits, fun i n hn => ?_, fun o ho => ?_,
    fun i hf => ⟨_, truncate_spec hd hf, fun z h1 h2 => ?_⟩⟩
  · obtain rfl := hd.sound.inj _ _ _ _ _ _ _ _ hn hn' hl hl' hz he
    exact ⟨(hd.sound.same_path hl hn hl' hn').1, rfl⟩
  · obtain ⟨d', z, hrun, -, hself, hm⟩ := bmapCreate_spec hd hn false i
    obtain rfl := hm.same rfl
    rw [bmap, hrun, ← h.last i n hn, hself]
  · obtain ⟨s₁, hrun, -⟩ := h.run ho
    rw [hrun]
    rfl
  · have hbit := s'.disk.bit_freed (fun z hz => ((hd.canFree i).range z hz).1) h1
    have hcut : (s'.disk.cut (fun _ => true) i).bit z = (s'.disk.freed (fileZones (fun _ => true) s'.disk i)).bit z := rfl
    rw [hcut, hbit, Bool.and_eq_true, Bool.not_eq_true', decide_eq_false_iff_not, mem_fileZones]

/-- An empty file system. -/
def emptyHistory : History Bool :=
  { disk :=
      { sb := { ninodes := 96, nzones := 360, imapBlocks := 1, zmapBlocks := 1, firstdatazone := 7, dev := 0x301,
                imount := none, isup := none }
        zmap := fun j => j == 0
        ino := fun _ => .blank
        blk := fun _ _ => 0
        disk := fun _ _ => 0
        hold := fun _ => 0 }
    last := fun _ _ => 0 }

theorem emptyHistory_good : Good emptyHistory := by
  have hzero : ∀ l, emptyHistory.disk.trees.val l = 0 := fun l => by cases l <;> rfl
  refine ⟨⟨⟨by decide, by decide, by decide, rfl⟩, sound_of_zero hzero _ _, fun z h1 h2 => ?_, fun _ => rfl⟩,
    fun _ => .inl ⟨rfl, fun _ _ => rfl⟩, fun i n _ => Trees.bmap_of_zero hzero i n⟩
  have h1 : 7 ≤ z := h1
  have hbit : emptyHistory.disk.bit z = false := by
    have : z + 1 - 7 ≠ 0 := by omega
    simpa [Disk.bit, Disk.index, emptyHistory] using this
  rw [hbit]
  exact ⟨fun h => (by cases h), fun h => absurd h (not_ref_of_zero hzero z)⟩

/-- A new file gets the first block behind its indirect block, and then that block's zone is what `bmap` returns. -/
theorem zones_exact_indirect : ∃ s' : History Bool,
    Run.Reaches (Run.Under (fun s o => Op.Legal s o) Op.Step) emptyHistory s' ∧
    bmap s'.disk false 7 = some (s'.disk, 8) ∧ Ref s'.disk.trees 7 ∧ ¬Ref s'.disk.trees 9 := by
  have hrun : ((Op.newInode false 0o100644).run emptyHistory).any (fun s => ((Op.create false 7).run s).any fun s' =>
      s'.last false 7 == 8 && s'.disk.bit 7 && !s'.disk.bit 9 && s'.disk.sb.firstdatazone == 7 &&
        s'.disk.sb.nzones == 360) = true := by decide
  obtain ⟨s₁, h₁, hrun⟩ := (Option.any_eq_true _ _).1 hrun
  obtain ⟨s', h₂, hrun⟩ := (Option.any_eq_true _ _).1 hrun
  simp only [Bool.and_eq_true, beq_iff_eq, Bool.not_eq_true'] at hrun
  obtain ⟨⟨⟨⟨hlast, h7⟩, h9⟩, hfirst⟩, hnz⟩ := hrun
  have hfile : isFile (s₁.disk.ino false).mode = true := by
    cases h₁
    decide
  have hreach : Run.Reaches (Run.Under (fun s o => Op.Legal s o) Op.Step) emptyHistory s' :=
    ⟨[.newInode false 0o100644, .create false 7], .cons ⟨⟨rfl, by decide⟩, h₁⟩ (.cons ⟨⟨hfile, by decide⟩, h₂⟩ .nil)⟩
  obtain ⟨-, hbits, hbmap, -⟩ := zones_exact emptyHistory_good hreach
  refine ⟨s', hreach, hlast ▸ hbmap false 7 (by decide), (hbits 7 (by omega) (by omega)).1 h7, fun h => ?_⟩
  rw [(hbits 9 (by omega) (by omega)).2 h] at h9
  cases h9

end Truncation

end Linux011.Fs
