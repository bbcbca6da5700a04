/-
The inode table as a cache: each inode is in it at most once.

`iget` reserves an empty entry before it looks, and looks again from the start
after every sleep, so the scan that ends in vain and the store into the
reserved entry are one turn. What that argument needs beside it is that an
entry in use is never given away: `get_empty_inode` takes entries without
references, `free_inode` clears one whose only reference it was called with.
So the proof counts references: `total` is what the rest of the kernel, the
super blocks and the tasks inside the routines have of an entry, and it never
exceeds `i_count`.

`new_inode` does not look at the table. It relies on the bitmap: no entry is
for an inode whose bit is clear. An `iget` of a number that was freed after the
caller read it breaks that, and then the same number is in the table twice.
-/
import Linux011.Fs.Inode

namespace Linux011.Fs.Inode

open Coop

/-! ## References -/

/-- The references to entry `i` that a frame has. -/
def Frame.owes (i : Slot) : Frame → Nat
  | .igetWait _ _ _ _ e _ | .igetMount _ _ e _ => if i = e then 1 else 0
  | .igetDone _ _ j | .iput j | .iputWait j | .freeInode j => if i = j then 1 else 0
  | _ => 0

def Val.owes (i : Slot) : Val → Nat
  | .ino j => if i = j then 1 else 0
  | .null | .buf _ => 0

@[simp] theorem Frame.owes_readInode (i j : Slot) : (Frame.readInode j).owes i = 0 := rfl
@[simp] theorem Frame.owes_igetDone (i j : Slot) (dev nr : Nat) :
    (Frame.igetDone dev nr j).owes i = if i = j then 1 else 0 := rfl
@[simp] theorem Frame.owes_iput (i j : Slot) : (Frame.iput j).owes i = if i = j then 1 else 0 := rfl
@[simp] theorem Val.owes_null (i : Slot) : Val.null.owes i = 0 := rfl
@[simp] theorem Val.owes_ino (i j : Slot) : (Val.ino j).owes i = if i = j then 1 else 0 := rfl

/-- The super blocks mounted on entry `i`. -/
def Kern.mounts (k : Kern) (i : Slot) : Nat := k.super.countP fun sb => sb.imount = some i

/-- An entry `get_empty_inode` has just reserved. -/
structure Blank (k : Kern) (e : Slot) : Prop where
  dev : (k.ino e).dev = 0
  mount : (k.ino e).mount = false
  count : (k.ino e).count = 1

/-- Inode `nr` of `dev`, or the root of the file system mounted on it. -/
def Leads (k : Kern) (dev nr dev' nr' : Nat) : Prop :=
  (dev' = dev ∧ nr' = nr) ∨ ∃ sb ∈ k.super, ∃ j, sb.imount = some j ∧ (k.ino j).dev = dev ∧
    (k.ino j).num = nr ∧ dev' = sb.dev ∧ nr' = rootIno

/-- What a frame relies on while others run. -/
def FrameOk (k : Kern) : Frame → Prop
  | .igetEmpty dev _ => dev ≠ 0
  | .igetWait dev nr dev' nr' e _ => Blank k e ∧ dev' ≠ 0 ∧ Leads k dev nr dev' nr'
  | .igetMount dev nr e sb => Blank k e ∧ sb.dev ≠ 0 ∧ Leads k dev nr sb.dev rootIno
  | .igetDone dev nr i => (k.ino i).dev ≠ 0 ∧ Leads k dev nr (k.ino i).dev (k.ino i).num
  | .iputWait i | .freeInode i => (k.ino i).dev ≠ 0
  | _ => True

/-! ## What a turn does to the table -/

/-- The table's entries are for the same inodes, with the same references. -/
structure Kept (k k' : Kern) : Prop where
  dev : ∀ i, (k'.ino i).dev = (k.ino i).dev
  num : ∀ i, (k'.ino i).num = (k.ino i).num
  mount : ∀ i, (k'.ino i).mount = (k.ino i).mount
  count : ∀ i, (k'.ino i).count = (k.ino i).count
  imap : k'.imap = k.imap
  super : k'.super = k.super

/-- Entry `i` is changed, to `x` as far as the table's users can tell; the others are kept. -/
structure Changed (k k' : Kern) (i : Slot) (x : MInode) : Prop where
  dev : (k'.ino i).dev = x.dev
  num : (k'.ino i).num = x.num
  mount : (k'.ino i).mount = x.mount
  count : (k'.ino i).count = x.count
  other : ∀ j, j ≠ i → k'.ino j = k.ino j
  held : k'.held = k.held
  super : k'.super = k.super

/-- The inode a turn of this frame may put into a reserved entry. -/
inductive Seeks (k : Kern) : Frame → Val → Nat → Nat → Nat → Nat → Slot → Prop
  | start {dev nr e} : Seeks k (.igetEmpty dev nr) (.ino e) dev nr dev nr e
  | again {dev nr dev' nr' e i v} (hl : (k.ino i).lock = false)
      (hk : (k.ino i).dev ≠ dev' ∨ (k.ino i).num ≠ nr') :
      Seeks k (.igetWait dev nr dev' nr' e i) v dev nr dev' nr' e
  | mount {dev nr e sb v} : Seeks k (.igetMount dev nr e sb) v dev nr sb.dev rootIno e

inductive Effect (k : Kern) : Frame → Val → Kern → List Frame → Val → Prop
  | pass {f v k' fs v'} (hk : Kept k k') (hh : k'.held = k.held)
      (ho : ∀ i, weigh (Frame.owes i) fs ≤ f.owes i + v.owes i) (hv : ∀ i, v' ≠ .ino i)
      (hok : ∀ g ∈ fs, FrameOk k g) : Effect k f v k' fs v'
  | done {dev nr i v} : Effect k (.igetDone dev nr i) v k [] (.ino i)
  | reuse {c v k'} (hc : (k.ino c).count = 0) (hk : Changed k k' c { MInode.blank with count := 1 })
      (hi : k'.imap = k.imap) : Effect k (.emptyWait c) v k' [] (.ino c)
  | install {f v dev nr dev' nr' e k'} (hs : Seeks k f v dev nr dev' nr' e)
      (hnone : findInode k dev' nr' = none)
      (hk : Changed k k' e { k.ino e with dev := dev', num := nr' }) (hi : k'.imap = k.imap) :
      Effect k f v k' [.readInode e, .igetDone dev nr e] .null
  | found {dev nr dev' nr' e i v k'} (hd : (k.ino i).dev = dev') (hn : (k.ino i).num = nr')
      (hk : Changed k k' i { k.ino i with count := (k.ino i).count + 1 }) (hi : k'.imap = k.imap) :
      Effect k (.igetWait dev nr dev' nr' e i) v k' [.iput e, .igetDone dev nr i] .null
  | mounted {dev nr dev' nr' e i v k' sb} (hd : (k.ino i).dev = dev') (hn : (k.ino i).num = nr')
      (hm : (k.ino i).mount = true) (hsb : sb ∈ k.super) (hmt : sb.imount = some i)
      (hk : Changed k k' i { k.ino i with count := (k.ino i).count + 1 }) (hi : k'.imap = k.imap) :
      Effect k (.igetWait dev nr dev' nr' e i) v k' [.iput i, .igetMount dev nr e sb] .null
  | alloc {dev e j k'} (hj : k.imap dev j = false) (hd : dev ≠ 0)
      (hk : Changed k k' e { k.ino e with count := 1, dev := dev, num := j })
      (hi : k'.imap = Function.update k.imap dev (Function.update (k.imap dev) j true)) :
      Effect k (.newEmpty dev) (.ino e) k' [] (.ino e)
  | drop {f i v k'} (hf : f = .iput i ∨ f = .iputWait i)
      (hk : Changed k k' i { k.ino i with count := (k.ino i).count - 1 }) (hi : k'.imap = k.imap) :
      Effect k f v k' [] .null
  | free {i v k'} (hd : (k.ino i).dev ≠ 0) (hc : (k.ino i).count ≤ 1) (hk : Changed k k' i MInode.blank)
      (hi : k'.imap = Function.update k.imap (k.ino i).dev
        (Function.update (k.imap (k.ino i).dev) (k.ino i).num false)) :
      Effect k (.freeInode i) v k' [] .null

theorem Kept.of_ino {k k' : Kern} (h : k'.ino = k.ino) (hi : k'.imap = k.imap)
    (hs : k'.super = k.super) : Kept k k' := by
  refine ⟨?_, ?_, ?_, ?_, hi, hs⟩ <;> simp [h]

theorem Kept.refl (k : Kern) : Kept k k := .of_ino rfl rfl rfl

/-- A store into an entry that leaves what its users go by. -/
theorem Kept.of_set {k k' : Kern} {i : Slot} {x : MInode} (h : k'.ino = Function.update k.ino i x)
    (hx : (x.dev, x.num, x.mount, x.count) = ((k.ino i).dev, (k.ino i).num, (k.ino i).mount, (k.ino i).count))
    (hi : k'.imap = k.imap) (hs : k'.super = k.super) : Kept k k' := by
  simp only [Prod.mk.injEq] at hx
  refine ⟨fun j => ?_, fun j => ?_, fun j => ?_, fun j => ?_, hi, hs⟩
  all_goals
    rw [h, Function.update_apply]
    split
    · simp_all
    · rfl

theorem Changed.of_set {k k' : Kern} {i : Slot} {x y : MInode} (h : k'.ino = Function.update k.ino i y)
    (hx : (y.dev, y.num, y.mount, y.count) = (x.dev, x.num, x.mount, x.count)) (hh : k'.held = k.held)
    (hs : k'.super = k.super) : Changed k k' i x := by
  simp only [Prod.mk.injEq] at hx
  refine ⟨?_, ?_, ?_, ?_, fun j hj => ?_, hh, hs⟩ <;> simp [*]

theorem Changed.setIno (k : Kern) (i : Slot) (x : MInode) : Changed k (k.setIno i x) i x :=
  .of_set rfl rfl rfl rfl

theorem igetScan_effect {k k' : Kern} {f : Frame} {v v' : Val} {dev nr dev' nr' : Nat} {e : Slot}
    {fs : List Frame} (h : igetScan k dev nr dev' nr' e = .goes k' fs v') (hs : Seeks k f v dev nr dev' nr' e)
    (hb : Blank k e) (hd : dev' ≠ 0) (hl : Leads k dev nr dev' nr') : Effect k f v k' fs v' := by
  simp only [igetScan] at h
  split at h
  · cases h
    refine .pass (.refl k) rfl (fun i => ?_) (by simp) ?_
    · cases hs <;> simp [weigh, Frame.owes, Val.owes]
    · simpa [FrameOk] using ⟨hb, hd, hl⟩
  · rename_i hnone
    cases h
    exact .install hs hnone (.setIno _ _ _) rfl

theorem iputRepeat_effect {k k' : Kern} {f : Frame} {v v' : Val} {i : Slot} {fs : List Frame}
    (h : iputRepeat k i = .goes k' fs v') (hf : f = .iput i ∨ f = .iputWait i) (hd : (k.ino i).dev ≠ 0) :
    Effect k f v k' fs v' := by
  simp only [iputRepeat] at h
  split at h
  · cases h
    exact .drop hf (.setIno _ _ _) rfl
  split at h
  · cases h
    exact .pass (.refl k) rfl (fun j => by rcases hf with rfl | rfl <;> simp [weigh, Frame.owes]) (by simp)
      (by simpa [FrameOk] using hd)
  split at h
  · cases h
    exact .pass (.refl k) rfl (fun j => by rcases hf with rfl | rfl <;> simp [weigh, Frame.owes]) (by simp)
      (by simpa [FrameOk] using hd)
  · cases h
    exact .drop hf (.setIno _ _ _) rfl

theorem turn_effect {f : Frame} {v v' : Val} {k k' : Kern} {fs : List Frame}
    (h : turn f v k = .goes k' fs v') (hf : FrameOk k f) (hv : ∀ e, v = .ino e → Blank k e) :
    Effect k f v k' fs v' := by
  cases f
  case igetEmpty dev nr =>
    cases v with
    | ino e => exact igetScan_effect h .start (hv e rfl) hf (.inl ⟨rfl, rfl⟩)
    | null => cases h
    | buf b => cases h
  case igetMount dev nr e sb => exact igetScan_effect h .mount hf.1 hf.2.1 hf.2.2
  case igetWait dev nr dev' nr' e i =>
    simp only [turn, igetWait] at h
    split at h
    · cases h
    rename_i hl
    split at h
    · exact igetScan_effect h (.again (by simpa using hl) ‹_›) hf.1 hf.2.1 hf.2.2
    rename_i hkey
    obtain ⟨hd, hn⟩ : (k.ino i).dev = dev' ∧ (k.ino i).num = nr' := by simpa [not_or] using hkey
    split at h
    · split at h
      · cases h
        exact .found hd hn (.setIno _ _ _) rfl
      · rename_i hm _ sb hsb
        cases h
        exact .mounted hd hn hm (List.mem_of_find?_eq_some hsb) (by simpa using List.find?_some hsb) (.setIno _ _ _) rfl
    · cases h
      exact .found hd hn (.setIno _ _ _) rfl
  case iputWait i =>
    simp only [turn, iputWait] at h
    split at h
    · cases h
    · exact iputRepeat_effect h (.inr rfl) hf
  case iput i =>
    simp only [turn, iput] at h
    split at h
    · cases h
    split at h
    · cases h
    split at h
    · split at h
      · cases h
        exact .drop (.inl rfl) (.setIno _ _ _) rfl
      · rename_i hc
        cases h
        exact .drop (.inl rfl) (.of_set rfl (by simp; omega) rfl rfl) rfl
    split at h
    · cases h
      exact .drop (.inl rfl) (.setIno _ _ _) rfl
    split at h
    · rename_i hd _
      cases h
      exact .pass (.refl k) rfl (fun j => by simp [weigh, Frame.owes]) (by simp) (by simpa [FrameOk] using hd)
    · rename_i hd _
      exact iputRepeat_effect h (.inl rfl) hd
  case freeInode i =>
    simp only [turn, freeInode] at h
    split at h
    · exact absurd ‹_› hf
    split at h
    · cases h
    rename_i hc
    split at h
    · cases h
    split at h
    · cases h
    split at h
    · cases h
    · cases h
      exact .free hf (by omega) (.of_set rfl rfl rfl rfl) rfl
  case newEmpty dev =>
    cases v with
    | ino e =>
      simp only [turn, newEmpty] at h
      split at h
      · cases h
      rename_i sb hsb
      split at h
      · cases h
        exact .pass (.refl k) rfl (fun j => by simp [weigh, Frame.owes, Val.owes]) (by simp) (by simp [FrameOk])
      rename_i j hj
      split at h
      · cases h
        exact .pass (.refl k) rfl (fun j => by simp [weigh, Frame.owes, Val.owes]) (by simp) (by simp [FrameOk])
      · cases h
        have hdev : dev ≠ 0 := by
          intro hd
          simp [Kern.getSuper, hd] at hsb
        exact .alloc (firstZero_some hj).2.2.1 hdev (.of_set rfl rfl rfl rfl) rfl
    | null => cases h
    | buf b => cases h
  case emptyWait c =>
    simp only [turn, emptyWait] at h
    split at h
    · cases h
    split at h
    · cases h
      exact .pass (.refl k) rfl (fun j => by simp [weigh, Frame.owes, Val.owes]) (by simp) (by simp [FrameOk])
    split at h
    · cases h
      exact .pass (.refl k) rfl (fun j => by simp [weigh, Frame.owes, Val.owes]) (by simp) (by simp [FrameOk])
    · rename_i hc
      cases h
      exact .reuse (by omega) (.setIno _ _ _) rfl
  case iget dev nr =>
    simp only [turn] at h
    split at h
    · cases h
    · rename_i hd
      cases h
      exact .pass (.refl k) rfl (fun j => by simp [weigh, Frame.owes]) (by simp) (by simpa [FrameOk] using hd)
  case igetDone dev nr i =>
    cases h
    exact .done
  all_goals
    simp only [turn, llRwBlock, addRequest, getblk, getHashTable, getblkChosen, breadGot, breadWait,
      brelse, syncDev, syncWait, syncInodes, syncAll, readInode, readGot, writeInode, writeGot,
      unlockInode, getEmptyInode, truncate] at h
    repeat' split at h
    all_goals cases h
    all_goals
      refine .pass ?_ rfl (fun j => by simp [weigh, Frame.owes]) (by simp) (by simp [FrameOk])
      first
      | exact .of_ino rfl rfl rfl
      | exact .of_set rfl rfl rfl rfl

/-! ## What others rely on -/

/-- As far as anyone with a reference to it can tell, entry `i` is as it was. -/
structure Stays (k k' : Kern) (i : Slot) : Prop where
  dev : (k'.ino i).dev = (k.ino i).dev
  num : (k'.ino i).num = (k.ino i).num
  mount : (k'.ino i).mount = (k.ino i).mount
  blank : Blank k i → Blank k' i

theorem Kept.stays {k k' : Kern} (h : Kept k k') (i : Slot) : Stays k k' i :=
  ⟨h.dev i, h.num i, h.mount i, fun hb =>
    ⟨(h.dev i).trans hb.dev, (h.mount i).trans hb.mount, (h.count i).trans hb.count⟩⟩

theorem Changed.stays {k k' : Kern} {i j : Slot} {x : MInode} (h : Changed k k' i x) (hj : j ≠ i) :
    Stays k k' j := by
  have he := h.other j hj
  exact ⟨by rw [he], by rw [he], by rw [he], fun hb =>
    ⟨by rw [he]; exact hb.dev, by rw [he]; exact hb.mount, by rw [he]; exact hb.count⟩⟩

/-- A change of the count alone, to an entry that is not just reserved. -/
theorem Changed.stays_count {k k' : Kern} {i j : Slot} {n : Nat}
    (h : Changed k k' i { k.ino i with count := n }) (hb : ¬Blank k i) : Stays k k' j := by
  by_cases hj : j = i
  · subst hj
    exact ⟨h.dev, h.num, h.mount, fun hbl => absurd hbl hb⟩
  · exact h.stays hj

theorem Seeks.owes {k : Kern} {f : Frame} {v : Val} {dev nr dev' nr' : Nat} {e : Slot}
    (h : Seeks k f v dev nr dev' nr' e) (i : Slot) : (if i = e then 1 else 0) ≤ f.owes i + v.owes i := by
  cases h <;> simp [Frame.owes, Val.owes]

theorem Seeks.blank {k : Kern} {f : Frame} {v : Val} {dev nr dev' nr' : Nat} {e : Slot}
    (h : Seeks k f v dev nr dev' nr' e) (hf : FrameOk k f) (hv : ∀ e, v = .ino e → Blank k e) :
    Blank k e ∧ dev' ≠ 0 ∧ Leads k dev nr dev' nr' := by
  cases h with
  | start => exact ⟨hv e rfl, hf, .inl ⟨rfl, rfl⟩⟩
  | again => exact hf
  | mount => exact hf

variable {k k' : Kern} {f : Frame} {v v' : Val} {fs : List Frame}

/-- **An entry someone else has a reference to stays.** -/
theorem Effect.stays (he : Effect k f v k' fs v') (hf : FrameOk k f) (hv : ∀ e, v = .ino e → Blank k e)
    {i : Slot} (hc : f.owes i + v.owes i + 1 ≤ (k.ino i).count) : Stays k k' i := by
  cases he with
  | pass hk => exact hk.stays i
  | done => exact (Kept.refl k).stays i
  | reuse h0 hk => exact hk.stays fun e => by rw [e, h0] at hc; omega
  | install hs _ hk =>
    refine hk.stays fun e => ?_
    have h1 := hs.owes i
    have h2 := (hs.blank hf hv).1.count
    rw [if_pos e] at h1
    rw [e] at hc h1
    omega
  | found hd _ hk => exact hk.stays_count fun hb => hf.2.1 (hd.symm.trans hb.dev)
  | mounted hd _ _ _ _ hk => exact hk.stays_count fun hb => hf.2.1 (hd.symm.trans hb.dev)
  | @alloc dev e j k' _ _ hk =>
    refine hk.stays fun h => ?_
    have h2 := (hv e rfl).count
    subst h
    simp only [Val.owes, if_true] at hc
    omega
  | @drop f j v k' hf hk =>
    have howes : ∀ i, f.owes i = if i = j then 1 else 0 := by
      rcases hf with rfl | rfl <;> exact fun _ => rfl
    by_cases hij : i = j
    · subst hij
      refine ⟨hk.dev, hk.num, hk.mount, fun hb => ?_⟩
      rw [howes, if_pos rfl, hb.count] at hc
      omega
    · exact hk.stays hij
  | free _ h1 hk =>
    refine hk.stays fun e => ?_
    subst e
    simp only [Frame.owes, if_true] at hc
    omega

theorem Changed.count_eq {i : Slot} {x : MInode} (h : Changed k k' i x) (j : Slot) :
    (k'.ino j).count = if j = i then x.count else (k.ino j).count := by
  split
  · rename_i e
    exact e ▸ h.count
  · rename_i e
    rw [h.other j e]

/-- The references a turn leaves are covered by the counts it leaves. -/
theorem Effect.count (he : Effect k f v k' fs v') (hf : FrameOk k f) (hv : ∀ e, v = .ino e → Blank k e)
    (i : Slot) : (k.ino i).count + weigh (Frame.owes i) fs + v'.owes i ≤
      (k'.ino i).count + (f.owes i + v.owes i) := by
  cases he with
  | @pass f v k' fs v' hk _ ho hv' =>
    have h1 := hk.count i
    have h2 := ho i
    have h3 : v'.owes i = 0 := by
      cases v' with
      | ino j => exact absurd rfl (hv' j)
      | null => rfl
      | buf b => rfl
    omega
  | done =>
    simp only [Frame.owes, Val.owes, weigh]
    omega
  | @reuse c v k' h0 hk =>
    rw [hk.count_eq i]
    simp only [Val.owes_ino, weigh]
    by_cases hi : i = c
    · simp only [hi, if_true, h0]
      omega
    · simp only [if_neg hi]
      omega
  | @install f v dev nr dev' nr' e k' hs _ hk =>
    have h1 := hs.owes i
    rw [hk.count_eq i]
    simp only [weigh, Frame.owes_readInode,
      Frame.owes_igetDone, Val.owes_null]
    by_cases hi : i = e
    · simp only [hi, if_true] at h1 ⊢
      omega
    · simp only [if_neg hi]
      omega
  | @found dev nr dev' nr' e j v k' _ _ hk | @mounted dev nr dev' nr' e j v k' sb _ _ _ _ _ hk =>
    rw [hk.count_eq i]
    simp only [weigh, Frame.owes, Val.owes_null]
    by_cases hi : i = j
    · simp only [hi, if_true]
      omega
    · simp only [if_neg hi]
      omega
  | @alloc dev e j k' _ _ hk =>
    rw [hk.count_eq i]
    simp only [Val.owes_ino, Frame.owes, weigh]
    by_cases hi : i = e
    · simp only [hi, if_true, (hv e rfl).count]
      omega
    · simp only [if_neg hi]
      omega
  | @drop f j v k' hf hk =>
    have howes : f.owes i = if i = j then 1 else 0 := by rcases hf with rfl | rfl <;> rfl
    rw [hk.count_eq i, howes]
    simp only [Val.owes_null, weigh]
    by_cases hi : i = j
    · simp only [hi, if_true]
      omega
    · simp only [if_neg hi]
      omega
  | @free j v k' _ h1 hk =>
    rw [hk.count_eq i]
    simp only [Val.owes_null, Frame.owes, weigh]
    by_cases hi : i = j
    · simp only [hi, if_true]
      omega
    · simp only [if_neg hi]
      omega

theorem Leads.stays {dev nr dev' nr' : Nat} (h : Leads k dev nr dev' nr') (hs : k'.super = k.super)
    (hm : ∀ sb ∈ k.super, ∀ j, sb.imount = some j → Stays k k' j) : Leads k' dev nr dev' nr' := by
  rcases h with h | ⟨sb, hsb, j, hj, hd, hn, h⟩
  · exact .inl h
  · exact .inr ⟨sb, hs ▸ hsb, j, hj, ((hm sb hsb j hj).dev).trans hd, ((hm sb hsb j hj).num).trans hn, h⟩

theorem FrameOk.stays {g : Frame} (hg : FrameOk k g) (hs : k'.super = k.super)
    (hm : ∀ sb ∈ k.super, ∀ j, sb.imount = some j → Stays k k' j)
    (ho : ∀ i, 1 ≤ g.owes i → Stays k k' i) : FrameOk k' g := by
  cases g <;> try trivial
  case igetWait dev nr dev' nr' e i =>
    exact ⟨(ho e (by simp [Frame.owes])).blank hg.1, hg.2.1, hg.2.2.stays hs hm⟩
  case igetMount dev nr e sb =>
    exact ⟨(ho e (by simp [Frame.owes])).blank hg.1, hg.2.1, hg.2.2.stays hs hm⟩
  case igetDone dev nr i =>
    have h := ho i (by simp [Frame.owes])
    refine ⟨h.dev ▸ hg.1, ?_⟩
    rw [h.dev, h.num]
    exact hg.2.stays hs hm
  case iputWait i => exact fun h => hg ((ho i (by simp [Frame.owes])).dev.symm.trans h)
  case freeInode i => exact fun h => hg ((ho i (by simp [Frame.owes])).dev.symm.trans h)

/-! ## The invariant -/

/-- The frames of `iget` and `new_inode`, which no other routine here calls. -/
def Frame.bottom : Frame → Bool
  | .iget _ _ | .igetEmpty _ _ | .igetWait _ _ _ _ _ _ | .igetMount _ _ _ _ | .igetDone _ _ _ => true
  | .newInode _ | .newEmpty _ => true
  | _ => false

def Bottoms : List Frame → Prop
  | [] => True
  | f :: rest => (f.bottom = true → rest = []) ∧ Bottoms rest

theorem Bottoms.append {fs rest : List Frame} (hf : ∀ g ∈ fs, g.bottom = false) (hr : Bottoms rest) :
    Bottoms (fs ++ rest) := by
  induction fs with
  | nil => exact hr
  | cons f fs ih =>
    refine ⟨fun h => ?_, ih fun g hg => hf g (by simp [hg])⟩
    rw [hf f (by simp)] at h
    cases h

theorem turn_bottoms (h : turn f v k = .goes k' fs v') :
    Bottoms fs ∧ (f.bottom = false → ∀ g ∈ fs, g.bottom = false) := by
  cases f
  all_goals
    simp only [turn, llRwBlock, addRequest, getblk, getHashTable, getblkChosen, breadGot, breadWait,
      brelse, syncDev, syncWait, syncInodes, syncAll, readInode, readGot, writeInode, writeGot,
      unlockInode, getEmptyInode, emptyWait, igetEmpty, igetScan, igetWait, newEmpty, iput, iputWait,
      iputRepeat, truncate, freeInode] at h
    repeat' split at h
    all_goals cases h
    all_goals simp [Bottoms, Frame.bottom]

variable {T : Type*} [Fintype T]

/-- What a turn leaves to the rest of the kernel is as before. -/
theorem Effect.held_super (he : Effect k f v k' fs v') : k'.held = k.held ∧ k'.super = k.super := by
  cases he with
  | pass hk hh => exact ⟨hh, hk.super⟩
  | done => exact ⟨rfl, rfl⟩
  | reuse _ hk => exact ⟨hk.held, hk.super⟩
  | install _ _ hk => exact ⟨hk.held, hk.super⟩
  | found _ _ hk => exact ⟨hk.held, hk.super⟩
  | mounted _ _ _ _ _ hk => exact ⟨hk.held, hk.super⟩
  | alloc _ _ hk => exact ⟨hk.held, hk.super⟩
  | drop _ hk => exact ⟨hk.held, hk.super⟩
  | free _ _ hk => exact ⟨hk.held, hk.super⟩

/-- The new frames of a turn may rely on what they do. -/
theorem Effect.frames (he : Effect k f v k' fs v') (hf : FrameOk k f) (hv : ∀ e, v = .ino e → Blank k e)
    (hm : ∀ sb ∈ k.super, ∀ j, sb.imount = some j → Stays k k' j ∧ sb.dev ≠ 0)
    (hr : ∀ i, (k.ino i).mount = true → (k.ino i).num ≠ rootIno) : ∀ g ∈ fs, FrameOk k' g := by
  have hstay : ∀ sb ∈ k.super, ∀ j, sb.imount = some j → Stays k k' j := fun sb hsb j hj => (hm sb hsb j hj).1
  cases he with
  | pass hk _ _ _ hok => exact fun g hg => (hok g hg).stays hk.super hstay fun i _ => hk.stays i
  | done | reuse | alloc | drop | free => simp
  | install hs _ hk =>
    obtain ⟨-, hd, hl⟩ := hs.blank hf hv
    simp only [List.mem_cons, List.not_mem_nil, or_false, forall_eq_or_imp, forall_eq]
    refine ⟨trivial, fun h => hd (hk.dev.symm.trans h), ?_⟩
    rw [hk.dev, hk.num]
    exact hl.stays hk.super hstay
  | found hd hn hk =>
    simp only [List.mem_cons, List.not_mem_nil, or_false, forall_eq_or_imp, forall_eq]
    refine ⟨trivial, fun h => hf.2.1 (hd.symm.trans (hk.dev.symm.trans h)), ?_⟩
    rw [hk.dev, hk.num]
    have hl : Leads k _ _ (k.ino _).dev (k.ino _).num := hd ▸ hn ▸ hf.2.2
    exact hl.stays hk.super hstay
  | @mounted dev nr dev' nr' e i v k' sb hd hn hmt hsb hsi hk =>
    simp only [List.mem_cons, List.not_mem_nil, or_false, forall_eq_or_imp, forall_eq]
    have hne : e ≠ i := by
      intro h
      exact hf.2.1 (hd.symm.trans (h ▸ hf.1.dev))
    refine ⟨trivial, (hk.stays hne).blank hf.1, (hm sb hsb i hsi).2, .inr ⟨sb, hk.super ▸ hsb, i, hsi, ?_⟩⟩
    -- a mount point is not a root, so the scan was still for the call's own inode
    rcases hf.2.2 with ⟨h1, h2⟩ | ⟨_, _, _, _, _, _, _, h2⟩
    · exact ⟨hk.dev.trans (hd.trans h1), hk.num.trans (hn.trans h2), rfl, rfl⟩
    · exact absurd (hn.trans h2) (hr i hmt)

/-- The inode the next turn of a task puts into the entry it reserved. -/
def installs (k : Kern) : List Frame → Val → Option (Nat × Nat)
  | .igetEmpty dev nr :: _, .ino _ => if (findInode k dev nr).isNone then some (dev, nr) else none
  | .igetWait _ _ dev nr _ i :: _, _ =>
    if (k.ino i).lock = false ∧ ((k.ino i).dev ≠ dev ∨ (k.ino i).num ≠ nr) ∧ (findInode k dev nr).isNone
    then some (dev, nr) else none
  | .igetMount _ _ _ sb :: _, _ => if (findInode k sb.dev rootIno).isNone then some (sb.dev, rootIno) else none
  | _, _ => none

/-- An inode that `iget` puts into the table is in use: its bit is set in the inode bitmap. -/
def allocated (s : Sys T Kern Frame Val) : Act T Call (Nat × Bool) → Bool
  | .run t => (installs s.kern (s.stack t) (s.acc t)).all fun x => s.kern.imap x.1 x.2
  | .call _ _ | .irq _ => true

theorem Seeks.installs {rest : List Frame} {dev nr dev' nr' : Nat} {e : Slot}
    (hs : Seeks k f v dev nr dev' nr' e) (hnone : findInode k dev' nr' = none) :
    installs k (f :: rest) v = some (dev', nr') := by
  cases hs with
  | start => simp [Inode.installs, hnone]
  | again hl hk => simp [Inode.installs, hnone, hl, hk]
  | mount => simp [Inode.installs, hnone]

/-- No two entries are for the same inode. -/
def Once (k : Kern) : Prop :=
  ∀ i j, (k.ino i).dev ≠ 0 → (k.ino i).dev = (k.ino j).dev → (k.ino i).num = (k.ino j).num → i = j

/-- Every entry is for an inode in use. -/
def Bits (k : Kern) : Prop := ∀ i, (k.ino i).dev ≠ 0 → k.imap (k.ino i).dev (k.ino i).num = true

theorem Once.of_same (h : Once k) (hd : ∀ i, (k'.ino i).dev = (k.ino i).dev)
    (hn : ∀ i, (k'.ino i).num = (k.ino i).num) : Once k' := by
  intro i j
  rw [hd, hd, hn, hn]
  exact h i j

theorem Bits.of_same (h : Bits k) (hd : ∀ i, (k'.ino i).dev = (k.ino i).dev)
    (hn : ∀ i, (k'.ino i).num = (k.ino i).num) (hi : k'.imap = k.imap) : Bits k' := by
  intro i
  rw [hd, hn, hi]
  exact h i

/-- An entry emptied, or given to an inode that no entry is for. -/
theorem Once.of_changed {e : Slot} {x : MInode} (h : Once k) (hk : Changed k k' e x)
    (hx : x.dev = 0 ∨ ∀ i, ¬((k.ino i).dev = x.dev ∧ (k.ino i).num = x.num)) : Once k' := by
  intro i j hi hd hn
  by_cases hie : i = e
  · by_cases hje : j = e
    · rw [hie, hje]
    · subst hie
      rw [hk.other j hje, hk.dev] at hd
      rw [hk.other j hje, hk.num] at hn
      rw [hk.dev] at hi
      rcases hx with h0 | hx
      · exact absurd h0 hi
      · exact absurd ⟨hd.symm, hn.symm⟩ (hx j)
  · rw [hk.other i hie] at hi hd hn
    by_cases hje : j = e
    · subst hje
      rw [hk.dev] at hd
      rw [hk.num] at hn
      rcases hx with h0 | hx
      · exact absurd (hd.trans h0) hi
      · exact absurd ⟨hd, hn⟩ (hx i)
    · rw [hk.other j hje] at hd hn
      exact h i j hi hd hn

theorem Bits.of_changed {e : Slot} {x : MInode} (h : Bits k) (hk : Changed k k' e x)
    (hx : x.dev = 0 ∨ k'.imap x.dev x.num = true)
    (hi : ∀ i, i ≠ e → (k.ino i).dev ≠ 0 → k'.imap (k.ino i).dev (k.ino i).num = k.imap (k.ino i).dev (k.ino i).num) :
    Bits k' := by
  intro i hd
  by_cases hie : i = e
  · subst hie
    rw [hk.dev] at hd ⊢
    rw [hk.num]
    exact hx.resolve_left hd
  · rw [hk.other i hie] at hd ⊢
    rw [hi i hie hd]
    exact h i hd

theorem Changed.same_key {i : Slot} {n : Nat} (hk : Changed k k' i { k.ino i with count := n }) (j : Slot) :
    (k'.ino j).dev = (k.ino j).dev ∧ (k'.ino j).num = (k.ino j).num ∧ (k'.ino j).mount = (k.ino j).mount := by
  by_cases hj : j = i
  · subst hj
    exact ⟨hk.dev, hk.num, hk.mount⟩
  · rw [hk.other j hj]
    exact ⟨rfl, rfl, rfl⟩

theorem findInode_none {dev nr : Nat} (h : findInode k dev nr = none) (i : Slot) :
    ¬((k.ino i).dev = dev ∧ (k.ino i).num = nr) := by
  simpa using List.find?_eq_none.1 h i (List.mem_finRange i)

/-- A turn returns an entry it has just reserved, or it ends the call. -/
theorem Effect.reserved (he : Effect k f v k' fs v') {e : Slot} (h : v' = .ino e) :
    Blank k' e ∨ (f.bottom = true ∧ fs = []) := by
  cases he with
  | pass _ _ _ hv' => exact absurd h (hv' e)
  | reuse _ hk =>
    cases h
    exact .inl ⟨hk.dev, hk.mount, hk.count⟩
  | done | alloc => exact .inr ⟨rfl, rfl⟩
  | install | found | mounted | drop | free => cases h

theorem Changed.notRoot {e : Slot} {x : MInode} (hk : Changed k k' e x) (hx : x.mount = false)
    (hr : ∀ i, (k.ino i).mount = true → (k.ino i).num ≠ rootIno) :
    ∀ i, (k'.ino i).mount = true → (k'.ino i).num ≠ rootIno := by
  intro i hm
  by_cases hi : i = e
  · rw [hi, hk.mount, hx] at hm
    cases hm
  · rw [hk.other i hi] at hm ⊢
    exact hr i hm

/-- No turn makes a root a mount point. -/
theorem Effect.notRoot (he : Effect k f v k' fs v') (hf : FrameOk k f) (hv : ∀ e, v = .ino e → Blank k e)
    (hr : ∀ i, (k.ino i).mount = true → (k.ino i).num ≠ rootIno) :
    ∀ i, (k'.ino i).mount = true → (k'.ino i).num ≠ rootIno := by
  cases he with
  | pass hk =>
    intro i
    rw [hk.mount, hk.num]
    exact hr i
  | done => exact hr
  | reuse _ hk => exact hk.notRoot rfl hr
  | install hs _ hk => exact hk.notRoot (hs.blank hf hv).1.mount hr
  | found _ _ hk | mounted _ _ _ _ _ hk | drop _ hk =>
    intro i
    rw [(hk.same_key i).2.2, (hk.same_key i).2.1]
    exact hr i
  | alloc _ _ hk => exact hk.notRoot (hv _ rfl).mount hr
  | free _ _ hk => exact hk.notRoot rfl hr

/-- **A turn keeps each inode in the table at most once.** -/
theorem Effect.once {rest : List Frame} (he : Effect k f v k' fs v') (ho : Once k) (hb : Bits k)
    (hi : ∀ x, installs k (f :: rest) v = some x → k.imap x.1 x.2 = true) : Once k' ∧ Bits k' := by
  cases he with
  | pass hk => exact ⟨ho.of_same hk.dev hk.num, hb.of_same hk.dev hk.num hk.imap⟩
  | done => exact ⟨ho, hb⟩
  | reuse _ hk himap =>
    exact ⟨ho.of_changed hk (.inl rfl), hb.of_changed hk (.inl rfl) fun i _ _ => by rw [himap]⟩
  | install hs hnone hk himap =>
    have hbit := hi _ (hs.installs hnone)
    exact ⟨ho.of_changed hk (.inr (findInode_none hnone)),
      hb.of_changed hk (.inr (by rw [himap]; exact hbit)) fun i _ _ => by rw [himap]⟩
  | found _ _ hk himap | mounted _ _ _ _ _ hk himap | drop _ hk himap =>
    have hd := fun j => (hk.same_key j).1
    have hn := fun j => (hk.same_key j).2.1
    exact ⟨ho.of_same hd hn, hb.of_same hd hn himap⟩
  | @alloc dev e j k' hj hdev hk himap =>
    have hnone : ∀ i, ¬((k.ino i).dev = dev ∧ (k.ino i).num = j) := by
      intro i hkey
      have := hb i (by rw [hkey.1]; exact hdev)
      rw [hkey.1, hkey.2, hj] at this
      cases this
    refine ⟨ho.of_changed hk (.inr hnone), hb.of_changed hk (.inr ?_) fun i _ _ => ?_⟩
    · simp [himap]
    · rw [himap, Function.update_apply]
      split
      · rename_i hd
        rw [Function.update_of_ne fun hn => hnone i ⟨hd, hn⟩, hd]
      · rfl
  | @free i v k' hdev _ hk himap =>
    refine ⟨ho.of_changed hk (.inl rfl), hb.of_changed hk (.inl rfl) fun j hj hjd => ?_⟩
    rw [himap, Function.update_apply]
    split
    · rename_i hd
      rw [Function.update_of_ne fun hn => hj (ho j i hjd hd hn), hd]
    · rfl

/-- The references to entry `i`, of the rest of the kernel, of the super blocks
and of the tasks inside the routines. -/
def total (s : Sys T Kern Frame Val) (i : Slot) : Nat :=
  s.kern.held i + s.kern.mounts i + s.load (Frame.owes i) (Val.owes i)

structure Inv (s : Sys T Kern Frame Val) : Prop where
  counted : ∀ i, total s i ≤ (s.kern.ino i).count
  frames : ∀ t, ∀ f ∈ s.stack t, FrameOk s.kern f
  reserved : ∀ t, s.stack t ≠ [] → ∀ e, s.acc t = .ino e → Blank s.kern e
  bottoms : ∀ t, Bottoms (s.stack t)
  mounted : ∀ sb ∈ s.kern.super, ∀ j, sb.imount = some j → (s.kern.ino j).dev ≠ 0 ∧ sb.dev ≠ 0
  notRoot : ∀ i, (s.kern.ino i).mount = true → (s.kern.ino i).num ≠ rootIno
  once : Once s.kern
  bits : Bits s.kern

variable {s s' : Sys T Kern Frame Val}

theorem Kern.mounts_pos {sb : Super} {j : Slot} (hsb : sb ∈ k.super) (hj : sb.imount = some j) : 1 ≤ k.mounts j :=
  List.countP_pos_iff.2 ⟨sb, hsb, by simpa using hj⟩

section Step

variable {t : T} {rest : List Frame}

/-- An entry someone else has a reference to stays in a turn of task `t`. -/
theorem Inv.stays (h : Inv s) (hst : s.stack t = f :: rest)
    (he : Effect s.kern f (s.acc t) k' fs v') {i : Slot}
    (hi : f.owes i + (s.acc t).owes i + 1 ≤ total s i) : Stays s.kern k' i :=
  he.stays (h.frames t f (by simp [hst])) (h.reserved t (by simp [hst])) (hi.trans (h.counted i))

theorem Inv.stays_mounted (h : Inv s) (hst : s.stack t = f :: rest)
    (he : Effect s.kern f (s.acc t) k' fs v') {sb : Super} (hsb : sb ∈ s.kern.super) {j : Slot}
    (hj : sb.imount = some j) : Stays s.kern k' j := by
  refine h.stays hst he ?_
  have h1 := Kern.mounts_pos hsb hj
  have h2 := Sys.top_le_load (Frame.owes j) (Val.owes j) hst
  unfold total
  omega

theorem Inv.stays_below (h : Inv s) (hst : s.stack t = f :: rest)
    (he : Effect s.kern f (s.acc t) k' fs v') {g : Frame} (hg : g ∈ rest) {i : Slot} (hi : 1 ≤ g.owes i) :
    Stays s.kern k' i := by
  refine h.stays hst he ?_
  have h2 := Sys.top_rest_le_load (Frame.owes i) (Val.owes i) hst hg
  unfold total
  omega

variable [DecidableEq T]

theorem Inv.stays_frame (h : Inv s) (hst : s.stack t = f :: rest)
    (he : Effect s.kern f (s.acc t) k' fs v') {u : T} (hu : u ≠ t) {g : Frame} (hg : g ∈ s.stack u) {i : Slot}
    (hi : 1 ≤ g.owes i) : Stays s.kern k' i := by
  refine h.stays hst he ?_
  have h1 := Sys.top_other_le_load (Frame.owes i) (Val.owes i) hst hu
  have h2 := le_weight (Frame.owes i) (Val.owes i) hg (s.acc u)
  unfold total
  omega

theorem Inv.stays_acc (h : Inv s) (hst : s.stack t = f :: rest)
    (he : Effect s.kern f (s.acc t) k' fs v') {u : T} (hu : u ≠ t) {i : Slot} (hi : s.acc u = .ino i) :
    Stays s.kern k' i := by
  refine h.stays hst he ?_
  have h1 := Sys.top_other_le_load (Frame.owes i) (Val.owes i) hst hu
  simp only [weight, hi, Val.owes_ino, if_true] at h1
  unfold total
  omega

theorem Inv.turn (h : Inv s) (hst : s.stack t = f :: rest)
    (ht : Inode.turn f (s.acc t) s.kern = .goes k' fs v')
    (hi : ∀ x, installs s.kern (f :: rest) (s.acc t) = some x → s.kern.imap x.1 x.2 = true) :
    Inv (s.put t k' (fs ++ rest) v') := by
  have hf := h.frames t f (by simp [hst])
  have hv := h.reserved t (by simp [hst])
  have he := turn_effect ht hf hv
  obtain ⟨hheld, hsuper⟩ := he.held_super
  have hmnt : ∀ sb ∈ s.kern.super, ∀ j, sb.imount = some j → Stays s.kern k' j :=
    fun sb hsb j hj => h.stays_mounted hst he hsb hj
  have hbot := hst ▸ h.bottoms t
  refine ⟨?_, ?_, ?_, ?_, ?_, ?_, ?_, ?_⟩
  · intro i
    have h1 := h.counted i
    have h2 := he.count hf hv i
    have h3 := Sys.load_turn (Frame.owes i) (Val.owes i) hst k' fs v'
    simp only [total, Sys.put_kern, hheld, Kern.mounts, hsuper] at h1 ⊢
    omega
  · intro u g hg
    rw [Sys.put_stack] at hg
    split at hg
    · rcases List.mem_append.1 hg with hg | hg
      · exact he.frames hf hv (fun sb hsb j hj => ⟨hmnt sb hsb j hj, (h.mounted sb hsb j hj).2⟩) h.notRoot g hg
      · exact (h.frames t g (by simp [hst, hg])).stays hsuper hmnt fun i => h.stays_below hst he hg
    · rename_i hu
      exact (h.frames u g hg).stays hsuper hmnt fun i => h.stays_frame hst he hu hg
  · intro u hne e hacc
    rw [Sys.put_stack] at hne
    rw [Sys.put_acc] at hacc
    split at hacc
    · rename_i hu
      rw [if_pos hu] at hne
      rcases he.reserved hacc with hb | ⟨hb, rfl⟩
      · exact hb
      · exact absurd (hbot.1 hb) hne
    · rename_i hu
      rw [if_neg hu] at hne
      exact (h.stays_acc hst he hu hacc).blank (h.reserved u hne e hacc)
  · intro u
    rw [Sys.put_stack]
    split
    · obtain ⟨h1, h2⟩ := turn_bottoms ht
      cases hb : f.bottom with
      | true =>
        rw [hbot.1 hb, List.append_nil]
        exact h1
      | false => exact .append (h2 hb) hbot.2
    · exact h.bottoms u
  · intro sb hsb j hj
    rw [Sys.put_kern, hsuper] at hsb
    obtain ⟨hd, hsd⟩ := h.mounted sb hsb j hj
    exact ⟨fun h0 => hd ((hmnt sb hsb j hj).dev.symm.trans h0), hsd⟩
  · exact he.notRoot hf hv h.notRoot
  · exact (he.once h.once h.bits hi).1
  · exact (he.once h.once h.bits hi).2

end Step

section Calls

variable [DecidableEq T]

/-- What changes nothing the table's users go by keeps the invariant, with the
references handed between a task and the rest of the kernel. -/
theorem Inv.put {t : T} {k' : Kern} (h : Inv s) (hk : Kept s.kern k') (hfs : ∀ g ∈ fs, FrameOk k' g) (hb : Bottoms fs)
    (hv : ∀ i, v' ≠ .ino i) (hst : s.stack t = [])
    (ho : ∀ i, k'.held i + weigh (Frame.owes i) fs ≤ s.kern.held i + (s.acc t).owes i) :
    Inv (s.put t k' fs v') := by
  have hmnt : ∀ sb ∈ s.kern.super, ∀ j, sb.imount = some j → Stays s.kern k' j := fun _ _ j _ => hk.stays j
  refine ⟨?_, ?_, ?_, ?_, ?_, ?_, h.once.of_same hk.dev hk.num, h.bits.of_same hk.dev hk.num hk.imap⟩
  · intro i
    have h1 := h.counted i
    have h2 := s.load_put (Frame.owes i) (Val.owes i) t k' fs v'
    have h3 := ho i
    have h4 : v'.owes i = 0 := by
      cases v' with
      | ino j => exact absurd rfl (hv j)
      | null => rfl
      | buf b => rfl
    simp only [total, Sys.put_kern, Kern.mounts, hk.super, hk.count, weight, hst, weigh]
      at h1 h2 ⊢
    omega
  · intro u g hg
    rw [Sys.put_stack] at hg
    split at hg
    · exact hfs g hg
    · exact (h.frames u g hg).stays hk.super hmnt fun i _ => hk.stays i
  · intro u hne e hacc
    rw [Sys.put_stack] at hne
    rw [Sys.put_acc] at hacc
    split at hacc
    · exact absurd hacc (hv e)
    · rename_i hu
      rw [if_neg hu] at hne
      exact (hk.stays e).blank (h.reserved u hne e hacc)
  · intro u
    rw [Sys.put_stack]
    split
    · exact hb
    · exact h.bottoms u
  · intro sb hsb j hj
    rw [Sys.put_kern, hk.super] at hsb
    obtain ⟨hd, hsd⟩ := h.mounted sb hsb j hj
    exact ⟨fun h0 => hd ((hk.dev j).symm.trans h0), hsd⟩
  · intro i
    rw [Sys.put_kern, hk.mount, hk.num]
    exact h.notRoot i

theorem Inv.call {t : T} {c : Call} (h : Inv s) (hst : s.stack t = [])
    (hc : Inode.call c (s.acc t) s.kern = some (k', fs, v')) : Inv (s.put t k' fs v') := by
  generalize hacc : s.acc t = v at hc
  cases c <;> cases v <;> simp only [Inode.call, reduceCtorEq] at hc
  case iput.null i =>
    split at hc
    · cases hc
    cases hc
    refine h.put (.of_ino rfl rfl rfl) (by simp [FrameOk]) (by simp [Bottoms]) (by simp) hst fun j => ?_
    simp only [Function.update_apply, weigh, Frame.owes_iput]
    by_cases hj : j = i
    · simp only [hj, if_true]
      omega
    · simp only [if_neg hj]
      omega
  case keep.ino i =>
    cases hc
    refine h.put (.of_ino rfl rfl rfl) (by simp) trivial (by simp) hst fun j => ?_
    simp only [Function.update_apply, weigh, hacc, Val.owes_ino]
    by_cases hj : j = i
    · simp only [hj, if_true]
      omega
    · simp only [if_neg hj]
      omega
  case change.null i x =>
    split at hc
    · cases hc
    cases hc
    exact h.put (.of_set rfl rfl rfl rfl) (by simp) trivial (by simp) hst fun j => Nat.le_add_right _ _
  all_goals
    cases hc
    exact h.put (.of_ino rfl rfl rfl) (by simp [FrameOk]) (by simp [Bottoms, Frame.bottom]) (by simp) hst
      fun j => Nat.le_add_right _ _

end Calls

/-- An interrupt changes nothing the table's users go by. -/
theorem Inv.irq {e : Nat × Bool} (h : Inv s) (hi : Inode.irq e s.kern = some k') :
    Inv { s with kern := k' } := by
  have hk : Kept s.kern k' ∧ k'.held = s.kern.held := by
    simp only [Inode.irq, endRequest, Option.map_eq_some_iff] at hi
    obtain ⟨_, _, rfl⟩ := hi
    exact ⟨.of_ino rfl rfl rfl, rfl⟩
  obtain ⟨hk, hh⟩ := hk
  refine ⟨fun i => ?_, fun t g hg => ?_, fun t hne e hacc => ?_, h.bottoms, fun sb hsb j hj => ?_, fun i => ?_,
    h.once.of_same hk.dev hk.num, h.bits.of_same hk.dev hk.num hk.imap⟩
  · simp only [total, Kern.mounts, hh, hk.super, hk.count]
    exact h.counted i
  · exact (h.frames t g hg).stays hk.super (fun _ _ j _ => hk.stays j) fun i _ => hk.stays i
  · exact (hk.stays e).blank (h.reserved t hne e hacc)
  · rw [hk.dev j]
    exact h.mounted sb (hk.super ▸ hsb) j hj
  · rw [hk.mount, hk.num]
    exact h.notRoot i

/-! ## Every run -/

/-- No task is inside the routines; the counts cover the references; every
entry is for an inode in use, and no two for the same one; mount points are
entries with a device, and no root is one. -/
structure Consistent (s : Sys T Kern Frame Val) : Prop extends Idle s where
  counted : ∀ i, s.kern.held i + s.kern.mounts i ≤ (s.kern.ino i).count
  mounted : ∀ sb ∈ s.kern.super, ∀ j, sb.imount = some j → (s.kern.ino j).dev ≠ 0 ∧ sb.dev ≠ 0
  notRoot : ∀ i, (s.kern.ino i).mount = true → (s.kern.ino i).num ≠ rootIno
  once : Once s.kern
  bits : Bits s.kern

theorem Consistent.inv (h : Consistent s) : Inv s := by
  refine ⟨fun i => ?_, fun t f hf => ?_, fun t ht => ?_, fun t => ?_, h.mounted, h.notRoot, h.once, h.bits⟩
  · have hload : s.load (Frame.owes i) (Val.owes i) = 0 :=
      Finset.sum_eq_zero fun t _ => by simp [weight, weigh, h.stack t, h.acc t]
    unfold total
    have := h.counted i
    omega
  · simp [h.stack t] at hf
  · exact absurd (h.stack t) ht
  · rw [h.stack t]
    trivial

variable [DecidableEq T]

theorem Inv.step {a : Act T Call (Nat × Bool)} (h : Inv s) (ha : allocated s a = true)
    (hs : machine.Step s a s') : Inv s' := by
  cases a with
  | run t =>
    obtain ⟨f, rest, k', fs, v', hst, ht, rfl⟩ := Machine.step_run hs
    refine h.turn hst ht fun x hx => ?_
    simpa only [allocated, hst, hx, Option.all_some] using ha
  | call t c =>
    obtain ⟨k', fs, v', hst, hc, rfl⟩ := Machine.step_call hs
    exact h.call hst hc
  | irq e =>
    obtain ⟨k', hi, rfl⟩ := Machine.step_irq hs
    exact h.irq hi

/-- **The table has each inode at most once, and `iget` returns the entry asked
for** or the root of the file system mounted there, in every run in which what
`iget` puts into the table is in use. -/
theorem inode_table_once (h0 : Consistent s)
    (hr : Run.Reaches (Run.Under (fun s a => allocated s a = true) machine.Step) s s') :
    (∀ i j, 0 < (s'.kern.ino i).count → 0 < (s'.kern.ino j).count → (s'.kern.ino i).dev ≠ 0 →
      (s'.kern.ino i).dev = (s'.kern.ino j).dev → (s'.kern.ino i).num = (s'.kern.ino j).num → i = j) ∧
    ∀ t dev nr i rest, s'.stack t = .igetDone dev nr i :: rest →
      Leads s'.kern dev nr (s'.kern.ino i).dev (s'.kern.ino i).num := by
  have h : Inv s' := hr.invariant (I := Inv) (fun s a s' hs h => hs.step h.1 h.2) h0.inv
  refine ⟨fun i j _ _ => h.once i j, fun t dev nr i rest hst => ?_⟩
  have hok : FrameOk s'.kern (.igetDone dev nr i) := h.frames t _ (by rw [hst]; exact List.mem_cons_self)
  exact hok.2

/-- A first `iget`, of the root, about to return. -/
theorem inode_table_once_root : ∃ s' : Sys (Fin 64) Kern Frame Val,
    Run.Reaches (Run.Under (fun s a => allocated s a = true) machine.Step) (idle (Fin 64) freshKern) s' ∧
    s'.stack 1 = [.igetDone 0x301 1 1] ∧ Leads s'.kern 0x301 1 (s'.kern.ino 1).dev (s'.kern.ino 1).num := by
  have hrun : (machine.acts allocated (idle (Fin 64) freshKern)
      (.call 1 (.iget 0x301 1) :: List.replicate 11 (.run 1) ++ .irq (0, true) :: List.replicate 4 (.run 1))).any
      (fun s => decide (s.stack 1 = [.igetDone 0x301 1 1])) = true := by decide
  obtain ⟨s', hs, hst⟩ := machine.reaches_of_acts hrun
  have hst := of_decide_eq_true hst
  have h0 : Consistent (idle (Fin 64) freshKern) :=
    { stack := fun _ => rfl
      acc := fun _ => rfl
      lock := fun _ => rfl
      counted := fun _ => Nat.le_refl 0
      mounted := fun sb hsb j hj => by simp_all [idle, freshKern, hdSuper]
      notRoot := fun _ h => absurd h Bool.false_ne_true
      once := fun _ _ h => absurd rfl h
      bits := fun _ h => absurd rfl h }
  exact ⟨s', hs, hst, (inode_table_once h0 hs).2 1 _ _ _ _ hst⟩

/-- Inode 2 in entry 5, open and without links. -/
def unlinkedKern : Kern :=
  { freshKern with
    ino := fun i =>
      if i = 5 then { MInode.blank with mode := 0o100644, dev := 0x301, num := 2, count := 1 } else MInode.blank
    imap := fun _ nr => nr ≤ 2
    held := fun i => if i = 5 then 1 else 0 }

theorem unlinkedKern_consistent : Consistent (idle (Fin 64) unlinkedKern) where
  stack _ := rfl
  acc _ := rfl
  lock i := by
    simp only [idle, unlinkedKern]
    split <;> rfl
  counted i := by
    have hm : unlinkedKern.mounts i = 0 := rfl
    simp only [idle, hm]
    simp only [unlinkedKern]
    split <;> decide
  mounted sb hsb j hj := by simp_all [idle, unlinkedKern, freshKern, hdSuper]
  notRoot i := by
    simp only [idle, unlinkedKern]
    split <;> simp [MInode.blank]
  once i j := by
    simp only [idle, unlinkedKern]
    split <;> split <;> simp_all [MInode.blank]
  bits i := by
    simp only [idle, unlinkedKern]
    split <;> simp [MInode.blank]

/-- Task 2 drops the last reference to inode 2, which has no links; task 1 looks
for the inode by the number it read before; task 3 gets the number for a new one. -/
theorem inode_twice : ∃ s s' : Sys (Fin 64) Kern Frame Val, Consistent s ∧ Run.Reaches machine.Step s s' ∧
    (0 < (s'.kern.ino 1).count ∧ (s'.kern.ino 1).dev = 0x301 ∧ (s'.kern.ino 1).num = 2) ∧
    0 < (s'.kern.ino 2).count ∧ (s'.kern.ino 2).dev = 0x301 ∧ (s'.kern.ino 2).num = 2 := by
  have hrun : (machine.acts (fun _ _ => true) (idle (Fin 64) unlinkedKern)
      (.call 2 (.iput 5) :: List.replicate 3 (.run 2) ++ .call 1 (.iget 0x301 2) :: List.replicate 4 (.run 1) ++
        .call 3 (.newInode 0x301) :: List.replicate 4 (.run 3))).any
      (fun s => decide ((0 < (s.kern.ino 1).count ∧ (s.kern.ino 1).dev = 0x301 ∧ (s.kern.ino 1).num = 2) ∧
        0 < (s.kern.ino 2).count ∧ (s.kern.ino 2).dev = 0x301 ∧ (s.kern.ino 2).num = 2)) = true := by decide
  obtain ⟨s', hs, hp⟩ := machine.reaches_of_acts hrun
  exact ⟨_, s', unlinkedKern_consistent, hs.of_under, of_decide_eq_true hp⟩

end Linux011.Fs.Inode
