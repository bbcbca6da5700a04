/-
Inode locks and the task that set them.

`read_inode` and `write_inode` keep an inode locked while they `bread` its
block, and below them `getblk` calls `sync_dev`, and so `sync_inodes`, when
the buffer it chose is dirty. `sync_inodes` waits for every inode in turn, the
locked one among them: a task that gets there sleeps for a lock only it can
release. It is the only way: in a run in which `getblk`, under an inode lock,
never finds its choice unused and dirty, no task waits for a lock of its own.
-/
import Linux011.Fs.Inode

namespace Linux011.Fs.Inode

open Coop

variable {T : Type*} [DecidableEq T]

/-- The entry a frame has locked: the code between `lock_inode` and `unlock_inode`. -/
def Frame.locks : Frame → Option Slot
  | .readGot i | .writeGot i | .unlockInode i => some i
  | _ => none

/-- The entry a frame is at `wait_on_inode` or `lock_inode` of. -/
def Frame.waits : Frame → Option Slot
  | .syncInodes i => if h : i < 32 then some ⟨i, h⟩ else none
  | .readInode i | .writeInode i | .emptyWait i | .iput i | .iputWait i => some i
  | .igetWait _ _ _ _ _ i => some i
  | _ => none

/-- The task is at `wait_on_inode` or `lock_inode` of an entry it has locked. -/
def WaitsForItself (s : Sys T Kern Frame Val) (t : T) : Prop :=
  ∃ f rest i, s.stack t = f :: rest ∧ f.waits = some i ∧ ∃ g ∈ rest, g.locks = some i

/-- `getblk` is about to look at the buffer it chose, finds it unused and dirty,
and so calls `sync_dev`, while an inode is locked below it. -/
def syncsUnderLock (k : Kern) : List Frame → Bool
  | .chosen _ _ b :: rest =>
    !(k.buf b).lock && (k.buf b).count == 0 && (k.buf b).dirt && rest.any fun g => g.locks.isSome
  | _ => false

/-- No turn of a task takes `getblk` into `sync_dev` under an inode lock. -/
def cleanUnderLock (s : Sys T Kern Frame Val) : Act T Call (Nat × Bool) → Bool
  | .run t => !syncsUnderLock s.kern (s.stack t)
  | .call _ _ | .irq _ => true

/-! ## The frames above a lock -/

/-- The frames of `bread` and of what it calls, `sync_dev` apart. -/
def Frame.buffer : Frame → Bool
  | .llRwBlock _ _ | .request _ _ | .getblk _ _ | .hashed _ _ _ | .chosen _ _ _ => true
  | .bread _ _ | .breadGot | .breadWait _ | .brelse _ => true
  | _ => false

def Unlocked (fs : List Frame) : Prop := ∀ g ∈ fs, g.locks = none

/-- Above a frame that has locked an entry there is only `bread`. -/
def Tame : List Frame → Prop
  | [] => True
  | f :: rest => (f.buffer = true ∨ Unlocked rest) ∧ Tame rest

theorem Frame.waits_buffer {f : Frame} (h : f.buffer = true) : f.waits = none := by
  cases f <;> simp_all [Frame.buffer, Frame.waits]

theorem Tame.append_unlocked {fs rest : List Frame} (hf : Tame fs) (hr : Tame rest)
    (hu : Unlocked rest) : Tame (fs ++ rest) := by
  induction fs with
  | nil => exact hr
  | cons f fs ih =>
    refine ⟨hf.1.imp_right fun h g hg => ?_, ih hf.2⟩
    rcases List.mem_append.1 hg with hg | hg
    · exact h g hg
    · exact hu g hg

theorem Tame.append_buffer {fs rest : List Frame} (hf : ∀ g ∈ fs, g.buffer = true) (hr : Tame rest) :
    Tame (fs ++ rest) := by
  induction fs with
  | nil => exact hr
  | cons f fs ih =>
    exact ⟨.inl (hf f (by simp)), ih fun g hg => hf g (by simp [hg])⟩

/-- A routine of the buffer cache stays in it, unless `getblk` finds its choice dirty. -/
theorem turn_buffer {f : Frame} {v v' : Val} {k k' : Kern} {fs : List Frame}
    (h : turn f v k = .goes k' fs v') (hf : f.buffer = true) :
    (∀ g ∈ fs, g.buffer = true) ∨ ∃ dev block b, f = .chosen dev block b ∧ (k.buf b).lock = false ∧
      (k.buf b).count = 0 ∧ (k.buf b).dirt = true := by
  cases f <;> simp only [Frame.buffer, Bool.false_eq_true] at hf
  case chosen dev block b =>
    simp only [turn, getblkChosen] at h
    split at h
    · cases h
    split at h
    · cases h
      simp [Frame.buffer]
    split at h
    · exact .inr ⟨dev, block, b, rfl, by simp_all⟩
    split at h <;> (cases h; simp [Frame.buffer])
  all_goals
    left
    simp only [turn, llRwBlock, addRequest, getblk, getHashTable, breadGot, breadWait, brelse] at h
    repeat' split at h
    all_goals cases h
    all_goals simp [Frame.buffer]

/-- The frames of one turn are in order by themselves. -/
theorem turn_tame {f : Frame} {v v' : Val} {k k' : Kern} {fs : List Frame}
    (h : turn f v k = .goes k' fs v') : Tame fs := by
  cases f
  all_goals
    simp only [turn, llRwBlock, addRequest, getblk, getHashTable, getblkChosen, breadGot, breadWait,
      brelse, syncDev, syncWait, syncInodes, syncAll, readInode, readGot, writeInode, writeGot,
      unlockInode, getEmptyInode, emptyWait, igetEmpty, igetScan, igetWait, newEmpty, iput, iputWait,
      iputRepeat, truncate, freeInode] at h
    repeat' split at h
    all_goals cases h
    all_goals simp [Tame, Frame.buffer, Unlocked, Frame.locks]

theorem call_tame {c : Call} {v v' : Val} {k k' : Kern} {fs : List Frame}
    (h : call c v k = some (k', fs, v')) : Tame fs := by
  unfold call at h
  repeat' split at h
  all_goals cases h
  all_goals simp [Tame, Frame.buffer, Unlocked, Frame.locks]

theorem step_tame {s s' : Sys T Kern Frame Val} {a : Act T Call (Nat × Bool)}
    (hs : ∀ t, Tame (s.stack t)) (hc : cleanUnderLock s a = true) (h : machine.Step s a s') :
    ∀ t, Tame (s'.stack t) := by
  refine Machine.step_stacks h hs ?_ fun c v k k' fs v' => call_tame
  intro t f rest k fs v ha hf hturn htame
  have ht : turn f (s.acc t) s.kern = .goes k fs v := hturn
  rcases htame.1 with hb | hu
  · rcases turn_buffer ht hb with hall | ⟨dev, block, b, rfl, hl, hcount, hd⟩
    · exact .append_buffer hall htame.2
    · refine (turn_tame ht).append_unlocked htame.2 fun g hg => ?_
      simp only [ha, cleanUnderLock, hf, syncsUnderLock, hl, hcount, hd, Bool.not_eq_true',
        Bool.not_false, beq_self_eq_true, Bool.true_and, List.any_eq_false, Option.isSome_iff_ne_none,
        ne_eq, not_not] at hc
      exact hc g hg
  · exact (turn_tame ht).append_unlocked htame.2 hu

/-- **No task waits for an inode lock of its own**, in any run in which `getblk`
never enters `sync_dev` under one. -/
theorem no_self_wait {s s' : Sys T Kern Frame Val} (h0 : Idle s)
    (hr : Run.Reaches (Run.Under (fun s a => cleanUnderLock s a = true) machine.Step) s s') (t : T) :
    ¬WaitsForItself s' t := by
  have htame : ∀ t, Tame (s'.stack t) := by
    refine hr.invariant (I := fun s => ∀ t, Tame (s.stack t)) (fun s a s' hs h => step_tame hs h.1 h.2)
      fun t => ?_
    rw [h0.stack t]
    trivial
  intro hw
  obtain ⟨f, rest, i, hf, hwait, g, hg, hlock⟩ := hw
  have h := hf ▸ htame t
  rcases h.1 with hb | hu
  · rw [Frame.waits_buffer hb] at hwait
    cases hwait
  · rw [hu g hg] at hlock
    cases hlock

/-- `read_inode` with the lock set, back from `getblk`. -/
theorem no_self_wait_reading : ∃ s', Run.Reaches
    (Run.Under (fun s a => cleanUnderLock s a = true) machine.Step) (idle Nat freshKern) s' ∧
    (s'.stack 1).any (fun g => g.locks == some 1) = true ∧ ¬WaitsForItself s' 1 := by
  have hrun : (machine.acts cleanUnderLock (idle Nat freshKern)
      (.call 1 (.iget 0x301 1) :: List.replicate 8 (.run 1))).any
      (fun s => (s.stack 1).any fun g => g.locks == some 1) = true := by decide
  obtain ⟨s', hs, hl⟩ := machine.reaches_of_acts hrun
  exact ⟨s', hs, hl, no_self_wait ⟨fun _ => rfl, fun _ => rfl, fun _ => rfl⟩ hs 1⟩

/-! ## With no clean buffer -/

/-- A changed inode, and no clean buffer: the first is of the inode's device, the others of another. -/
def dirtyKern (n : Nat) : Kern :=
  { nbuf := n + 1
    buf := fun b => { dev := if b = 0 then 0x301 else 0x302, blocknr := 100 + b, uptodate := true,
                      dirt := true, count := 0, lock := false }
    free := List.range (n + 1)
    req := fun _ => none
    driver := fun _ => true
    ino := fun i =>
      if i = 0 then { MInode.blank with mode := 0o100644, nlinks := 1, dev := 0x301, num := 1, count := 1, dirt := true }
      else MInode.blank
    last := 0
    dinode := fun _ _ => DInode.blank
    imap := fun _ nr => nr ≤ 1
    super := [hdSuper]
    held := fun i => if i = 0 then 1 else 0 }

/-- With every unused buffer dirty, the search ends where it began. -/
theorem pick_dirty {k : Kern} {b : Nat} (hb : (k.buf b).badness ≤ 2) (hd : ∀ c, 2 ≤ (k.buf c).badness) (l : List Nat) :
    pick k l (some b) = some b := by
  induction l with
  | nil => rfl
  | cons c l ih =>
    have hc : ¬(k.buf c).badness < (k.buf b).badness := by have := hd c; omega
    simp [pick, hc, ih]

/-- The cache after `write_inode` locked the inode. -/
def lockedKern (n : Nat) : Kern :=
  (dirtyKern n).setIno 0 { (dirtyKern n).ino 0 with lock := true }

def queuedKern (n : Nat) : Kern :=
  { (lockedKern n).setBuf 0 { (lockedKern n).buf 0 with lock := true, dirt := false } with
    req := Function.update (fun _ => none) 0 (some .write) }

theorem lockedKern_getblk (n : Nat) : getblk (lockedKern n) 0x301 4 = .goes (lockedKern n) [.chosen 0x301 4 0] .null := by
  have hf : findBuffer (lockedKern n) 0x301 4 = none := by
    simp [findBuffer, lockedKern, Kern.setIno, dirtyKern]
    omega
  have hp : pick (lockedKern n) (lockedKern n).free none = some 0 := by
    have hfree : (lockedKern n).free = 0 :: (List.range n).map Nat.succ := List.range_succ_eq_map
    rw [hfree]
    have hb : ∀ b, ((lockedKern n).buf b).badness = 2 := fun _ => rfl
    exact pick_dirty (Nat.le_of_eq (hb 0)) (fun b => Nat.le_of_eq (hb b).symm) _
  simp [getblk, hf, hp]

theorem queuedKern_syncDev (n : Nat) : syncDev (queuedKern n) 0x301 false 1 =
    .goes (queuedKern n) [.syncInodes 0, .syncDev 0x301 true 0] .null := by
  have h : ((List.range' 1 ((queuedKern n).nbuf - 1)).find? fun c => ((queuedKern n).buf c).dev = 0x301) = none := by
    simp only [List.find?_eq_none, List.mem_range'_1]
    intro c hc
    have : c ≠ 0 := by omega
    simp [queuedKern, lockedKern, Kern.setBuf, Kern.setIno, dirtyKern, this]
  rw [syncDev, h]
  rfl

theorem dirty_alone (n : Nat) : machine.Alone (dirtyKern n) [.syncInodes 0, .syncAll 0] .null (queuedKern n)
    [.syncInodes 0, .syncDev 0x301 true 0, .chosen 0x301 4 0, .breadGot, .writeGot 0, .syncInodes 1,
      .syncAll 0] .null := by
  have hsync : turn (.syncInodes 0) .null (dirtyKern n) =
      .goes (dirtyKern n) [.writeInode 0, .syncInodes 1] .null := rfl
  have hlock : turn (.writeInode 0) .null (dirtyKern n) =
      .goes (lockedKern n) [.bread 0x301 4, .writeGot 0] .null := by
    simp [turn, writeInode, lockedKern, Kern.getSuper, dirtyKern, hdSuper, MInode.blank, Super.inodeBlock]
  have hchosen : turn (.chosen 0x301 4 0) .null (lockedKern n) =
      .goes (lockedKern n) [.syncDev 0x301 false 0, .chosen 0x301 4 0] .null := rfl
  have hfirst : turn (.syncDev 0x301 false 0) .null (lockedKern n) =
      .goes (lockedKern n) [.syncWait 0x301 false 0] .null := rfl
  have hwrite : turn (.request .write 0) .null ((lockedKern n).setBuf 0 { (lockedKern n).buf 0 with lock := true }) =
      .goes (queuedKern n) [] .null := by
    simp [turn, addRequest, queuedKern, Kern.setBuf, lockedKern, Kern.setIno, dirtyKern]
  exact .turn hsync (.turn hlock (.turn rfl (.turn (lockedKern_getblk n) (.turn hchosen (.turn hfirst
    (.turn rfl (.turn rfl (.turn hwrite (.turn (queuedKern_syncDev n) .refl)))))))))

/-- `sync` with no clean buffer: writing the changed inode, the task comes to wait for it. -/
theorem sync_waits (n : Nat) (t : T) : ∃ s', Run.Reaches machine.Step (idle T (dirtyKern n)) s' ∧
    WaitsForItself s' t ∧ (s'.kern.ino 0).lock = true := by
  let s₁ := (idle T (dirtyKern n)).put t (dirtyKern n) [.syncInodes 0, .syncAll 0] .null
  have hcall : machine.Step (idle T (dirtyKern n)) (.call t .sync) s₁ := rfl
  obtain ⟨as, hrun⟩ := (dirty_alone n).reaches (s := s₁) (t := t) rfl (by simp [s₁, Sys.put]) (by simp [s₁, Sys.put])
  exact ⟨_, ⟨_, .cons hcall hrun⟩,
    ⟨.syncInodes 0, _, 0, (Sys.put_stack _ _ _ _ _ _).trans (if_pos rfl), rfl, .writeGot 0, by simp, rfl⟩, rfl⟩

/-- The same with three thousand buffers, by task 1. -/
theorem sync_waits_for_itself : ∃ s s' : Sys Nat Kern Frame Val, Idle s ∧ Run.Reaches machine.Step s s' ∧
    WaitsForItself s' 1 ∧ (s'.kern.ino 0).lock = true := by
  obtain ⟨s', hs⟩ := sync_waits (T := Nat) 2999 1
  refine ⟨_, s', ⟨fun _ => rfl, fun _ => rfl, fun i => ?_⟩, hs⟩
  simp only [idle, dirtyKern]
  split <;> rfl

end Linux011.Fs.Inode
