/-
The scans of a directory: `find_entry`, `add_entry` and `empty_dir`.

Each goes from block to block with `de` at an entry and `bh` at the buffer it
is in. The model keeps both, and writes down what becomes of the buffers and
which entries are looked at: a buffer is known by a number, in the order they
are got. A block that is not there, or cannot be read, is skipped with `bh` NULL
(`find_entry`, `add_entry`) or still at the buffer just released (`empty_dir`),
and the next turn goes through it.
-/
import Linux011.Fs.Format
import Linux011.Fs.Zones
import Mathlib.Tactic.Common

namespace Linux011.Fs.Scan

/-- A directory: its number, its `i_size`, the zone of each of its blocks (0 for none), and the entries of a zone. -/
structure Dir where
  num : Nat
  size : Nat
  zone : Nat → Nat
  entry : Nat → Nat → DirEntry

/-- Entry `i`. -/
def Dir.at (d : Dir) (i : Nat) : DirEntry := d.entry (d.zone (i / 64)) (i % 64)

/-- The entries `i_size` has room for. -/
def Dir.entries (d : Dir) : Nat := d.size / 16

/-- What a scan does: it gets and releases a buffer, or looks at an entry. -/
inductive Event
  | get (h : Nat)
  | put (h : Nat)
  | look (i : Nat)
  deriving DecidableEq

/-- How a scan ends. -/
inductive Out
  /-- `bh->b_data` with `bh` NULL. -/
  | null
  /-- `_bmap: block>big`. -/
  | big
  /-- `NULL`, or 0 of `empty_dir`. -/
  | none
  /-- The buffer and the entry returned. -/
  | entry (h i : Nat)
  /-- 1 of `empty_dir`. -/
  | empty
  deriving DecidableEq

abbrev Result := List Event × Out

def Result.after (es : List Event) (r : Result) : Result := (es ++ r.1, r.2)

/-- `match`, of a name cut to `NAME_LEN` bytes. -/
def matchName (name : List Nat) (de : DirEntry) : Bool :=
  de.inode != 0 && (name.length == nameLen || de.name.getD name.length 0 == 0) && de.name.take name.length == name

/-- `brelse`. -/
def brelse (bh : Option Nat) : List Event := (bh.map Event.put).toList

/-! ## find_entry -/

/-- The loop of `find_entry`: `de` is at place `k` of its block, `n` is the next buffer's number. -/
def findLoop (ok : Nat → Bool) (d : Dir) (entries : Nat) (name : List Nat) : Nat → Nat → Nat → Option Nat → Nat → Result
  | 0, _, _, _, _ => ([], .none)
  | fuel + 1, i, k, bh, n =>
    if i < entries then
      match bh with
      | none => ([], .null)
      | some h =>
        if 64 ≤ k then
          if maxBlock ≤ i / 64 then ([.put h], .big)
          else if d.zone (i / 64) = 0 ∨ ok (d.zone (i / 64)) = false then
            (findLoop ok d entries name fuel (i + 64) k none n).after [.put h]
          else if matchName name (d.at i) then ([.put h, .get n, .look i], .entry n i)
          else (findLoop ok d entries name fuel (i + 1) 1 (some n) (n + 1)).after [.put h, .get n, .look i]
        else if matchName name (d.at i) then ([.look i], .entry h i)
        else (findLoop ok d entries name fuel (i + 1) (k + 1) (some h) n).after [.look i]
    else (brelse bh, .none)

/-- `..`. -/
def dotDot : List Nat := [46, 46]

/-- The directory that is scanned: `..` in the root of a file system is looked up where that is mounted. -/
def scanned (d : Dir) (root : Bool) (imount : Option Dir) (name : List Nat) : Dir :=
  if name = dotDot ∧ root = false then imount.getD d else d

/-- The name that is looked for: in the task's root, `.` for `..`. -/
def sought (root : Bool) (name : List Nat) : List Nat := if name = dotDot ∧ root = true then [46] else name

/-- `find_entry`. `root` says that the directory is `current->root`, `imount` is `s_imount` if it is the root of a file
system. -/
def findEntry (ok : Nat → Bool) (d : Dir) (root : Bool) (imount : Option Dir) (name : List Nat) : Result :=
  let name := name.take nameLen
  let entries := d.entries
  if name = [] then ([], .none)
  else
    let dir := scanned d root imount name
    if dir.zone 0 = 0 ∨ ok (dir.zone 0) = false then ([], .none)
    else (findLoop ok dir entries (sought root name) (entries + 1) 0 0 (some 0) 1).after [.get 0]

/-! ## add_entry -/

/-- A new block, its entries free. -/
def Dir.create (d : Dir) (b z : Nat) : Dir :=
  { d with zone := Function.update d.zone b z, entry := Function.update d.entry z fun _ => DirEntry.free }

/-- A change of entry `i`. -/
def Dir.set (d : Dir) (i : Nat) (de : DirEntry) : Dir :=
  { d with entry := Function.update d.entry (d.zone (i / 64)) (Function.update (d.entry (d.zone (i / 64))) (i % 64) de) }

/-- The name as `add_entry` stores it. -/
def storedName (name : List Nat) : List Nat := name ++ List.replicate (nameLen - name.length) 0

/-- The tests on entry `i`: it is behind the end, or free. -/
def take (d : Dir) (name : List Nat) (i : Nat) : Option Dir :=
  if d.size ≤ 16 * i then some { d.set i { inode := 0, name := storedName name } with size := 16 * (i + 1) }
  else if (d.at i).inode = 0 then some (d.set i { inode := 0, name := storedName name })
  else none

/-- The loop of `add_entry`. A block that is not there is made with zone `z`, if that is not 0. -/
def addLoop (ok : Nat → Bool) (name : List Nat) (z : Nat) : Nat → Dir → Nat → Nat → Option Nat → Nat → Dir × Result
  | 0, d, _, _, _, _ => (d, [], .none)
  | fuel + 1, d, i, k, bh, n =>
    match bh with
    | none => (d, [], .null)
    | some h =>
      if 64 ≤ k then
        if maxBlock ≤ i / 64 then (d, [.put h], .big)
        else if d.zone (i / 64) = 0 ∧ z = 0 then (d, [.put h], .none)
        else
          let new := d.zone (i / 64) = 0
          let d := if new then d.create (i / 64) z else d
          if ¬new ∧ ok (d.zone (i / 64)) = false then
            let r := addLoop ok name z fuel d (i + 64) k none n
            (r.1, r.2.after [.put h])
          else
            match take d name i with
            | some d => (d, [.put h, .get n, .look i], .entry n i)
            | none =>
              let r := addLoop ok name z fuel d (i + 1) 1 (some n) (n + 1)
              (r.1, r.2.after [.put h, .get n, .look i])
      else
        match take d name i with
        | some d => (d, [.look i], .entry h i)
        | none =>
          let r := addLoop ok name z fuel d (i + 1) (k + 1) (some h) n
          (r.1, r.2.after [.look i])

/-- `add_entry`. -/
def addEntry (ok : Nat → Bool) (d : Dir) (name : List Nat) (z : Nat) : Dir × Result :=
  let name := name.take nameLen
  if name = [] then (d, [], .none)
  else if d.zone 0 = 0 ∨ ok (d.zone 0) = false then (d, [], .none)
  else
    let r := addLoop ok name z (d.entries + 2) d 0 0 (some 0) 1
    (r.1, r.2.after [.get 0])

/-! ## empty_dir -/

/-- The loop of `empty_dir`. -/
def emptyLoop (ok : Nat → Bool) (d : Dir) (len : Nat) : Nat → Nat → Nat → Nat → Nat → Result
  | 0, _, _, _, _ => ([], .none)
  | fuel + 1, nr, k, h, n =>
    if nr < len then
      if 64 ≤ k then
        if maxBlock ≤ nr / 64 then ([.put h], .big)
        else if d.zone (nr / 64) = 0 then (emptyLoop ok d len fuel (nr + 64) k h n).after [.put h]
        else if ok (d.zone (nr / 64)) = false then ([.put h], .none)
        else if (d.at nr).inode ≠ 0 then ([.put h, .get n, .look nr, .put n], .none)
        else (emptyLoop ok d len fuel (nr + 1) 1 n (n + 1)).after [.put h, .get n, .look nr]
      else if (d.at nr).inode ≠ 0 then ([.look nr, .put h], .none)
      else (emptyLoop ok d len fuel (nr + 1) (k + 1) h n).after [.look nr]
    else ([.put h], .empty)

/-- The test on the first two entries: `.` and `..`. -/
def dots (d : Dir) : Bool :=
  (d.at 0).inode == d.num && (d.at 1).inode != 0 && (d.at 0).name.take 2 == [46, 0] && (d.at 1).name.take 3 == [46, 46, 0]

/-- `empty_dir`. -/
def emptyDir (ok : Nat → Bool) (d : Dir) : Result :=
  if d.entries < 2 ∨ d.zone 0 = 0 ∨ ok (d.zone 0) = false then ([], .none)
  else if !dots d then ([.get 0, .look 0, .look 1], .none)
  else (emptyLoop ok d d.entries (d.entries + 1) 2 2 0 1).after [.get 0, .look 0, .look 1]

/-! ## Buffers -/

/-- The buffers held after some events: `none` if one was released that was not held. -/
def held : List Nat → List Event → Option (List Nat)
  | hs, [] => some hs
  | hs, .get h :: es => held (h :: hs) es
  | hs, .put h :: es => if h ∈ hs then held (hs.erase h) es else none
  | hs, .look _ :: es => held hs es

/-- The buffer a scan returns. -/
def Out.kept : Out → List Nat
  | .entry h _ => [h]
  | _ => []

@[simp] theorem held_nil (hs : List Nat) : held hs [] = some hs := rfl
@[simp] theorem held_get (hs : List Nat) (h : Nat) (es : List Event) : held hs (.get h :: es) = held (h :: hs) es := rfl
@[simp] theorem held_look (hs : List Nat) (i : Nat) (es : List Event) : held hs (.look i :: es) = held hs es := rfl
@[simp] theorem held_put (h : Nat) (es : List Event) : held [h] (.put h :: es) = held [] es := by simp [held]

@[simp] theorem Result.after_fst (es : List Event) (r : Result) : (r.after es).1 = es ++ r.1 := rfl
@[simp] theorem Result.after_snd (es : List Event) (r : Result) : (r.after es).2 = r.2 := rfl

/-- The block is there and can be read. -/
def Dir.present (ok : Nat → Bool) (d : Dir) (b : Nat) : Prop := d.zone b ≠ 0 ∧ ok (d.zone b) = true

instance (ok : Nat → Bool) (d : Dir) (b : Nat) : Decidable (d.present ok b) := inferInstanceAs (Decidable (_ ∧ _))

theorem Dir.not_present {ok : Nat → Bool} {d : Dir} {b : Nat} :
    (d.zone b = 0 ∨ ok (d.zone b) = false) ↔ ¬d.present ok b := by
  unfold Dir.present
  rw [Classical.not_and_iff_not_or_not, not_not, Bool.not_eq_true]

section Find

variable {ok : Nat → Bool} {d : Dir} {entries : Nat} {name : List Nat}

/-- What the loop of `find_entry` comes to, from entry `i` on with buffer `h`. -/
structure Finds (ok : Nat → Bool) (d : Dir) (entries : Nat) (name : List Nat) (i h : Nat) (r : Result) : Prop where
  ends : r.2 = .none ∨ ∃ h i, r.2 = .entry h i
  held : held [h] r.1 = some r.2.kept
  looks : ∀ j, i ≤ j → j < entries → d.present ok (j / 64) → .look j ∈ r.1 ∨ ∃ h i, r.2 = .entry h i ∧ i < j
  found : ∀ h j, r.2 = .entry h j → i ≤ j ∧ j < entries ∧ matchName name (d.at j) = true
  first : ∀ j, .look j ∈ r.1 → matchName name (d.at j) = true → ∃ h, r.2 = .entry h j

/-- It has looked at entry `i`, and goes on from there. -/
theorem Finds.step {i h : Nat} {r : Result} (hr : Finds ok d entries name (i + 1) h r) (hm : matchName name (d.at i) ≠ true)
    {es : List Event} {h₀ : Nat} (hes : Scan.held [h₀] (es ++ r.1) = Scan.held [h] r.1) (hlook : ∀ j, .look j ∈ es ↔ j = i) :
    Finds ok d entries name i h₀ (r.after es) where
  ends := hr.ends
  held := by
    rw [Result.after_fst, hes]
    exact hr.held
  looks j hj hlt hp := by
    rcases Nat.eq_or_lt_of_le hj with e | hlt'
    · exact .inl (List.mem_append_left _ ((hlook j).2 e.symm))
    · exact (hr.looks j hlt' hlt hp).imp_left (List.mem_append_right _)
  found h' j he := by
    obtain ⟨h1, h2, h3⟩ := hr.found h' j he
    exact ⟨by omega, h2, h3⟩
  first j hj hmj := by
    rcases List.mem_append.1 hj with hj | hj
    · rw [(hlook j).1 hj] at hmj
      exact absurd hmj hm
    · exact hr.first j hj hmj

/-- Entry `i` is the one. -/
theorem Finds.here {i h h₀ : Nat} {es : List Event} (hm : matchName name (d.at i) = true) (hi : i < entries)
    (hes : Scan.held [h₀] es = some [h]) (hlook : ∀ j, .look j ∈ es ↔ j = i) :
    Finds ok d entries name i h₀ (es, .entry h i) where
  ends := .inr ⟨h, i, rfl⟩
  held := hes
  looks j hj _ _ := by
    rcases Nat.eq_or_lt_of_le hj with e | hlt
    · exact .inl ((hlook j).2 e.symm)
    · exact .inr ⟨h, i, rfl, hlt⟩
  found h' j he := by
    cases he
    exact ⟨Nat.le_refl i, hi, hm⟩
  first j hj _ := ⟨h, by rw [(hlook j).1 hj]⟩

/-- There is nothing more to find. -/
theorem Finds.done {i h : Nat} (hnone : ∀ j, i ≤ j → j < entries → ¬d.present ok (j / 64)) :
    Finds ok d entries name i h ([.put h], .none) where
  ends := .inl rfl
  held := held_put h []
  looks j hj hlt hp := absurd hp (hnone j hj hlt)
  found _ _ he := nomatch he
  first j hj := by simp at hj

theorem findLoop_done {fuel i k n : Nat} (hi : entries ≤ i) : findLoop ok d entries name fuel i k none n = ([], .none) := by
  cases fuel with
  | zero => rfl
  | succ fuel => rw [findLoop, if_neg (Nat.not_lt.2 hi), brelse, Option.map_none, Option.toList_none]

theorem findLoop_spec (hmax : entries ≤ 64 * maxBlock) (hblocks : ∀ b, 64 * (b + 1) < entries → d.present ok b) (fuel : Nat)
    {i k b h : Nat} (n : Nat) (hik : i = 64 * b + k) (hk : k ≤ 64) (hi : i ≤ entries) (hfuel : entries < i + fuel) :
    Finds ok d entries name i h (findLoop ok d entries name fuel i k (some h) n) := by
  induction fuel generalizing i k b h n with
  | zero => omega
  | succ fuel ih =>
    rw [findLoop]
    by_cases hlt : i < entries
    · rw [if_pos hlt]
      by_cases hend : 64 ≤ k
      · -- the next block
        have hdiv : i / 64 = b + 1 := by omega
        rw [if_pos hend, if_neg (by omega)]
        split
        · rename_i hmiss
          rw [Dir.not_present] at hmiss
          have hlast : entries ≤ i + 64 := Nat.not_lt.1 fun hlt => hmiss (hdiv ▸ hblocks (b + 1) (by omega))
          rw [findLoop_done hlast]
          refine Finds.done fun j hj hlt => ?_
          rwa [show j / 64 = i / 64 by omega]
        · split
          · rename_i hm
            exact .here hm hlt (by simp) (by simp)
          · rename_i hm
            exact (ih (b := b + 1) (n + 1) (by omega) (by omega) (by omega) (by omega)).step hm (by simp) (by simp)
      · rw [if_neg hend]
        split
        · rename_i hm
          exact .here hm hlt (by simp) (by simp)
        · rename_i hm
          exact (ih (b := b) n (by omega) (by omega) (by omega) (by omega)).step hm (by simp) (by simp)
    · rw [if_neg hlt]
      exact Finds.done fun j hj hlt' => absurd hlt' (by omega)

end Find

section Add

variable {ok : Nat → Bool} {d : Dir} {name : List Nat} {z : Nat}

/-- What the loop of `add_entry` comes to, from entry `i` on with buffer `h`. -/
structure Adds (d : Dir) (name : List Nat) (z i h : Nat) (r : Dir × Result) : Prop where
  ends : r.2.2 = .none ∧ r.1 = d ∨ ∃ h i, r.2.2 = .entry h i
  held : held [h] r.2.1 = some r.2.2.kept
  looks : r.2.2 = .none → ∀ j, i ≤ j → j < d.entries → d.zone (j / 64) ≠ 0 → .look j ∈ r.2.1
  /-- The entry taken: of a block that is there or a new one, and none before it could be taken. -/
  taken : ∀ h j, r.2.2 = .entry h j → i ≤ j ∧ (∀ l, i ≤ l → l < j → Scan.take d name l = none) ∧
    (d.zone (j / 64) ≠ 0 ∧ Scan.take d name j = some r.1 ∨
      d.zone (j / 64) = 0 ∧ z ≠ 0 ∧ Scan.take (d.create (j / 64) z) name j = some r.1)
  full : r.2.2 = .none → z = 0 ∧ ∃ j, i ≤ j ∧ d.zone (j / 64) = 0 ∧ ∀ l, i ≤ l → l < j → Scan.take d name l = none

theorem take_size {i : Nat} (h : take d name i = none) : 16 * i < d.size ∧ (d.at i).inode ≠ 0 := by
  unfold take at h
  split at h
  · cases h
  · split at h
    · cases h
    · exact ⟨by omega, ‹_›⟩

theorem Adds.step {i h : Nat} {r : Dir × Result} (hr : Adds d name z (i + 1) h r) (ht : Scan.take d name i = none)
    {es : List Event} {h₀ : Nat} (hes : Scan.held [h₀] (es ++ r.2.1) = Scan.held [h] r.2.1) (hlook : .look i ∈ es) :
    Adds d name z i h₀ (r.1, r.2.after es) where
  ends := hr.ends
  held := by
    rw [Result.after_fst, hes]
    exact hr.held
  looks hn j hj hlt hp := by
    rcases Nat.eq_or_lt_of_le hj with e | hlt'
    · exact List.mem_append_left _ (e ▸ hlook)
    · exact List.mem_append_right _ (hr.looks hn j hlt' hlt hp)
  taken h' j he := by
    obtain ⟨h1, h2, h3⟩ := hr.taken h' j he
    refine ⟨by omega, fun l hl hlt => ?_, h3⟩
    rcases Nat.eq_or_lt_of_le hl with e | hl'
    · exact e ▸ ht
    · exact h2 l hl' hlt
  full hn := by
    obtain ⟨hz, j, hj, h0, hnone⟩ := hr.full hn
    refine ⟨hz, j, by omega, h0, fun l hl hlt => ?_⟩
    rcases Nat.eq_or_lt_of_le hl with e | hl'
    · exact e ▸ ht
    · exact hnone l hl' hlt

/-- Entry `i` is taken. -/
theorem Adds.here {i h h₀ : Nat} {d' : Dir} {es : List Event} (hes : Scan.held [h₀] es = some [h])
    (ht : d.zone (i / 64) ≠ 0 ∧ Scan.take d name i = some d' ∨
      d.zone (i / 64) = 0 ∧ z ≠ 0 ∧ Scan.take (d.create (i / 64) z) name i = some d') :
    Adds d name z i h₀ (d', es, .entry h i) where
  ends := .inr ⟨h, i, rfl⟩
  held := hes
  looks hn := nomatch hn
  taken h' j he := by
    cases he
    exact ⟨Nat.le_refl i, fun l hl hlt => absurd hlt (by omega), ht⟩
  full hn := nomatch hn

/-- In a block just made every entry can be taken. -/
theorem take_create (d : Dir) (name : List Nat) (z i : Nat) : ∃ d', take (d.create (i / 64) z) name i = some d' := by
  have hfree : ((d.create (i / 64) z).at i).inode = 0 := by
    simp [Dir.at, Dir.create, DirEntry.free]
  unfold take
  by_cases hend : (d.create (i / 64) z).size ≤ 16 * i
  · exact ⟨_, if_pos hend⟩
  · exact ⟨_, (if_neg hend).trans (if_pos hfree)⟩

/-- No block of the directory is unreadable, and where one is missing a new one can be made or nothing is behind it. -/
structure AddOk (ok : Nat → Bool) (d : Dir) (z : Nat) : Prop where
  size : d.size + 16 ≤ 1024 * maxBlock
  readable : ∀ b, d.zone b ≠ 0 → ok (d.zone b) = true
  room : z ≠ 0 ∨ ∀ b, 1024 * b < d.size → d.zone b ≠ 0
  first : d.zone 0 ≠ 0 ∨ d.size ≤ 1024

theorem addLoop_spec (hok : AddOk ok d z) (fuel : Nat) {i k b h : Nat} (n : Nat) (hik : i = 64 * b + k) (hk : k ≤ 64)
    (hb : d.zone b ≠ 0) (hi : 16 * i < d.size + 16) (hfuel : d.entries + 1 < i + fuel) :
    Adds d name z i h (addLoop ok name z fuel d i k (some h) n) := by
  have hentries : d.entries = d.size / 16 := rfl
  induction fuel generalizing i k b h n with
  | zero => omega
  | succ fuel ih =>
    rw [addLoop]
    by_cases hend : 64 ≤ k
    · have hdiv : i / 64 = b + 1 := by omega
      have hsize := hok.size
      rw [if_pos hend, if_neg (by omega)]
      split
      · rename_i hfull
        -- there is no block behind: `create_block` fails at the end of the directory
        have hlast : d.size ≤ 16 * i := by
          rcases hok.room with hz | hroom
          · exact absurd hfull.2 hz
          · refine Nat.not_lt.1 fun hlt => hroom (i / 64) (by omega) hfull.1
        refine ⟨.inl ⟨rfl, rfl⟩, by simp [Out.kept], fun _ j hj hlt => absurd hlt (by omega), fun h' j he => (nomatch he),
          fun _ => ⟨hfull.2, i, Nat.le_refl i, hfull.1, fun l hl hlt => absurd hlt (by omega)⟩⟩
      · rename_i hroom
        by_cases hnew : d.zone (i / 64) = 0
        · have hz : z ≠ 0 := fun hz => hroom ⟨hnew, hz⟩
          obtain ⟨d', ht⟩ := take_create d name z i
          simp only [hnew, not_true_eq_false, false_and, if_false, if_true, ht]
          exact .here (by simp) (.inr ⟨hnew, hz, ht⟩)
        · simp only [hnew, not_false_eq_true, true_and, if_false, hok.readable _ hnew, Bool.true_eq_false]
          split
          · rename_i d' ht
            exact .here (by simp) (.inl ⟨hnew, ht⟩)
          · rename_i ht
            have hlt := (take_size ht).1
            exact (ih (b := b + 1) (n + 1) (by omega) (by omega) (hdiv ▸ hnew) (by omega) (by omega)).step ht (by simp) (by simp)
    · rw [if_neg hend]
      have hdiv : i / 64 = b := by omega
      split
      · rename_i d' ht
        exact .here (by simp) (.inl ⟨hdiv ▸ hb, ht⟩)
      · rename_i ht
        have hlt := (take_size ht).1
        exact (ih (b := b) n (by omega) (by omega) hb (by omega) (by omega)).step ht (by simp) (by simp)

end Add

section Empty

variable {ok : Nat → Bool} {d : Dir} {len : Nat}

/-- What the loop of `empty_dir` comes to, from entry `nr` on with buffer `h`. -/
structure Empties (ok : Nat → Bool) (d : Dir) (len nr h : Nat) (r : Result) : Prop where
  ends : r.2 = .none ∨ r.2 = .empty
  held : held [h] r.1 = some []
  looks : (∃ j, 2 ≤ j ∧ .look j ∈ r.1 ∧ (d.at j).inode ≠ 0) ∨
    ∀ j, nr ≤ j → j < len → d.present ok (j / 64) → .look j ∈ r.1

theorem Empties.step {nr h : Nat} {r : Result} (hr : Empties ok d len (nr + 1) h r) {es : List Event} {h₀ : Nat}
    (hes : Scan.held [h₀] (es ++ r.1) = Scan.held [h] r.1) (hlook : .look nr ∈ es) :
    Empties ok d len nr h₀ (r.after es) where
  ends := hr.ends
  held := by
    rw [Result.after_fst, hes]
    exact hr.held
  looks := by
    rcases hr.looks with ⟨j, hj, hmem, hlive⟩ | hall
    · exact .inl ⟨j, hj, List.mem_append_right _ hmem, hlive⟩
    · refine .inr fun j hj hlt hp => ?_
      rcases Nat.eq_or_lt_of_le hj with e | hlt'
      · exact List.mem_append_left _ (e ▸ hlook)
      · exact List.mem_append_right _ (hall j hlt' hlt hp)

/-- The scan stops, and there is nothing more to look at. -/
theorem Empties.done {nr h : Nat} {out : Out} (hout : out = .none ∨ out = .empty)
    (hnone : ∀ j, nr ≤ j → j < len → ¬d.present ok (j / 64)) : Empties ok d len nr h ([.put h], out) :=
  ⟨hout, by rw [held_put, held_nil], .inr fun j hj hlt hp => absurd hp (hnone j hj hlt)⟩

theorem emptyLoop_spec (hlen : len ≤ 64 * maxBlock) (halloc : ∀ b, 64 * b < len → d.zone b ≠ 0)
    (hread : ∀ b, 64 * (b + 1) < len → ok (d.zone b) = true) (fuel : Nat) {nr k b h : Nat} (n : Nat) (hik : nr = 64 * b + k)
    (hk : k ≤ 64) (h2 : 2 ≤ nr) (hi : nr ≤ len) (hfuel : len < nr + fuel) :
    Empties ok d len nr h (emptyLoop ok d len fuel nr k h n) := by
  induction fuel generalizing nr k b h n with
  | zero => omega
  | succ fuel ih =>
    rw [emptyLoop]
    by_cases hlt : nr < len
    · rw [if_pos hlt]
      by_cases hend : 64 ≤ k
      · have hdiv : nr / 64 = b + 1 := by omega
        rw [if_pos hend, if_neg (by omega), if_neg (hdiv ▸ halloc (b + 1) (by omega))]
        split
        · rename_i hmiss
          have hlast : len ≤ nr + 64 := Nat.not_lt.1 fun hlt => by
            rw [hdiv, hread (b + 1) (by omega)] at hmiss
            cases hmiss
          refine .done (.inl rfl) fun j hj hlt hp => ?_
          rw [show j / 64 = nr / 64 by omega] at hp
          rw [hp.2] at hmiss
          cases hmiss
        · split
          · rename_i hlive
            exact ⟨.inl rfl, by simp, .inl ⟨nr, h2, by simp, hlive⟩⟩
          · exact (ih (b := b + 1) (n + 1) (by omega) (by omega) (by omega) (by omega) (by omega)).step (by simp) (by simp)
      · rw [if_neg hend]
        split
        · rename_i hlive
          exact ⟨.inl rfl, by simp, .inl ⟨nr, h2, by simp, hlive⟩⟩
        · exact (ih (b := b) n (by omega) (by omega) (by omega) (by omega) (by omega)).step (by simp) (by simp)
    · rw [if_neg hlt]
      exact .done (.inr rfl) fun j hj hlt' => absurd hlt' (by omega)

end Empty

/-! ## The scans survive -/

/-- What a scan of `d` is to do: it does not go through NULL, releases what it got but the buffer it returns, and looks at every
entry in the blocks that can be read, unless it stops `early`. -/
structure Survives (ok : Nat → Bool) (d : Dir) (r : Result) (early : Prop) : Prop where
  notNull : r.2 ≠ .null
  released : held [] r.1 = some r.2.kept
  looks : early ∨ ∀ i < d.entries, d.present ok (i / 64) → .look i ∈ r.1

/-- Only the last block of the directory that is scanned may be missing. -/
structure FindOk (ok : Nat → Bool) (d dir : Dir) (name : List Nat) : Prop where
  name : name ≠ []
  same : dir.entries = d.entries
  size : dir.size ≤ 1024 * maxBlock
  blocks : ∀ b, 1024 * (b + 1) < dir.size → dir.present ok b

/-- No block is missing, the last one may be unreadable, and the first two entries are what they should be. -/
structure EmptyOk (ok : Nat → Bool) (d : Dir) : Prop where
  two : 2 ≤ d.entries
  size : d.size ≤ 1024 * maxBlock
  allocated : ∀ b, 1024 * b < d.size → d.zone b ≠ 0
  readable : ∀ b, 1024 * (b + 1) < d.size → ok (d.zone b) = true
  dots : d.present ok 0 → dots d = true

section Survive

variable {ok : Nat → Bool} {d : Dir}

/-- A directory of one block that is not there. -/
theorem survives_none {early : Prop} (h0 : ¬d.present ok 0) (hone : ∀ i < d.entries, i / 64 = 0) :
    Survives ok d ([], .none) early :=
  ⟨nofun, rfl, .inr fun i hi hp => absurd (hone i hi ▸ hp) h0⟩

theorem findEntry_survives {root : Bool} {imount : Option Dir} {name : List Nat}
    (h : FindOk ok d (scanned d root imount (name.take nameLen)) name) :
    Survives ok (scanned d root imount (name.take nameLen)) (findEntry ok d root imount name)
      (∃ h i, (findEntry ok d root imount name).2 = .entry h i) := by
  have hname : name.take nameLen ≠ [] := by
    intro he
    rcases List.take_eq_nil_iff.1 he with h0 | h0
    · cases h0
    · exact h.name h0
  have hsame := h.same
  have hsize := h.size
  have hblocks := h.blocks
  generalize hdir : scanned d root imount (name.take nameLen) = dir at hsame hsize hblocks
  have hentries : dir.entries = dir.size / 16 := rfl
  simp only [findEntry, hdir]
  rw [if_neg hname]
  split
  · rename_i h0
    rw [Dir.not_present] at h0
    refine survives_none h0 fun i hi => ?_
    have hlast : dir.size ≤ 1024 := Nat.not_lt.1 fun hlt => h0 (hblocks 0 (by omega))
    omega
  · have hf : Finds ok dir d.entries (sought root (name.take nameLen)) 0 0 _ := findLoop_spec (by omega)
      (fun b hb => hblocks b (by omega)) (d.entries + 1) (k := 0) (b := 0) 1 (by omega) (by omega) (by omega)
      (by omega)
    refine ⟨fun he => ?_, hf.held, ?_⟩
    · rcases hf.ends with hn | ⟨h', i', hn⟩
      · exact nomatch hn.symm.trans he
      · exact nomatch hn.symm.trans he
    · rcases hf.ends with hn | hn
      · refine .inr fun i hi hp => ?_
        rcases hf.looks i (by omega) (by omega) hp with hl | ⟨h', i', he, _⟩
        · exact List.mem_cons_of_mem _ hl
        · exact nomatch hn.symm.trans he
      · exact .inl hn

theorem addEntry_survives {name : List Nat} {z : Nat} (hname : name ≠ []) (h : AddOk ok d z) :
    Survives ok d (addEntry ok d name z).2 (∃ h i, (addEntry ok d name z).2.2 = .entry h i) := by
  have hname : name.take nameLen ≠ [] := by
    intro he
    rcases List.take_eq_nil_iff.1 he with h0 | h0
    · cases h0
    · exact hname h0
  have hentries : d.entries = d.size / 16 := rfl
  simp only [addEntry]
  rw [if_neg hname]
  split
  · rename_i h0
    have hz : d.zone 0 = 0 := h0.elim id fun hbad => Classical.byContradiction fun hz => by
      rw [h.readable 0 hz] at hbad
      cases hbad
    refine survives_none (fun hp => hp.1 hz) fun i hi => ?_
    rcases h.first with hne | hsmall
    · exact absurd hz hne
    · omega
  · rename_i h0
    have hz : d.zone 0 ≠ 0 := fun hz => h0 (.inl hz)
    have ha : Adds d (name.take nameLen) z 0 0 _ := addLoop_spec h (d.entries + 2) (k := 0) (b := 0) 1 (by omega)
      (by omega) hz (by omega) (by omega)
    refine ⟨fun he => ?_, ha.held, ?_⟩
    · rcases ha.ends with ⟨hn, _⟩ | ⟨h', i', hn⟩
      · exact nomatch hn.symm.trans he
      · exact nomatch hn.symm.trans he
    · rcases ha.ends with ⟨hn, _⟩ | hn
      · exact .inr fun i hi hp => List.mem_cons_of_mem _ (ha.looks hn i (by omega) hi hp.1)
      · exact .inl hn

theorem emptyDir_survives (h : EmptyOk ok d) :
    Survives ok d (emptyDir ok d) (∃ i, 2 ≤ i ∧ .look i ∈ (emptyDir ok d).1 ∧ (d.at i).inode ≠ 0) := by
  have hentries : d.entries = d.size / 16 := rfl
  have htwo := h.two
  have hsize := h.size
  unfold emptyDir
  split
  · rename_i h0
    have h0 : ¬d.present ok 0 := Dir.not_present.1 (h0.resolve_left (by omega))
    have hlast : d.size ≤ 1024 := Nat.not_lt.1 fun hlt => h0 ⟨h.allocated 0 (by omega), h.readable 0 (by omega)⟩
    exact survives_none h0 fun i hi => by omega
  · rename_i h0
    have hp : d.present ok 0 := Classical.byContradiction fun hp => h0 (.inr (Dir.not_present.2 hp))
    rw [h.dots hp, Bool.not_true, if_neg Bool.false_ne_true]
    have he : Empties ok d d.entries 2 0 _ := emptyLoop_spec (by omega) (fun b hb => h.allocated b (by omega))
      (fun b hb => h.readable b (by omega)) (d.entries + 1) (k := 2) (b := 0) 1 (by omega) (by omega) (by omega)
      (by omega) (by omega)
    refine ⟨fun hn => ?_, ?_, ?_⟩
    · rcases he.ends with hn' | hn'
      · exact nomatch hn'.symm.trans hn
      · exact nomatch hn'.symm.trans hn
    · have hkept : (emptyLoop ok d d.entries (d.entries + 1) 2 2 0 1).2.kept = [] := by
        rcases he.ends with hn' | hn' <;> rw [hn'] <;> rfl
      rw [Result.after_snd, hkept]
      exact he.held
    · rcases he.looks with ⟨j, hj, hmem, hlive⟩ | hall
      · exact .inl ⟨j, hj, List.mem_append_right _ hmem, hlive⟩
      · refine .inr fun i hi hp => ?_
        rcases Nat.lt_or_ge i 2 with hlt | hge
        · refine List.mem_append_left _ ?_
          have : i = 0 ∨ i = 1 := by omega
          rcases this with e | e <;> simp [e]
        · exact List.mem_append_right _ (hall i hge hi hp)

end Survive

/-- Three blocks, the second of them zone `z`, and in all entries but the first two inode `nr` as `x`. -/
def threeBlocks (z nr : Nat) : Dir where
  num := 1
  size := 3072
  zone b := if b = 1 then z else if b < 3 then b + 1 else 0
  entry z k :=
    if z = 1 ∧ k = 0 then { inode := 1, name := 46 :: List.replicate 13 0 }
    else if z = 1 ∧ k = 1 then { inode := 1, name := 46 :: 46 :: List.replicate 12 0 }
    else { inode := nr, name := 120 :: List.replicate 13 0 }

end Linux011.Fs.Scan
