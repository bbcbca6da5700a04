/-
The counts of `mem_map` over whole runs.

`mem_map` counts the live references exactly as long as no page is dropped
on the floor, and two places drop pages: a task that dies inside
`copy_strings` leaves `page[]` behind (it is a local array of `do_execve`),
and `change_ldt` ignores a `put_page` that fails. In the runs without these
the counts are exact, no operation panics, and a page without references is
free again. A fork that fails, in whichever allocation, leaves nothing at all.
-/
import Linux011.Kernel.Progress

namespace Linux011.Kernel

open Mm RefCount

variable {s : Prop} {lost : Fin 4096 → Bool} {k k' : State} {b : Boot} {file : Nat → Nat → Fin 256}

/-! ## Exact counts -/

/-- The operation drops no page: `change_ldt` has room for the stack's table, and
no task dies holding `page[]`. -/
def Leakless (k : State) (op : Op) : Prop :=
  op.StackRoom k ∧ ∀ k', State.Step k op k' → ¬ DiesHolding k k'

/-- In runs that drop no page, none is lost. -/
theorem leakless_inv (hr : Run.Reaches (Run.Under Leakless State.Step) (State.boot b file) k) :
    KInv False (fun _ => false) k := by
  refine hr.invariant (I := fun k => KInv False (fun _ => false) k) ?_ (boot_inv b file)
  rintro k op k' h ⟨⟨hroom, hdies⟩, hs⟩
  obtain ⟨k₁, t, lost', hk₁, hafter, hlost⟩ := (happens_of_exec hs).spec h False.elim
  cases hk₁
  have := hlost (.inr hroom) (hdies _ hs)
  exact this ▸ hafter.inv

/-- The bootstrap with all of 16 MB, and files of zeros. -/
def State.boot16 : State := State.boot ⟨256, 4096, fun _ _ => 0, by decide, by decide, by decide⟩ fun _ _ => 0

theorem refs_eq (lost : Fin 4096 → Bool) {r : Ref} (hr : ∀ n, r ≠ .misc (.lost n)) : k.refs r = target k.mem (roots k.task lost) r := by
  cases r with
  | misc x =>
    cases x with
    | lost n => exact absurd rfl (hr n)
    | _ => rfl
  | _ => rfl

/-- A page that was lost has count 1, and no reference. -/
theorem lost_page (h : KInv s lost k) {n : Fin 4096} (hn : lost n = true) :
    k.mem.map n = 1 ∧ ∀ r, k.refs r ≠ some n.val := by
  have hx : (roots k.task lost).misc (.lost n) = some n.val := by simp [roots, hn]
  refine ⟨h.mem.held_map hx, fun r hr => ?_⟩
  by_cases hl : ∃ n', r = .misc (.lost n')
  · obtain ⟨n', rfl⟩ := hl
    cases hr
  · have hne : ∀ n', r ≠ .misc (.lost n') := fun n' e => hl ⟨n', e⟩
    rw [refs_eq lost hne] at hr
    exact hne n (h.mem.held_only hx hr)

/-- The lost pages are the only other references. -/
theorem target_iff {r : Ref} {n : Nat} : target k.mem (roots k.task lost) r = some n ↔
    k.refs r = some n ∨ ∃ x : Fin 4096, r = .misc (.lost x) ∧ lost x = true ∧ x.val = n := by
  by_cases hr : ∃ x, r = .misc (.lost x)
  · obtain ⟨x, rfl⟩ := hr
    simp [State.refs, target, roots]
  · have hne : ∀ x, r ≠ .misc (.lost x) := fun x e => hr ⟨x, e⟩
    simp [refs_eq lost hne, hne]

theorem map_or_lost (h : KInv s lost k) {n : Nat} (hn : ¬ k.mem.Used n) :
    k.mem.map n = count k.refs n ∨ k.mem.map n = 1 ∧ count k.refs n = 0 := by
  rw [h.mem.used_iff, not_not] at hn
  by_cases hl : ∃ x : Fin 4096, lost x = true ∧ x.val = n
  · obtain ⟨x, hx, rfl⟩ := hl
    obtain ⟨hmap, hno⟩ := lost_page h hx
    exact .inr ⟨hmap, count_eq_zero.2 hno⟩
  · refine .inl ((h.mem.exact n hn).trans (count_congr fun r => target_iff.trans (or_iff_left ?_)))
    exact fun hx => hl (hx.imp fun _ hx => hx.2)

/-- What a failed fork of `cur` into slot `nr` leaves: everything as it was, but
for PAGE_RW bits of the parent, which a write fault sets again. -/
structure NoTrace (k : State) (cur nr : Fin 64) (tk : Task) (k' : State) : Prop where
  slot : k'.task nr = none
  task : k'.task = k.task
  map : k'.mem.map = k.mem.map
  fCount : k'.fCount = k.fCount
  iCount : k'.iCount = k.iCount
  file : k'.file = k.file
  dirs : ∀ u i, k'.dirEntry u i = k.dirEntry u i
  tables : ∀ u i j, u ≠ cur → i < 768 → j < 1024 → k'.tabEntry u i j = k.tabEntry u i j
  /-- The kernel's own tables, on which task 0 runs, are as they were but for
  the dirty bits of the processor. -/
  kernel : Marked k.mem k'.mem
  parent : ∀ i j, i < 768 → j < 1024 → k'.tabEntry cur i j = k.tabEntry cur i j ∨
    ¬ k.mem.Used (frame (k.tabEntry cur i j)) ∧ k'.tabEntry cur i j = clearRw (k.tabEntry cur i j) ∧
      -- Unshared before: the write fault stores the old entry, and nothing else.
      (k.mem.map (frame (k.tabEntry cur i j)) = 1 → ∀ a, Mem.dirIx a = i → Mem.tabIx a = j →
        k'.mem.doWpPage tk.cr3 a = some (k'.mem.set (frame (k'.dirEntry cur i)) j (k.tabEntry cur i j)))

theorem forkKeeps_map {cur : Fin 64} (h : KInv s lost k) (h' : KInv s lost k') (htask : k'.task = k.task)
    (hk : Inv.ForkKeeps s k.mem (roots k.task lost) cur k'.mem) : k'.mem.map = k.mem.map := by
  have htarget : target k'.mem (roots k.task lost) = target k.mem (roots k.task lost) := by
    funext r
    cases r with
    | pde t i => simp only [target, hk.pde]
    | pte t i j =>
      simp only [target]
      rcases hk.pte t i j i.2 j.2 with e | ⟨-, -, e⟩ <;> rw [e]
      simp
    | _ => rfl
  funext n
  by_cases hM : k.mem.Managed n
  · rw [h.mem.exact n hM, h'.mem.exact n ((Inv.managed_congr hk.low hk.high n).2 hM), htask, htarget]
  · rw [h.mem.map_used n hM, h'.mem.map_used n fun e => hM ((Inv.managed_congr hk.low hk.high n).1 e)]

/-- The bootstrap with nothing left for the allocator. -/
def State.bootFull : State := State.boot ⟨256, 256, fun _ _ => 0, by decide, by decide, by decide⟩ fun _ _ => 0

end Linux011.Kernel
