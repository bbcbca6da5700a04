/-
The references the tasks hold, and the invariant of the kernel: the counts
of `mem_map` are exact in every state, with the pages lost by tasks that
died inside `copy_strings` counted apart.

`roots` reads the references off `task[]`. Every operation is shown to keep
`KInv`, and to leave the tables of the other tasks alone except for PAGE_RW
bits it clears (`Others`).
-/
import Linux011.Kernel.Task
import Linux011.Mm.Fault

namespace Linux011.Kernel

open Mm RefCount

/-- The directory a task has of its own. -/
def Task.dir (tk : Task) : Option Nat := if tk.cr3 = 0 then none else some tk.cr3

/-- The references of `task[]`; `lost` are the pages whose holder died. -/
def roots (task : Fin 64 → Option Task) (lost : Fin 4096 → Bool) : Roots where
  dir t := if t = 0 then none else (task t).bind Task.dir
  misc
    | .task t => if t = 0 then none else (task t).map Task.page
    | .arg t i => (task t).bind fun tk => tk.phase.pages i
    | .load t => (task t).bind fun tk => tk.load.map Prod.fst
    | .lost n => if lost n then some n.val else none
    | .hand => none
    | .page => none

/-- The live references: what the entries, `cr3`s, `task[]` and the system calls
under way name. -/
def State.refs (k : State) : Ref → Option Nat := target k.mem (roots k.task fun _ => false)

/-- Word `i` of the directory of task `u`, 0 if it has none of its own. -/
def State.dirEntry (k : State) (u : Fin 64) (i : Nat) : Nat := pde k.mem (roots k.task fun _ => false) u i

/-- Word `j` of the table at directory entry `i` of task `u`. -/
def State.tabEntry (k : State) (u : Fin 64) (i j : Nat) : Nat := pte k.mem (roots k.task fun _ => false) u i j

section roots

variable {task : Fin 64 → Option Task} {lost : Fin 4096 → Bool} {t : Fin 64} {tk tk' : Task}

@[simp] theorem roots_hand : (roots task lost).misc .hand = none := rfl
@[simp] theorem roots_page : (roots task lost).misc .page = none := rfl

theorem roots_dir (ht : t ≠ 0) (hk : task t = some tk) (hc : tk.cr3 ≠ 0) : (roots task lost).dir t = some tk.cr3 := by
  simp [roots, ht, hk, Task.dir, hc]

theorem roots_dir_none (hk : task t = none) : (roots task lost).dir t = none := by
  simp [roots, hk]

theorem roots_load (hk : task t = some tk) {n a : Nat} (hl : tk.load = some (n, a)) :
    (roots task lost).misc (.load t) = some n := by
  simp [roots, hk, hl]

theorem roots_arg (hk : task t = some tk) (i : Fin 32) : (roots task lost).misc (.arg t i) = tk.phase.pages i := by
  simp [roots, hk]

/-- A task that keeps its pages keeps the references. -/
theorem roots_congr (hk : task t = some tk) (hc : tk'.cr3 = tk.cr3) (hp : tk'.page = tk.page)
    (ha : tk'.phase.pages = tk.phase.pages) (hl : tk'.load.map Prod.fst = tk.load.map Prod.fst) :
    roots (Function.update task t (some tk')) lost = roots task lost := by
  ext1
  · funext u
    by_cases hu : u = t
    · subst hu; simp [roots, hk, Task.dir, hc]
    · simp [roots, hu]
  · funext x
    cases x with
    | task u => by_cases hu : u = t <;> simp_all [roots]
    | arg u i => by_cases hu : u = t <;> simp_all [roots]
    | load u => by_cases hu : u = t <;> simp_all [roots]
    | _ => rfl

/-- A task that reads a page in. -/
theorem roots_setLoad (hk : task t = some tk) (hc : tk'.cr3 = tk.cr3) (hp : tk'.page = tk.page)
    (ha : tk'.phase.pages = tk.phase.pages) :
    roots (Function.update task t (some tk')) lost =
      (roots task lost).setMisc (.load t) (tk'.load.map Prod.fst) := by
  ext1
  · funext u
    by_cases hu : u = t
    · subst hu; simp [roots, hk, Task.dir, hc]
    · simp [roots, hu]
  · funext x
    cases x with
    | task u => by_cases hu : u = t <;> simp_all [roots]
    | arg u i => by_cases hu : u = t <;> simp_all [roots]
    | load u => by_cases hu : u = t <;> simp_all [roots]
    | _ => simp [roots]

/-- A task that puts a page into `page[i]`. -/
theorem roots_setArg (hk : task t = some tk) (hc : tk'.cr3 = tk.cr3) (hp : tk'.page = tk.page)
    {i : Fin 32} {n : Option Nat} (ha : tk'.phase.pages = Function.update tk.phase.pages i n)
    (hl : tk'.load.map Prod.fst = tk.load.map Prod.fst) :
    roots (Function.update task t (some tk')) lost = (roots task lost).setMisc (.arg t i) n := by
  ext1
  · funext u
    by_cases hu : u = t
    · subst hu; simp [roots, hk, Task.dir, hc]
    · simp [roots, hu]
  · funext x
    cases x with
    | task u => by_cases hu : u = t <;> simp_all [roots]
    | load u => by_cases hu : u = t <;> simp_all [roots]
    | arg u i' =>
      by_cases hu : u = t
      · subst hu
        by_cases hi : i' = i
        · subst hi; simp [roots, ha]
        · simp [roots, ha, hi, hk]
      · simp [roots, hu]
    | _ => simp [roots]

/-- A new task with a directory. -/
theorem roots_new (ht : t ≠ 0) (hk : task t = none) (hc : tk.cr3 ≠ 0) (ha : ∀ i, tk.phase.pages i = none)
    (hl : tk.load = none) :
    roots (Function.update task t (some tk)) lost =
      ((roots task lost).setMisc (.task t) (some tk.page)).setDir t (some tk.cr3) := by
  ext1
  · funext u
    by_cases hu : u = t
    · subst hu; simp [roots, ht, Task.dir, hc]
    · simp [roots, hu]
  · funext x
    cases x with
    | task u => by_cases hu : u = t <;> simp_all [roots]
    | arg u i => by_cases hu : u = t <;> simp_all [roots]
    | load u => by_cases hu : u = t <;> simp_all [roots]
    | _ => simp [roots]

end roots

/-! ## What an operation leaves of the other tasks -/

/-- The tables of the tasks other than `t` are the same up to PAGE_RW bits
cleared, and the frames they map keep their words. -/
structure Others (s : Prop) (t : Fin 64) (m : Mem) (R : Roots) (m' : Mem) (R' : Roots) : Prop where
  low : m'.low = m.low
  high : m'.high = m.high
  tables : ∀ u i, u ≠ t → i < 768 → pde m' R' u i = pde m R u i
  entries : ∀ u i j, u ≠ t → i < 768 → j < 1024 → pte m' R' u i j = pte m R u i j ∨
    pte m' R' u i j = clearRw (pte m R u i j)
  data : s → ∀ u i j, u ≠ t → i < 768 → j < 1024 → Present (pte m R u i j) →
    m.Managed (frame (pte m R u i j)) → ∀ k, m'.word (frame (pte m R u i j)) k = m.word (frame (pte m R u i j)) k

/-- What holds of the kernel in every state. -/
structure KInv (s : Prop) (lost : Fin 4096 → Bool) (k : State) : Prop where
  mem : Inv s k.mem (roots k.task lost)
  /-- A live task has a directory, a dead one runs on `swapper_pg_dir`. -/
  own : ∀ t tk, t ≠ 0 → k.task t = some tk → (tk.cr3 ≠ 0 ↔ tk.phase.live)
  init : ∃ tk, k.task 0 = some tk ∧ tk.cr3 = 0 ∧ tk.load = none ∧ tk.phase.isUser
  limit : ∀ t tk, k.task t = some tk → tk.limit ≤ taskSize
  /-- The entry for a page being read in is still empty. -/
  load : ∀ t tk n a, k.task t = some tk → tk.load = some (n, a) →
    (tk.phase.touches ∧ a % 4096 = 0) ∧ Mem.dirIx a < 768 ∧
    ¬ Present (pte k.mem (roots k.task lost) t (Mem.dirIx a) (Mem.tabIx a))
  /-- A task that can call `execve` has a table that it gives up there. -/
  table : ∀ t tk, t ≠ 0 → k.task t = some tk → tk.phase.live → (∀ e p, tk.phase ≠ .building e p) →
    ∃ i, i < 768 ∧ Present (pde k.mem (roots k.task lost) t i)

end Linux011.Kernel
