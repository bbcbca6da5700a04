/-
Pipes: `read_pipe` and `write_pipe` on one page, used as a ring.

Both take a chunk by moving TAIL or HEAD, and then copy the chunk's bytes to or from
the user. A byte of the copy may fault, and the task then sleeps until its page
has been loaded, with the pointer moved and the bytes not yet there. So another
task may take bytes that nobody has stored, or store over bytes that somebody has
still to take. As long as no chunk is begun on places that a task of the other
side is still copying, the bytes come out as they went in.
-/
import Linux011.Lib.Run
import Mathlib.Logic.Function.Basic
import Mathlib.Data.List.Basic
import Mathlib.Tactic.Common

namespace Linux011.Fs.Pipe

/-- A chunk that a task still has to copy: where the rest begins on the page, how
many bytes it has, and where it begins in all that has gone through the pipe (this
last is not in the machine). -/
structure Chunk where
  pos : Nat
  left : Nat
  idx : Nat
  deriving DecidableEq

/-- Where a task is: outside, at the head of the loop of `read_pipe` or `write_pipe` with
`count` bytes to go (it may sleep there), or copying. -/
inductive Frame
  | user
  | reading (count : Nat)
  | writing (count : Nat)
  | copyOut (count : Nat) (c : Chunk)
  | copyIn (count : Nat) (c : Chunk)
  deriving DecidableEq

/-- The chunk that a reader copies, and that a writer copies. -/
def Frame.out : Frame → Option Chunk
  | .copyOut _ c => some c
  | _ => none

def Frame.inn : Frame → Option Chunk
  | .copyIn _ c => some c
  | _ => none

/-- A pipe and the tasks that use it. `put` and `taken` are all the bytes put in and taken out, in the order in which HEAD
and TAIL were moved over them, `none` for a byte not yet copied; they are not in the machine. -/
structure Sys (T β : Type*) where
  head : Nat
  tail : Nat
  page : Nat → β
  frame : T → Frame
  put : List (Option β)
  taken : List (Option β)

inductive Op (T β : Type*)
  | callRead (t : T) (count : Nat)
  | callWrite (t : T) (count : Nat)
  /-- A turn of the loop of `read_pipe`, up to the first byte. -/
  | readPipe (t : T)
  | writePipe (t : T)
  /-- A reader's next byte, and a writer's, that has `v` in its memory. -/
  | putFsByte (t : T)
  | getFsByte (t : T) (v : β)
  | ret (t : T)

variable {T β : Type*}

namespace Sys

/-- `PIPE_SIZE`. -/
def size (s : Sys T β) : Nat := (s.head + 4096 - s.tail) % 4096

/-- The bytes a turn takes, and puts. -/
def readChars (s : Sys T β) (count : Nat) : Nat := min (min (4096 - s.tail) count) s.size
def writeChars (s : Sys T β) (count : Nat) : Nat := min (min (4096 - s.head) count) (4095 - s.size)

variable [DecidableEq T]

def setFrame (s : Sys T β) (t : T) (f : Frame) : Sys T β := { s with frame := Function.update s.frame t f }

/-- The reader takes its chunk. -/
def take (s : Sys T β) (t : T) (count : Nat) : Sys T β :=
  let chars := s.readChars count
  { s.setFrame t (.copyOut (count - chars) ⟨s.tail, chars, s.taken.length⟩) with
    tail := (s.tail + chars) % 4096
    taken := s.taken ++ List.replicate chars none }

/-- The writer takes its chunk. -/
def give (s : Sys T β) (t : T) (count : Nat) : Sys T β :=
  let chars := s.writeChars count
  { s.setFrame t (.copyIn (count - chars) ⟨s.head, chars, s.put.length⟩) with
    head := (s.head + chars) % 4096
    put := s.put ++ List.replicate chars none }

/-- `put_fs_byte(page[size++], buf++)`. -/
def copyOut (s : Sys T β) (t : T) (count : Nat) (c : Chunk) : Sys T β :=
  { s.setFrame t (if c.left = 1 then .reading count else .copyOut count ⟨c.pos + 1, c.left - 1, c.idx + 1⟩) with
    taken := s.taken.set c.idx (some (s.page c.pos)) }

/-- `page[size++] = get_fs_byte(buf++)`. -/
def copyIn (s : Sys T β) (t : T) (count : Nat) (c : Chunk) (v : β) : Sys T β :=
  { s.setFrame t (if c.left = 1 then .writing count else .copyIn count ⟨c.pos + 1, c.left - 1, c.idx + 1⟩) with
    page := Function.update s.page c.pos v
    put := s.put.set c.idx (some v) }

end Sys

section Code

variable [DecidableEq T]

def step (s : Sys T β) : Op T β → Option (Sys T β)
  | .callRead t count => if s.frame t = .user then some (s.setFrame t (.reading count)) else none
  | .callWrite t count => if s.frame t = .user then some (s.setFrame t (.writing count)) else none
  | .readPipe t =>
    match s.frame t with
    | .reading count => if 0 < count ∧ s.size ≠ 0 then some (s.take t count) else none
    | _ => none
  | .writePipe t =>
    match s.frame t with
    | .writing count => if 0 < count ∧ 4095 - s.size ≠ 0 then some (s.give t count) else none
    | _ => none
  | .putFsByte t =>
    match s.frame t with
    | .copyOut count c => some (s.copyOut t count c)
    | _ => none
  | .getFsByte t v =>
    match s.frame t with
    | .copyIn count c => some (s.copyIn t count c v)
    | _ => none
  -- all is copied, or the pipe is empty and has no writer, or full and has no reader
  | .ret t =>
    match s.frame t with
    | .reading count => if count = 0 ∨ s.size = 0 then some (s.setFrame t .user) else none
    | .writing count => if count = 0 ∨ 4095 - s.size = 0 then some (s.setFrame t .user) else none
    | _ => none

end Code

/-- A new pipe (`get_pipe_inode`). -/
structure Sys.Start (s : Sys T β) : Prop where
  head : s.head = 0
  tail : s.tail = 0
  frame : ∀ t, s.frame t = .user
  put : s.put = []
  taken : s.taken = []

/-! ## What a step does -/

/-- The steps, each with what it found. -/
inductive Effect [DecidableEq T] (s : Sys T β) : Op T β → Sys T β → Prop
  | move {o t f} : (s.frame t).out = none → (s.frame t).inn = none → f.out = none → f.inn = none →
      Effect s o (s.setFrame t f)
  | take {t count} : s.frame t = .reading count → 0 < count → s.size ≠ 0 → Effect s (.readPipe t) (s.take t count)
  | give {t count} : s.frame t = .writing count → 0 < count → 4095 - s.size ≠ 0 → Effect s (.writePipe t) (s.give t count)
  | copyOut {t count c} : s.frame t = .copyOut count c → Effect s (.putFsByte t) (s.copyOut t count c)
  | copyIn {t count c v} : s.frame t = .copyIn count c → Effect s (.getFsByte t v) (s.copyIn t count c v)

variable [DecidableEq T] {s s' : Sys T β}

theorem Effect.of_step {o : Op T β} (h : step s o = some s') : Effect s o s' := by
  cases o with
  | callRead t count =>
    simp only [step] at h
    split at h
    · rename_i hf
      obtain rfl := Option.some.inj h
      exact .move (by rw [hf]; rfl) (by rw [hf]; rfl) rfl rfl
    · cases h
  | callWrite t count =>
    simp only [step] at h
    split at h
    · rename_i hf
      obtain rfl := Option.some.inj h
      exact .move (by rw [hf]; rfl) (by rw [hf]; rfl) rfl rfl
    · cases h
  | readPipe t =>
    simp only [step] at h
    split at h
    · rename_i count hf
      split at h
      · rename_i hg
        obtain rfl := Option.some.inj h
        exact .take hf hg.1 hg.2
      · cases h
    · cases h
  | writePipe t =>
    simp only [step] at h
    split at h
    · rename_i count hf
      split at h
      · rename_i hg
        obtain rfl := Option.some.inj h
        exact .give hf hg.1 hg.2
      · cases h
    · cases h
  | putFsByte t =>
    simp only [step] at h
    split at h
    · rename_i count c hf
      obtain rfl := Option.some.inj h
      exact .copyOut hf
    · cases h
  | getFsByte t v =>
    simp only [step] at h
    split at h
    · rename_i count c hf
      obtain rfl := Option.some.inj h
      exact .copyIn hf
    · cases h
  | ret t =>
    simp only [step] at h
    split at h
    · rename_i count hf
      split at h
      · obtain rfl := Option.some.inj h
        exact .move (by rw [hf]; rfl) (by rw [hf]; rfl) rfl rfl
      · cases h
    · rename_i count hf
      split at h
      · obtain rfl := Option.some.inj h
        exact .move (by rw [hf]; rfl) (by rw [hf]; rfl) rfl rfl
      · cases h
    · cases h

/-- HEAD and TAIL stay on the page, whatever the schedule. -/
theorem on_page {s₀ : Sys T β} (h₀ : s₀.Start) (h : Run.Reaches (Run.Fires step) s₀ s) : s.head < 4096 ∧ s.tail < 4096 := by
  refine h.invariant (I := fun s => s.head < 4096 ∧ s.tail < 4096) (fun s o s' hs hst => ?_) ?_
  · cases Effect.of_step hst with
    | take => exact ⟨hs.1, Nat.mod_lt _ (by decide)⟩
    | give => exact ⟨Nat.mod_lt _ (by decide), hs.2⟩
    | _ => exact hs
  · rw [h₀.head, h₀.tail]
    decide

/-! ## The invariant -/

/-- A byte that a reader, or a writer, has still to copy. -/
def Sys.Reading (s : Sys T β) (k : Nat) : Prop := ∃ t c, (s.frame t).out = some c ∧ c.idx ≤ k ∧ k < c.idx + c.left
def Sys.Writing (s : Sys T β) (k : Nat) : Prop := ∃ t c, (s.frame t).inn = some c ∧ c.idx ≤ k ∧ k < c.idx + c.left

/-- A chunk lies on the page in one piece. -/
structure Chunk.Ok (c : Chunk) : Prop where
  pos : c.pos = c.idx % 4096
  fits : c.pos + c.left ≤ 4096
  more : 0 < c.left

structure Inv (s : Sys T β) : Prop where
  head : s.head = s.put.length % 4096
  tail : s.tail = s.taken.length % 4096
  le : s.taken.length ≤ s.put.length
  room : s.put.length ≤ s.taken.length + 4095
  out : ∀ t c, (s.frame t).out = some c → c.Ok ∧ c.idx + c.left ≤ s.taken.length ∧ s.put.length ≤ c.idx + 4096
  inn : ∀ t c, (s.frame t).inn = some c → c.Ok ∧ c.idx + c.left ≤ s.put.length ∧ s.taken.length ≤ c.idx
  apart : ∀ t u c c', (s.frame t).inn = some c → (s.frame u).inn = some c' → t ≠ u →
    c.idx + c.left ≤ c'.idx ∨ c'.idx + c'.left ≤ c.idx
  -- what is put in and not yet copied, a writer copies; what is taken out likewise
  hole : ∀ k : Nat, s.put[k]? = some none → s.Writing k
  gap : ∀ k : Nat, s.taken[k]? = some none → s.Reading k
  -- what is still to be read is stored, and the page has it
  stored : ∀ k, s.Reading k → s.put[k]? ≠ some none
  page : ∀ (k : Nat) v, s.put[k]? = some (some v) → s.taken.length ≤ k ∨ s.Reading k → s.page (k % 4096) = v
  same : ∀ (k : Nat) v, s.taken[k]? = some (some v) → s.put[k]? = some (some v)

omit [DecidableEq T] in
theorem Inv.start (h : s.Start) : Inv s where
  head := by rw [h.head, h.put]; rfl
  tail := by rw [h.tail, h.taken]; rfl
  le := by simp [h.put, h.taken]
  room := by simp [h.put]
  out t c hc := by rw [h.frame t] at hc; cases hc
  inn t c hc := by rw [h.frame t] at hc; cases hc
  apart t u c c' hc := by rw [h.frame t] at hc; cases hc
  hole k hk := by rw [h.put] at hk; cases hk
  gap k hk := by rw [h.taken] at hk; cases hk
  stored k hk := by
    obtain ⟨t, c, hc, -⟩ := hk
    rw [h.frame t] at hc
    cases hc
  page k v hk := by rw [h.put] at hk; cases hk
  same k v hk := by rw [h.taken] at hk; cases hk

omit [DecidableEq T] in
theorem Inv.size (h : Inv s) : s.size = s.put.length - s.taken.length := by
  have h1 := h.head
  have h2 := h.tail
  have h3 := h.le
  have h4 := h.room
  unfold Sys.size
  omega

/-! ## Frames -/

section Frames

theorem setFrame_out {t : T} {f : Frame} {u : T} :
    ((s.setFrame t f).frame u).out = if u = t then f.out else (s.frame u).out := by
  simp only [Sys.setFrame, Function.update_apply]
  split <;> rfl

theorem setFrame_inn {t : T} {f : Frame} {u : T} :
    ((s.setFrame t f).frame u).inn = if u = t then f.inn else (s.frame u).inn := by
  simp only [Sys.setFrame, Function.update_apply]
  split <;> rfl

/-- A task that is not copying takes nothing away and adds what it begins. -/
theorem reading_setFrame {t : T} {f : Frame} (ht : (s.frame t).out = none) {k : Nat} :
    (s.setFrame t f).Reading k ↔ s.Reading k ∨ ∃ c, f.out = some c ∧ c.idx ≤ k ∧ k < c.idx + c.left := by
  constructor
  · intro h
    obtain ⟨u, c, hc, hk⟩ := h
    rw [setFrame_out] at hc
    split at hc
    · exact .inr ⟨c, hc, hk⟩
    · exact .inl ⟨u, c, hc, hk⟩
  · intro h
    rcases h with ⟨u, c, hc, hk⟩ | ⟨c, hc, hk⟩
    · refine ⟨u, c, ?_, hk⟩
      rw [setFrame_out, if_neg]
      · exact hc
      · intro e
        rw [e, ht] at hc
        cases hc
    · exact ⟨t, c, by rw [setFrame_out, if_pos rfl]; exact hc, hk⟩

theorem writing_setFrame {t : T} {f : Frame} (ht : (s.frame t).inn = none) {k : Nat} :
    (s.setFrame t f).Writing k ↔ s.Writing k ∨ ∃ c, f.inn = some c ∧ c.idx ≤ k ∧ k < c.idx + c.left := by
  constructor
  · intro h
    obtain ⟨u, c, hc, hk⟩ := h
    rw [setFrame_inn] at hc
    split at hc
    · exact .inr ⟨c, hc, hk⟩
    · exact .inl ⟨u, c, hc, hk⟩
  · intro h
    rcases h with ⟨u, c, hc, hk⟩ | ⟨c, hc, hk⟩
    · refine ⟨u, c, ?_, hk⟩
      rw [setFrame_inn, if_neg]
      · exact hc
      · intro e
        rw [e, ht] at hc
        cases hc
    · exact ⟨t, c, by rw [setFrame_inn, if_pos rfl]; exact hc, hk⟩

end Frames

/-- The task is not copying, before or after. -/
theorem Inv.move (h : Inv s) {t : T} {f : Frame} (hout : (s.frame t).out = none) (hinn : (s.frame t).inn = none)
    (hfo : f.out = none) (hfi : f.inn = none) : Inv (s.setFrame t f) := by
  have hreading : ∀ k, (s.setFrame t f).Reading k ↔ s.Reading k := by
    intro k
    simp [reading_setFrame hout, hfo]
  have hwriting : ∀ k, (s.setFrame t f).Writing k ↔ s.Writing k := by
    intro k
    simp [writing_setFrame hinn, hfi]
  have ho : ∀ u, ((s.setFrame t f).frame u).out = (s.frame u).out := by
    intro u
    rw [setFrame_out]
    split
    · rename_i e
      rw [e, hout, hfo]
    · rfl
  have hi : ∀ u, ((s.setFrame t f).frame u).inn = (s.frame u).inn := by
    intro u
    rw [setFrame_inn]
    split
    · rename_i e
      rw [e, hinn, hfi]
    · rfl
  exact {
    head := h.head, tail := h.tail, le := h.le, room := h.room, same := h.same
    out := fun u c hc => h.out u c (ho u ▸ hc)
    inn := fun u c hc => h.inn u c (hi u ▸ hc)
    apart := fun u v c c' hc hc' hne => h.apart u v c c' (hi u ▸ hc) (hi v ▸ hc') hne
    hole := fun k hk => (hwriting k).2 (h.hole k hk)
    gap := fun k hk => (hreading k).2 (h.gap k hk)
    stored := fun k hk => h.stored k ((hreading k).1 hk)
    page := fun k v hk hr => h.page k v hk (hr.imp_right (hreading k).1) }

/-- A chunk is begun apart from those that tasks of the other side are copying. -/
def beginsApart (s : Sys T β) : Op T β → Prop
  | .readPipe t => ∀ count u c, s.frame t = .reading count → (s.frame u).inn = some c →
      s.tail + s.readChars count ≤ c.pos ∨ c.pos + c.left ≤ s.tail
  | .writePipe t => ∀ count u c, s.frame t = .writing count → (s.frame u).out = some c →
      s.head + s.writeChars count ≤ c.pos ∨ c.pos + c.left ≤ s.head
  | _ => True

theorem getElem?_replicate_append {l : List (Option β)} {n k : Nat} {x : Option β}
    (h : (l ++ List.replicate n none)[k]? = some x) :
    l[k]? = some x ∨ (l.length ≤ k ∧ k < l.length + n ∧ x = none) := by
  by_cases hk : k < l.length
  · rw [List.getElem?_append_left hk] at h
    exact .inl h
  · rw [List.getElem?_append_right (by omega), List.getElem?_replicate] at h
    split at h
    · exact .inr ⟨by omega, by omega, (Option.some.inj h).symm⟩
    · cases h

/-- A reader takes a chunk that no writer is copying. -/
theorem Inv.take (h : Inv s) {t : T} {count : Nat} (hf : s.frame t = .reading count) (hc : 0 < count) (hs : s.size ≠ 0)
    (ho : ∀ u c, (s.frame u).inn = some c → s.tail + s.readChars count ≤ c.pos ∨ c.pos + c.left ≤ s.tail) :
    Inv (s.take t count) := by
  have hout : (s.frame t).out = none := by rw [hf]; rfl
  have hinn : (s.frame t).inn = none := by rw [hf]; rfl
  have hsize := h.size
  have htail := h.tail
  have hle := h.le
  have hroom := h.room
  have hchars : s.readChars count ≤ s.size ∧ s.tail + s.readChars count ≤ 4096 ∧ 0 < s.readChars count := by
    unfold Sys.readChars
    omega
  obtain ⟨hle', hfit, hpos⟩ := hchars
  -- the writers are behind the chunk
  have hafter : ∀ u c, (s.frame u).inn = some c → s.taken.length + s.readChars count ≤ c.idx := by
    intro u c hu
    obtain ⟨⟨h1, h2, h3⟩, h4, h5⟩ := h.inn u c hu
    rcases ho u c hu with h6 | h6 <;> omega
  have hlen : (s.take t count).taken.length = s.taken.length + s.readChars count := by simp [Sys.take]
  have hreading : ∀ k, (s.take t count).Reading k ↔
      s.Reading k ∨ (s.taken.length ≤ k ∧ k < s.taken.length + s.readChars count) := by
    intro k
    refine (reading_setFrame hout).trans (or_congr_right ⟨fun hk => ?_, fun hk => ⟨_, rfl, hk⟩⟩)
    obtain ⟨c, hc, hk⟩ := hk
    obtain rfl := Option.some.inj hc
    exact hk
  have hwriting : ∀ k, (s.take t count).Writing k ↔ s.Writing k := by
    intro k
    refine (writing_setFrame hinn).trans (or_iff_left fun hk => ?_)
    obtain ⟨c, hc, -⟩ := hk
    cases hc
  have hi : ∀ u c, ((s.take t count).frame u).inn = some c → (s.frame u).inn = some c := by
    intro u c hu
    rw [show ((s.take t count).frame u).inn = _ from setFrame_inn] at hu
    split at hu
    · cases hu
    · exact hu
  exact {
    head := h.head
    tail := by
      rw [hlen]
      simp only [Sys.take]
      omega
    le := by
      rw [hlen]
      exact (show s.taken.length + s.readChars count ≤ s.put.length by omega)
    room := by
      rw [hlen]
      exact (show s.put.length ≤ s.taken.length + s.readChars count + 4095 by omega)
    out := by
      intro u c hu
      rw [show ((s.take t count).frame u).out = _ from setFrame_out] at hu
      rw [hlen]
      split at hu
      · obtain rfl := Option.some.inj hu
        exact ⟨⟨htail, hfit, hpos⟩, Nat.le_refl _, (show s.put.length ≤ s.taken.length + 4096 by omega)⟩
      · obtain ⟨h1, h2, h3⟩ := h.out u c hu
        exact ⟨h1, by omega, h3⟩
    inn := by
      intro u c hu
      have hu := hi u c hu
      obtain ⟨h1, h2, -⟩ := h.inn u c hu
      rw [hlen]
      exact ⟨h1, h2, hafter u c hu⟩
    apart := fun u v c c' hu hv hne => h.apart u v c c' (hi u c hu) (hi v c' hv) hne
    hole := fun k hk => (hwriting k).2 (h.hole k hk)
    gap := by
      intro k hk
      rw [hreading]
      rcases getElem?_replicate_append hk with hk | ⟨h1, h2, -⟩
      · exact .inl (h.gap k hk)
      · exact .inr ⟨h1, h2⟩
    stored := by
      intro k hk hn
      rcases (hreading k).1 hk with hk | hk
      · exact h.stored k hk hn
      · obtain ⟨u, c, hu, h1, -⟩ := h.hole k hn
        have := hafter u c hu
        omega
    page := by
      intro k v hk hr
      refine h.page k v hk ?_
      rcases hr with hr | hr
      · rw [hlen] at hr
        exact .inl (by omega)
      · rcases (hreading k).1 hr with hr | hr
        · exact .inr hr
        · exact .inl hr.1
    same := by
      intro k v hk
      rcases getElem?_replicate_append hk with hk | ⟨-, -, hn⟩
      · exact h.same k v hk
      · cases hn }

/-- A writer takes a chunk that no reader is copying. -/
theorem Inv.give (h : Inv s) {t : T} {count : Nat} (hf : s.frame t = .writing count) (hc : 0 < count)
    (hs : 4095 - s.size ≠ 0)
    (ho : ∀ u c, (s.frame u).out = some c → s.head + s.writeChars count ≤ c.pos ∨ c.pos + c.left ≤ s.head) :
    Inv (s.give t count) := by
  have hout : (s.frame t).out = none := by rw [hf]; rfl
  have hinn : (s.frame t).inn = none := by rw [hf]; rfl
  have hsize := h.size
  have hhead := h.head
  have hle := h.le
  have hroom := h.room
  have hchars : s.writeChars count ≤ 4095 - s.size ∧ s.head + s.writeChars count ≤ 4096 ∧ 0 < s.writeChars count := by
    unfold Sys.writeChars
    omega
  obtain ⟨hle', hfit, hpos⟩ := hchars
  -- the chunk does not come round to what readers are copying
  have hbefore : ∀ u c, (s.frame u).out = some c → s.put.length + s.writeChars count ≤ c.idx + 4096 := by
    intro u c hu
    obtain ⟨⟨h1, h2, h3⟩, h4, h5⟩ := h.out u c hu
    rcases ho u c hu with h6 | h6 <;> omega
  have hlen : (s.give t count).put.length = s.put.length + s.writeChars count := by simp [Sys.give]
  have hold : ∀ (k : Nat) x, s.put[k]? = some x → (s.give t count).put[k]? = some x := by
    intro k x hk
    have hlt : k < s.put.length := (List.getElem?_eq_some_iff.1 hk).1
    simp only [Sys.give]
    rw [List.getElem?_append_left hlt]
    exact hk
  have hwriting : ∀ k, (s.give t count).Writing k ↔
      s.Writing k ∨ (s.put.length ≤ k ∧ k < s.put.length + s.writeChars count) := by
    intro k
    refine (writing_setFrame hinn).trans (or_congr_right ⟨fun hk => ?_, fun hk => ⟨_, rfl, hk⟩⟩)
    obtain ⟨c, hc, hk⟩ := hk
    obtain rfl := Option.some.inj hc
    exact hk
  have hreading : ∀ k, (s.give t count).Reading k ↔ s.Reading k := by
    intro k
    refine (reading_setFrame hout).trans (or_iff_left fun hk => ?_)
    obtain ⟨c, hc, -⟩ := hk
    cases hc
  have hi : ∀ u c, ((s.give t count).frame u).inn = some c →
      (s.frame u).inn = some c ∨ (u = t ∧ c = ⟨s.head, s.writeChars count, s.put.length⟩) := by
    intro u c hu
    rw [show ((s.give t count).frame u).inn = _ from setFrame_inn] at hu
    split at hu
    · rename_i e
      exact .inr ⟨e, (Option.some.inj hu).symm⟩
    · exact .inl hu
  exact {
    head := by
      rw [hlen]
      simp only [Sys.give]
      omega
    tail := h.tail
    le := by
      rw [hlen]
      exact (show s.taken.length ≤ s.put.length + s.writeChars count by omega)
    room := by
      rw [hlen]
      exact (show s.put.length + s.writeChars count ≤ s.taken.length + 4095 by omega)
    out := by
      intro u c hu
      rw [show ((s.give t count).frame u).out = _ from setFrame_out] at hu
      rw [hlen]
      split at hu
      · cases hu
      · obtain ⟨h1, h2, -⟩ := h.out u c hu
        exact ⟨h1, h2, hbefore u c hu⟩
    inn := by
      intro u c hu
      rw [hlen]
      rcases hi u c hu with hu | ⟨-, rfl⟩
      · obtain ⟨h1, h2, h3⟩ := h.inn u c hu
        exact ⟨h1, by omega, h3⟩
      · exact ⟨⟨hhead, hfit, hpos⟩, Nat.le_refl _, hle⟩
    apart := by
      intro u v c c' hu hv hne
      rcases hi u c hu with hu₀ | ⟨hut, hc₀⟩
      · rcases hi v c' hv with hv₀ | ⟨-, hc₀⟩
        · exact h.apart u v c c' hu₀ hv₀ hne
        · exact .inl (hc₀ ▸ (h.inn u c hu₀).2.1)
      · rcases hi v c' hv with hv₀ | ⟨hvt, -⟩
        · exact .inr (hc₀ ▸ (h.inn v c' hv₀).2.1)
        · exact absurd (hut.trans hvt.symm) hne
    hole := by
      intro k hk
      rw [hwriting]
      rcases getElem?_replicate_append hk with hk | ⟨h1, h2, -⟩
      · exact .inl (h.hole k hk)
      · exact .inr ⟨h1, h2⟩
    gap := fun k hk => (hreading k).2 (h.gap k hk)
    stored := by
      intro k hk hn
      have hk := (hreading k).1 hk
      rcases getElem?_replicate_append hn with hn | ⟨h1, -, -⟩
      · exact h.stored k hk hn
      · obtain ⟨u, c, hu, -, h2⟩ := hk
        have := (h.out u c hu).2.1
        omega
    page := by
      intro k v hk hr
      rcases getElem?_replicate_append hk with hk | ⟨-, -, hn⟩
      · exact h.page k v hk (hr.imp_right (hreading k).1)
      · cases hn
    same := fun k v hk => hold k _ (h.same k v hk) }

/-! ## One byte -/

/-- The chunk without its first byte. -/
def Chunk.next (c : Chunk) : Option Chunk := if c.left = 1 then none else some ⟨c.pos + 1, c.left - 1, c.idx + 1⟩

theorem Chunk.Ok.next_some {c c' : Chunk} (hc : c.Ok) (h : c.next = some c') :
    c'.Ok ∧ c'.idx = c.idx + 1 ∧ c'.idx + c'.left = c.idx + c.left := by
  have h1 := hc.pos
  have h2 := hc.fits
  have h3 := hc.more
  unfold Chunk.next at h
  split at h
  · cases h
  · obtain rfl := Option.some.inj h
    refine ⟨⟨?_, ?_, ?_⟩, rfl, ?_⟩ <;> simp only <;> omega

theorem Chunk.mem_next {c : Chunk} {k : Nat} (h1 : c.idx ≤ k) (h2 : k < c.idx + c.left) (hne : k ≠ c.idx) :
    ∃ c', c.next = some c' ∧ c'.idx ≤ k ∧ k < c'.idx + c'.left := by
  unfold Chunk.next
  rw [if_neg (by omega)]
  exact ⟨_, rfl, (show c.idx + 1 ≤ k by omega), (show k < c.idx + 1 + (c.left - 1) by omega)⟩

theorem out_next (count : Nat) (c : Chunk) :
    (if c.left = 1 then Frame.reading count else .copyOut count ⟨c.pos + 1, c.left - 1, c.idx + 1⟩).out = c.next := by
  unfold Chunk.next
  split <;> rfl

theorem inn_next (count : Nat) (c : Chunk) :
    (if c.left = 1 then Frame.writing count else .copyIn count ⟨c.pos + 1, c.left - 1, c.idx + 1⟩).inn = c.next := by
  unfold Chunk.next
  split <;> rfl

/-- A reader takes a byte. -/
theorem Inv.copyOut (h : Inv s) {t : T} {count : Nat} {c : Chunk} (hf : s.frame t = .copyOut count c) :
    Inv (s.copyOut t count c) := by
  have hout : (s.frame t).out = some c := by rw [hf]; rfl
  obtain ⟨hok, hidx, hH⟩ := h.out t c hout
  have hlen : (s.copyOut t count c).taken.length = s.taken.length := by simp [Sys.copyOut]
  have ho : ∀ u, ((s.copyOut t count c).frame u).out = if u = t then c.next else (s.frame u).out := by
    intro u
    refine setFrame_out.trans ?_
    rw [out_next]
  have hi : ∀ u, ((s.copyOut t count c).frame u).inn = (s.frame u).inn := by
    intro u
    refine setFrame_inn.trans ?_
    split
    · rename_i e
      rw [e, hf]
      split <;> rfl
    · rfl
  have hwriting : ∀ k, (s.copyOut t count c).Writing k ↔ s.Writing k := by
    intro k
    simp only [Sys.Writing, hi]
  have hsub : ∀ k, (s.copyOut t count c).Reading k → s.Reading k := by
    intro k hk
    obtain ⟨u, c', hu, h1, h2⟩ := hk
    rw [ho] at hu
    split at hu
    · obtain ⟨-, h3, h4⟩ := hok.next_some hu
      exact ⟨t, c, hout, by omega, by omega⟩
    · exact ⟨u, c', hu, h1, h2⟩
  have hkeep : ∀ k, s.Reading k → k ≠ c.idx → (s.copyOut t count c).Reading k := by
    intro k hk hne
    obtain ⟨u, c', hu, h1, h2⟩ := hk
    by_cases hut : u = t
    · subst hut
      obtain rfl := Option.some.inj (hout.symm.trans hu)
      obtain ⟨c₁, hc₁, h3⟩ := Chunk.mem_next h1 h2 hne
      exact ⟨u, c₁, by rw [ho, if_pos rfl]; exact hc₁, h3⟩
    · exact ⟨u, c', by rw [ho, if_neg hut]; exact hu, h1, h2⟩
  exact {
    head := h.head
    tail := by rw [hlen]; exact h.tail
    le := by rw [hlen]; exact h.le
    room := by rw [hlen]; exact h.room
    out := by
      intro u c' hu
      rw [ho] at hu
      rw [hlen]
      split at hu
      · obtain ⟨h1, h2, h3⟩ := hok.next_some hu
        exact ⟨h1, by omega, (show s.put.length ≤ c'.idx + 4096 by omega)⟩
      · exact h.out u c' hu
    inn := by
      intro u c' hu
      rw [hlen]
      exact h.inn u c' (hi u ▸ hu)
    apart := fun u v c₁ c₂ hu hv hne => h.apart u v c₁ c₂ (hi u ▸ hu) (hi v ▸ hv) hne
    hole := fun k hk => (hwriting k).2 (h.hole k hk)
    gap := by
      intro k hk
      simp only [Sys.copyOut, List.getElem?_set] at hk
      split at hk
      · split at hk <;> cases hk
      · rename_i hne
        exact hkeep k (h.gap k hk) (Ne.symm hne)
    stored := fun k hk => h.stored k (hsub k hk)
    page := by
      intro k v hk hr
      rw [hlen] at hr
      exact h.page k v hk (hr.imp_right (hsub k))
    same := by
      intro k v hk
      simp only [Sys.copyOut, List.getElem?_set] at hk
      split at hk
      · rename_i e
        subst e
        split at hk
        · obtain rfl := Option.some.inj (Option.some.inj hk)
          have hr : s.Reading c.idx := ⟨t, c, hout, Nat.le_refl _, by have := hok.more; omega⟩
          have hlt : c.idx < s.put.length := by
            have h1 := h.le
            have h2 := hok.more
            omega
          have hst := h.stored _ hr
          have hput := List.getElem?_eq_getElem hlt
          cases hx : s.put[c.idx] with
          | none =>
            rw [hx] at hput
            exact absurd hput hst
          | some w =>
            rw [hx] at hput
            rw [← h.page _ w hput (.inr hr), ← hok.pos] at hput
            exact hput
        · cases hk
      · exact h.same k v hk }

/-- A writer stores a byte. -/
theorem Inv.copyIn (h : Inv s) {t : T} {count : Nat} {c : Chunk} (hf : s.frame t = .copyIn count c) (v : β) :
    Inv (s.copyIn t count c v) := by
  have hinn : (s.frame t).inn = some c := by rw [hf]; rfl
  obtain ⟨hok, hidx, hT⟩ := h.inn t c hinn
  have hpos := hok.more
  have hle := h.le
  have hroom := h.room
  have hlen : (s.copyIn t count c v).put.length = s.put.length := by simp [Sys.copyIn]
  have hput : ∀ k : Nat, (s.copyIn t count c v).put[k]? = if c.idx = k then some (some v) else s.put[k]? := by
    intro k
    simp only [Sys.copyIn, List.getElem?_set]
    split
    · rw [if_pos (by omega)]
    · rfl
  have ho : ∀ u, ((s.copyIn t count c v).frame u).out = (s.frame u).out := by
    intro u
    refine setFrame_out.trans ?_
    split
    · rename_i e
      rw [e, hf]
      split <;> rfl
    · rfl
  have hi : ∀ u, ((s.copyIn t count c v).frame u).inn = if u = t then c.next else (s.frame u).inn := by
    intro u
    refine setFrame_inn.trans ?_
    rw [inn_next]
  have hreading : ∀ k, (s.copyIn t count c v).Reading k ↔ s.Reading k := by
    intro k
    simp only [Sys.Reading, ho]
  -- every task's chunk now is a part of its chunk before
  have hpart : ∀ u c', ((s.copyIn t count c v).frame u).inn = some c' →
      ∃ c₀, (s.frame u).inn = some c₀ ∧ c'.Ok ∧ c₀.idx ≤ c'.idx ∧ c'.idx + c'.left = c₀.idx + c₀.left := by
    intro u c' hu
    rw [hi] at hu
    split at hu
    · rename_i e
      obtain ⟨h1, h2, h3⟩ := hok.next_some hu
      exact ⟨c, e ▸ hinn, h1, by omega, h3⟩
    · exact ⟨c', hu, (h.inn u c' hu).1, Nat.le_refl _, rfl⟩
  exact {
    head := by rw [hlen]; exact h.head
    tail := h.tail
    le := by rw [hlen]; exact h.le
    room := by rw [hlen]; exact h.room
    out := by
      intro u c' hu
      rw [hlen]
      exact h.out u c' (ho u ▸ hu)
    inn := by
      intro u c' hu
      obtain ⟨c₀, hu₀, h1, h2, h3⟩ := hpart u c' hu
      obtain ⟨-, h4, h5⟩ := h.inn u c₀ hu₀
      rw [hlen]
      exact ⟨h1, by omega, (show s.taken.length ≤ c'.idx by omega)⟩
    apart := by
      intro u w c₁ c₂ hu hw hne
      obtain ⟨c₁', hu', -, h1, h2⟩ := hpart u c₁ hu
      obtain ⟨c₂', hw', -, h3, h4⟩ := hpart w c₂ hw
      have := h.apart u w c₁' c₂' hu' hw' hne
      omega
    hole := by
      intro k hk
      rw [hput] at hk
      split at hk
      · cases hk
      · rename_i hne
        obtain ⟨u, c', hu, h1, h2⟩ := h.hole k hk
        by_cases hut : u = t
        · subst hut
          obtain rfl := Option.some.inj (hinn.symm.trans hu)
          obtain ⟨c₁, hc₁, h3⟩ := Chunk.mem_next h1 h2 (Ne.symm hne)
          exact ⟨u, c₁, by rw [hi, if_pos rfl]; exact hc₁, h3⟩
        · exact ⟨u, c', by rw [hi, if_neg hut]; exact hu, h1, h2⟩
    gap := fun k hk => (hreading k).2 (h.gap k hk)
    stored := by
      intro k hk hn
      rw [hput] at hn
      split at hn
      · cases hn
      · exact h.stored k ((hreading k).1 hk) hn
    page := by
      intro k w hk hr
      rw [hput] at hk
      have hmod := hok.pos
      split at hk
      · rename_i e
        obtain rfl := Option.some.inj (Option.some.inj hk)
        simp [Sys.copyIn, ← e, ← hmod]
      · rename_i hne
        have hlt : k < s.put.length := (List.getElem?_eq_some_iff.1 hk).1
        have hslot : k % 4096 ≠ c.pos := by
          rcases hr with hr | hr
          · have hr : s.taken.length ≤ k := hr
            omega
          · obtain ⟨u, c', hu, h1, h2⟩ := (hreading k).1 hr
            obtain ⟨-, h3, h4⟩ := h.out u c' hu
            omega
        simp only [Sys.copyIn]
        rw [Function.update_of_ne hslot]
        exact h.page k w hk (hr.imp_right (hreading k).1)
    same := by
      intro k w hk
      have hlt : k < s.taken.length := (List.getElem?_eq_some_iff.1 hk).1
      rw [hput, if_neg (by omega)]
      exact h.same k w hk }

theorem Inv.step (h : Inv s) {o : Op T β} (ho : beginsApart s o) (hst : step s o = some s') : Inv s' := by
  cases Effect.of_step hst with
  | move h1 h2 h3 h4 => exact h.move h1 h2 h3 h4
  | take hf hc hs => exact h.take hf hc hs fun u c hu => ho _ u c hf hu
  | give hf hc hs => exact h.give hf hc hs fun u c hu => ho _ u c hf hu
  | copyOut hf => exact h.copyOut hf
  | copyIn hf => exact h.copyIn hf _

omit [DecidableEq T] in
/-- A full list, found in another one, is its beginning. -/
theorem filled_append {l m : List (Option β)} (hfull : ∀ x ∈ l, ∃ v, x = some v)
    (hsame : ∀ (k : Nat) v, l[k]? = some (some v) → m[k]? = some (some v)) :
    ∃ (bytes : List β) (rest : List (Option β)), l = bytes.map some ∧ m = bytes.map some ++ rest := by
  induction l generalizing m with
  | nil => exact ⟨[], m, rfl, rfl⟩
  | cons x l ih =>
    obtain ⟨v, rfl⟩ := hfull x List.mem_cons_self
    cases m with
    | nil => cases hsame 0 v rfl
    | cons y m =>
      obtain rfl : y = some v := Option.some.inj (hsame 0 v rfl)
      obtain ⟨bytes, rest, hl, hm⟩ := ih (fun x hx => hfull x (List.mem_cons_of_mem _ hx)) fun k w hk => hsame (k + 1) w hk
      exact ⟨v :: bytes, rest, by rw [hl]; rfl, by rw [hm]; rfl⟩

/-- **Bytes come out as they went in**, in every run whose chunks are begun apart: HEAD and TAIL are on the
page, every byte taken is the byte put in at the same place, and when no reader is
copying all that was taken is the beginning of what was put in. -/
theorem pipe_fifo {s₀ : Sys T β} (h₀ : s₀.Start) (h : Run.Reaches (Run.Under beginsApart (Run.Fires step)) s₀ s) :
    s.head < 4096 ∧ s.tail < 4096 ∧
      (∀ (k : Nat) v, s.taken[k]? = some (some v) → s.put[k]? = some (some v)) ∧
      ((∀ t count c, s.frame t ≠ .copyOut count c) →
        ∃ (bytes : List β) (rest : List (Option β)), s.taken = bytes.map some ∧ s.put = bytes.map some ++ rest) := by
  have hs : Inv s := h.invariant (I := Inv) (fun s o s' hs hst => hs.step hst.1 hst.2) (.start h₀)
  obtain ⟨hhead, htail⟩ := on_page h₀ h.of_under
  refine ⟨hhead, htail, hs.same, fun hidle => ?_⟩
  have hfull : ∀ x ∈ s.taken, ∃ v, x = some v := by
    intro x hx
    obtain ⟨k, hk⟩ := List.mem_iff_getElem?.1 hx
    cases x with
    | some v => exact ⟨v, rfl⟩
    | none =>
      obtain ⟨t, c, hc, -⟩ := hs.gap k hk
      cases hf : s.frame t with
      | copyOut count c => exact absurd hf (hidle t count c)
      | _ => rw [hf] at hc; cases hc
  exact filled_append hfull hs.same

/-- Nobody uses the pipe yet, and its page is all zeros. -/
def fresh : Sys Bool Nat :=
  { head := 0, tail := 0, page := fun _ => 0, frame := fun _ => .user, put := [], taken := [] }

theorem fresh_start : fresh.Start := ⟨rfl, rfl, fun _ => rfl, rfl, rfl⟩

theorem pipe_fifo_small : ∃ s, Run.Reaches (Run.Under beginsApart (Run.Fires step)) fresh s ∧ s.taken = [some 7, some 8] ∧
    ∃ (bytes : List Nat) (rest : List (Option Nat)), s.taken = bytes.map some ∧ s.put = bytes.map some ++ rest := by
  obtain ⟨s, hs, hp⟩ := Run.reaches_of_exec (fun s o => match o with
      | .readPipe _ => decide (∀ u, (s.frame u).inn = none)
      | .writePipe _ => decide (∀ u, (s.frame u).out = none)
      | _ => true) step fresh
    [.callWrite false 3, .callRead true 2, .writePipe false, .getFsByte false 7, .getFsByte false 8, .getFsByte false 9,
      .readPipe true, .putFsByte true, .putFsByte true]
    (fun s => decide (s.taken = [some 7, some 8] ∧ ∀ u, (s.frame u).out = none)) (by decide)
  obtain ⟨htaken, hidle⟩ := of_decide_eq_true hp
  have hs' : Run.Reaches (Run.Under beginsApart (Run.Fires step)) fresh s := by
    refine hs.under_mono fun s o ho => ?_
    cases o with
    | readPipe t =>
      intro count u c _ hu
      rw [of_decide_eq_true ho u] at hu
      cases hu
    | writePipe t =>
      intro count u c _ hu
      rw [of_decide_eq_true ho u] at hu
      cases hu
    | _ => trivial
  refine ⟨s, hs', htaken, (pipe_fifo fresh_start hs').2.2.2 fun t count c hf => ?_⟩
  have := hidle t
  rw [hf] at this
  cases this

/-- A writer moves HEAD and sleeps in its first byte; a reader takes what the page had before. -/
theorem pipe_stale : ∃ s, Run.Reaches (Run.Fires step) fresh s ∧ s.taken = [some 0] ∧ s.put = [some 7] := by
  obtain ⟨s, hs, hp⟩ := Run.reaches_of_exec (fun _ _ => true) step fresh
    [.callWrite false 1, .callRead true 1, .writePipe false, .readPipe true, .putFsByte true, .getFsByte false 7]
    (fun s => decide (s.taken = [some 0] ∧ s.put = [some 7])) (by decide)
  exact ⟨s, hs.of_under, of_decide_eq_true hp⟩

end Linux011.Fs.Pipe
