/-
Any sequence of forks and switches: every suspended task keeps its frame, and
who runs owns the processor.

A suspended task's frame lies on its own stack, under its own `stack_top`. The
task that runs writes its own stack only, and the switch writes besides it
`tss->esp0` and the `stack_top` of the task it leaves; none of these is in
another task's frame.
-/
import Linux011.Kernel.SwitchCode

namespace Linux011.Kernel.Switch

open Cpu Cpu.Mach

/-- The page `q` of a task that is to find `ctx`. -/
def Suspended (L : Labels) (mem : Nat → Nat) (q : Nat) : Ctx → Prop
  | .switched c => c.cs = 8 ∧ c.ss = 0x10 ∧ c.eip = L.schedule ∧ mem (q + 532) + 52 = c.esp ∧
      q + structSize ≤ mem (q + 532) ∧ c.esp ≤ q + 4096 ∧ Holds mem (mem (q + 532)) (frame c)
  | .forked u => mem (q + 532) = q + 4024 ∧ Holds mem (q + 4024) (childWords L u)

/-- A page's `stack_top`, `tss.cr3` and stack are as they were. -/
structure SamePage (mem mem' : Nat → Nat) (q : Nat) : Prop where
  stackTop : mem' (q + 532) = mem (q + 532)
  cr3 : mem' (q + cr3Off) = mem (q + cr3Off)
  stack : ∀ x, inStack q x → mem' x = mem x

theorem Suspended.same {L : Labels} {mem mem' : Nat → Nat} {q : Nat} {ctx : Ctx} (h : Suspended L mem q ctx)
    (hs : SamePage mem mem' q) : Suspended L mem' q ctx := by
  cases ctx with
  | switched c =>
    obtain ⟨h1, h2, h3, h4, h5, h6, h7⟩ := h
    have hst := hs.stackTop
    refine ⟨h1, h2, h3, by rw [hst]; exact h4, by rw [hst]; exact h5, h6, ?_⟩
    rw [hst]
    refine h7.congr fun x hx hx' => hs.stack x ⟨h5.trans hx, ?_⟩
    have hlen : 4 * (frame c).length = 52 := rfl
    omega
  | forked u =>
    refine ⟨hs.stackTop.trans h.1, h.2.congr fun x hx hx' => hs.stack x ?_⟩
    have hlen : 4 * (childWords L u).length = 72 := rfl
    unfold inStack structSize
    omega

/-- Pages that do not overlap. -/
def Apart (p q : Nat) : Prop := p + 4096 ≤ q ∨ q + 4096 ≤ p

theorem Apart.not_inStack {p q x : Nat} (h : Apart q p) (hx : q ≤ x) (hx' : x < q + 4096) : ¬inStack p x := by
  unfold Apart at h
  unfold inStack
  omega

/-- A page in which nothing is written. -/
theorem SamePage.of_page {mem mem' : Nat → Nat} {q : Nat} (h : ∀ x, q ≤ x → x < q + 4096 → mem' x = mem x) :
    SamePage mem mem' q where
  stackTop := h _ (by omega) (by omega)
  cr3 := h _ (by omega) (by unfold cr3Off; omega)
  stack x hx := h x (by unfold inStack at hx; omega) hx.2

/-- What holds between the operations. -/
structure Sys.Ok (L : Labels) (s : Sys) (p : Nat) : Prop where
  belongs : s.Belongs p
  tss : ∃ i q, s.task i = some q ∧ s.mach.glob .tss = q + tssOff
  apart : ∀ i j q r, s.task i = some q → s.task j = some r → i ≠ j → Apart q r
  ldt : ∀ i q, s.task i = some q → s.ldtDesc i = q + ldtOff
  frames : ∀ i q, i ≠ s.running → s.task i = some q → ∃ ctx, s.saved i = some ctx ∧ Suspended L s.mach.mem q ctx

variable {L : Labels} {s s' : Sys} {p : Nat}

/-- Where `esp0` is, seen from any task's page: in no stack, at no `stack_top`, at no `cr3`. -/
theorem Sys.Ok.esp0_off (h : s.Ok L p) {i : Fin 64} {q : Nat} (hq : s.task i = some q) :
    ¬inStack q (s.mach.glob .tss + 4) ∧ s.mach.glob .tss + 4 ≠ q + 532 ∧ s.mach.glob .tss + 4 ≠ q + cr3Off := by
  obtain ⟨j, r, hr, ht⟩ := h.tss
  rw [ht]
  by_cases hij : j = i
  · subst hij
    obtain rfl := Option.some.inj (hr.symm.trans hq)
    unfold inStack structSize tssOff cr3Off
    omega
  · have := h.apart j i r q hr hq hij
    unfold Apart at this
    unfold inStack tssOff cr3Off
    omega

/-- Writes to the running task's stack, and to pages apart from every task's, keep the rest. -/
structure Elsewhere (s : Sys) (p : Nat) (mem' : Nat → Nat) : Prop where
  same : ∀ i q, i ≠ s.running → s.task i = some q → SamePage s.mach.mem mem' q
  cr3 : mem' (p + cr3Off) = s.mach.mem (p + cr3Off)
  esp0 : mem' (s.mach.glob .tss + 4) = s.mach.mem (s.mach.glob .tss + 4)

theorem Elsewhere.of_stack (h : s.Ok L p) {mem' : Nat → Nat} (hm : ∀ a, ¬inStack p a → mem' a = s.mach.mem a) :
    Elsewhere s p mem' where
  same i q hi hq :=
    .of_page fun x hx hx' => hm x ((h.apart i s.running q p hq h.belongs.task hi).not_inStack hx hx')
  cr3 := hm _ (by unfold inStack structSize cr3Off; omega)
  esp0 := hm _ (h.esp0_off h.belongs.task).1

/-! ## The running task goes on -/

theorem Sys.Ok.work (h : s.Ok L p) {c : Regs} {mem : Nat → Nat}
    (hm : ∀ a, ¬inStack (s.mach.mem (s.mach.glob .tss + 4) - 4096) a → mem a = s.mach.mem a) :
    Sys.Ok L { s with mach := { s.mach with regs := c, mem := mem } } p := by
  rw [h.belongs.esp0, Nat.add_sub_cancel] at hm
  have he := Elsewhere.of_stack h hm
  exact ⟨⟨h.belongs.task, h.belongs.current, h.belongs.cr3.trans he.cr3.symm, h.belongs.ldtr, h.belongs.ldt,
      he.esp0.trans h.belongs.esp0⟩, h.tss, h.apart, h.ldt, fun i q hi hq =>
      (h.frames i q hi hq).imp fun ctx hctx => ⟨hctx.1, hctx.2.same (he.same i q hi hq)⟩⟩

/-! ## Fork -/

theorem forkMach_eq (L : Labels) (s : Sys) (nr : Fin 64) (p' dir : Nat) :
    forkMach L s nr p' dir = copyProcess L (forkEntry L s.mach nr.val) p' dir := rfl

theorem copyProcess_rest (L : Labels) (m : Mach Global) (p' dir : Nat) :
    (copyProcess L m p' dir).glob = m.glob ∧ (copyProcess L m p' dir).cr3 = m.cr3 ∧
      (copyProcess L m p' dir).ldtr = m.ldtr := ⟨rfl, rfl, rfl⟩

theorem forkMach_rest (L : Labels) (s : Sys) (nr : Fin 64) (p' dir : Nat) :
    (forkMach L s nr p' dir).glob = s.mach.glob ∧ (forkMach L s nr p' dir).cr3 = s.mach.cr3 ∧
      (forkMach L s nr p' dir).ldtr = s.mach.ldtr := by
  obtain ⟨-, -, hglob, hcr3, hldtr, -⟩ := forkEntry_spec L s.mach nr.val
  obtain ⟨h1, h2, h3⟩ := copyProcess_rest L (forkEntry L s.mach nr.val) p' dir
  rw [forkMach_eq]
  exact ⟨h1.trans hglob, h2.trans hcr3, h3.trans hldtr⟩

/-- Memory after a fork: the child's page, and the parent's stack. -/
theorem Sys.Ok.fork_mem (h : s.Ok L p) {nr : Fin 64} {p' dir : Nat} {x : Nat} (hx : ¬inStack p x)
    (hx' : x < p' ∨ p' + 4096 ≤ x) : (forkMach L s nr p' dir).mem x = s.mach.mem x := by
  obtain ⟨-, hmem, hglob, -⟩ := forkEntry_spec L s.mach nr.val
  have hlen : 4 * (childStack L (forkEntry L s.mach nr.val)).length = 72 := rfl
  have hlen' : 4 * (forkStack L s.mach.regs nr.val).length = 72 := rfl
  have hesp := h.belongs.esp0
  rw [forkMach_eq]
  simp only [copyProcess]
  rw [Function.update_of_ne (by unfold cr3Off; omega), Function.update_of_ne (by unfold stackTop; omega),
    storeDown_other (by omega) (by omega), if_neg (by unfold structSize; omega), hmem,
    storeDown_other (by omega)]
  unfold inStack structSize at hx
  omega

theorem Sys.Ok.fork_child (h : s.Ok L p) {nr : Fin 64} {p' dir : Nat} :
    Suspended L (forkMach L s nr p' dir).mem p' (.forked s.mach.regs) := by
  have hesp := h.belongs.esp0
  have hchild := childStack_fork L (m := s.mach) (by omega) nr.val
  have hlen : 4 * (childStack L (forkEntry L s.mach nr.val)).length = 72 := rfl
  have htop : p' + 4096 - 72 = p' + 4024 := by omega
  rw [forkMach_eq]
  simp only [copyProcess]
  refine ⟨?_, ?_⟩
  · rw [Function.update_of_ne (by unfold cr3Off; omega), hlen, htop]
    exact Function.update_self ..
  · have hroom : 4 * (childStack L (forkEntry L s.mach nr.val)).length ≤ p' + 4096 := by omega
    have hst := storeDown_holds (fun a => if p' ≤ a ∧ a < p' + structSize then
        (forkEntry L s.mach nr.val).mem ((forkEntry L s.mach nr.val).glob .current + (a - p'))
      else (forkEntry L s.mach nr.val).mem a) hroom
    rw [hlen, htop] at hst
    refine (show Holds _ (p' + 4024) (childWords L s.mach.regs) from ?_)
    rw [← List.reverse_reverse (childWords L s.mach.regs), ← hchild]
    refine hst.congr fun x hx hx' => ?_
    rw [Function.update_of_ne (by unfold cr3Off; omega), Function.update_of_ne (by unfold stackTop; omega)]

theorem Sys.Ok.fork (h : s.Ok L p) {nr : Fin 64} {p' dir : Nat} (hnr : s.task nr = none)
    (hp' : ∀ i q, s.task i = some q → Apart p' q) :
    Sys.Ok L { s with
      mach := forkMach L s nr p' dir
      task := Function.update s.task nr (some p')
      ldtDesc := Function.update s.ldtDesc nr (p' + ldtOff)
      saved := Function.update s.saved nr (some (.forked s.mach.regs)) } p := by
  obtain ⟨hglob, hcr3, hldtr⟩ := forkMach_rest L s nr p' dir
  have hb := h.belongs
  have hne : ∀ {i q}, s.task i = some q → i ≠ nr := fun hq he => by rw [he, hnr] at hq; cases hq
  have hrun : s.running ≠ nr := hne hb.task
  have happ := hp' s.running p hb.task
  unfold Apart at happ
  have hesp0 : (forkMach L s nr p' dir).mem (s.mach.glob .tss + 4) = p + 4096 := by
    rw [h.fork_mem (h.esp0_off hb.task).1 ?_, hb.esp0]
    obtain ⟨j, r, hr, ht⟩ := h.tss
    have hap := hp' j r hr
    unfold Apart at hap
    rw [ht]
    unfold tssOff
    omega
  refine ⟨⟨?_, ?_, ?_, ?_, ?_, ?_⟩, ?_, ?_, ?_, ?_⟩
  · exact (Function.update_of_ne hrun _ _).trans hb.task
  · exact (congrFun hglob .current).trans hb.current
  · refine (hcr3.trans hb.cr3).trans (h.fork_mem ?_ ?_).symm
    · unfold inStack structSize cr3Off
      omega
    · unfold cr3Off
      omega
  · exact hldtr.trans hb.ldtr
  · exact (Function.update_of_ne hrun _ _).trans hb.ldt
  · change (forkMach L s nr p' dir).mem ((forkMach L s nr p' dir).glob .tss + 4) = p + 4096
    rw [hglob]
    exact hesp0
  · obtain ⟨j, r, hr, ht⟩ := h.tss
    exact ⟨j, r, (Function.update_of_ne (hne hr) _ _).trans hr, (congrFun hglob .tss).trans ht⟩
  · intro i j q r hq hr hij
    simp only [Function.update_apply] at hq hr
    split at hq
    · rename_i hi
      obtain rfl := Option.some.inj hq
      rw [if_neg fun he => hij (hi.trans he.symm)] at hr
      exact hp' j r hr
    · split at hr
      · obtain rfl := Option.some.inj hr
        exact (hp' i q hq).symm
      · exact h.apart i j q r hq hr hij
  · intro i q hq
    simp only [Function.update_apply] at hq ⊢
    split at hq
    · rename_i hi
      rw [if_pos hi, Option.some.inj hq]
    · rename_i hi
      rw [if_neg hi]
      exact h.ldt i q hq
  · intro i q hi hq
    simp only [Function.update_apply] at hq ⊢
    split at hq
    · rename_i hin
      obtain rfl := Option.some.inj hq
      rw [if_pos hin]
      exact ⟨_, rfl, h.fork_child⟩
    · rename_i hin
      rw [if_neg hin]
      obtain ⟨ctx, hctx, hsus⟩ := h.frames i q hi hq
      have hap := hp' i q hq
      unfold Apart at hap
      refine ⟨ctx, hctx, hsus.same (.of_page fun x hx hx' => h.fork_mem ?_ ?_)⟩
      · exact (h.apart i s.running q p hq hb.task hi).not_inStack hx hx'
      · omega

/-! ## The switch -/

/-- The call of the switch in `schedule`. -/
def switchCall (L : Labels) (s : Sys) (n : Fin 64) (pnext : Nat) : Mach Global :=
  (switchArgs s n pnext).push L.schedule

theorem switchCall_eq (L : Labels) (s : Sys) (n : Fin 64) (pnext : Nat) :
    switchCall L s n pnext =
      s.mach.pushAll [s.mach.mem (pnext + cr3Off), ldtSel n, pnext, L.schedule] :=
  pushAll_push ..

theorem switchCall_holds (hc : CanSwitch s.mach.regs p) (n : Fin 64) (pnext : Nat) :
    Holds (switchCall L s n pnext).mem (s.mach.regs.esp - 16)
      [L.schedule, pnext, ldtSel n, s.mach.mem (pnext + cr3Off)] := by
  have hlow := hc.low
  have hroom : 4 * [s.mach.mem (pnext + cr3Off), ldtSel n, pnext, L.schedule].length ≤ s.mach.regs.esp := by
    simp only [List.length_cons, List.length_nil]
    omega
  rw [switchCall_eq]
  exact storeDown_holds s.mach.mem hroom

/-- The switch writes the stack of the task it leaves, from 64 bytes below its top. -/
theorem afterSave_switchCall (L : Labels) (hc : CanSwitch s.mach.regs p) (n : Fin 64) (pnext : Nat) {x : Nat} (hx : ¬inStack p x) :
    (afterSave (switchCall L s n pnext)).mem x = s.mach.mem x := by
  have hlow := hc.low
  have hhigh := hc.high
  have hesp : (switchCall L s n pnext).regs.esp = s.mach.regs.esp - 16 := by rw [switchCall_eq]; rfl
  unfold inStack at hx
  unfold structSize at hx hlow
  have hlen : 4 * [s.mach.mem (pnext + cr3Off), ldtSel n, pnext, L.schedule].length = 16 := rfl
  rw [afterSave_mem (by omega) (by omega), switchCall_eq]
  refine storeDown_other (hlen.trans_le (by omega)) ?_
  rw [hlen]
  omega

theorem switchMach_eq (L : Labels) (s : Sys) (n : Fin 64) (pnext : Nat) :
    switchMach L s n pnext =
      if ((switchCall L s n pnext).exec none switchToByStack).regs.eip = L.firstReturn then
        ((switchCall L s n pnext).exec none switchToByStack).run .iret
      else (switchCall L s n pnext).exec none switchToByStack := rfl

/-- The registers and memory at the call. -/
theorem switchCall_regs (L : Labels) (s : Sys) (n : Fin 64) (pnext : Nat) :
    (switchCall L s n pnext).regs = { s.mach.regs with esp := s.mach.regs.esp - 16 } := by
  rw [switchCall_eq]
  rfl

theorem switchCall_ret (hc : CanSwitch s.mach.regs p) (n : Fin 64) (pnext : Nat) :
    (switchCall L s n pnext).mem (switchCall L s n pnext).regs.esp = L.schedule := by
  rw [switchCall_regs]
  exact (switchCall_holds hc n pnext).1

/-- What the caller finds when it is back. -/
theorem switchCaller_eq (L : Labels) (s : Sys) (n : Fin 64) (pnext : Nat) :
    switchCaller L s n pnext = { s.mach.regs with esp := s.mach.regs.esp - 12, eip := L.schedule } := rfl

/-- `schedule` chose the running task. -/
theorem switchMach_same (hb : s.Belongs p) (hc : CanSwitch s.mach.regs p) :
    switchMach L s s.running p =
      { s.mach with regs := switchCaller L s s.running p, mem := (afterSave (switchCall L s s.running p)).mem } := by
  have hlow := hc.low
  have hregs := switchCall_regs L s s.running p
  have hesp : (switchCall L s s.running p).regs.esp = s.mach.regs.esp - 16 := by rw [hregs]
  have hholds := switchCall_holds (L := L) hc s.running p
  have hnext : (switchCall L s s.running p).mem ((switchCall L s s.running p).regs.esp + 4) =
      (switchCall L s s.running p).glob .current := by
    rw [hesp]
    exact hholds.2.1.trans hb.current.symm
  have hexec := exec_switch_same (m := switchCall L s s.running p) (by omega) hnext
  rw [switchCall_ret hc] at hexec
  rw [switchMach_eq, hexec, if_neg (by exact L.schedule_ne)]
  have he : s.mach.regs.esp - 16 + 4 = s.mach.regs.esp - 12 := by omega
  simp only [hregs, he, switchCaller_eq]
  rfl

theorem Sys.Ok.switchCall (h : s.Ok L p) (hc : CanSwitch s.mach.regs p) (n : Fin 64) (pnext : Nat) :
    SwitchCall (Switch.switchCall L s n pnext) pnext (ldtSel n) (s.mach.mem (pnext + cr3Off)) := by
  have hlow := hc.low
  have hhigh := hc.high
  have hesp : (Switch.switchCall L s n pnext).regs.esp = s.mach.regs.esp - 16 := by rw [switchCall_regs]
  have hholds := switchCall_holds (L := L) hc n pnext
  simp only [Holds, Nat.add_assoc] at hholds
  have hoff := (h.esp0_off h.belongs.task).1
  have hglob : (Switch.switchCall L s n pnext).glob = s.mach.glob := rfl
  unfold inStack structSize at hoff
  unfold structSize at hlow
  refine ⟨by omega, ?_, ?_, ?_, ?_, ?_⟩
  · rw [hesp]; exact hholds.2.1
  · rw [hesp]; exact hholds.2.2.1
  · rw [hesp]; exact hholds.2.2.2.1
  · rw [hesp, hglob]
    omega
  · rw [hesp, hglob, h.belongs.current]
    omega

/-- Memory after a switch to another task. -/
theorem Sys.Ok.switch_mem (h : s.Ok L p) (hc : CanSwitch s.mach.regs p) {n : Fin 64} {pnext x : Nat} (hx : ¬inStack p x)
    (h1 : x ≠ s.mach.glob .tss + 4) (h2 : x ≠ p + 532) :
    switchMem (afterSave (Switch.switchCall L s n pnext)) pnext x = s.mach.mem x := by
  have hglob : (afterSave (Switch.switchCall L s n pnext)).glob = s.mach.glob := rfl
  rw [switchMem, hglob, h.belongs.current, Function.update_of_ne h2, Function.update_of_ne h1, afterSave_switchCall L hc n pnext hx]

/-- The pages of the tasks that stay suspended, and of the one that is switched to. -/
theorem Sys.Ok.switch_page (h : s.Ok L p) (hc : CanSwitch s.mach.regs p) (n : Fin 64) (pnext : Nat) {i : Fin 64} {q : Nat} (hi : i ≠ s.running)
    (hq : s.task i = some q) :
    SamePage s.mach.mem (switchMem (afterSave (Switch.switchCall L s n pnext)) pnext) q := by
  have hap := h.apart i s.running q p hq h.belongs.task hi
  obtain ⟨o1, o2, o3⟩ := h.esp0_off hq
  have hmem : ∀ x, q ≤ x → x < q + 4096 → x ≠ s.mach.glob .tss + 4 →
      switchMem (afterSave (Switch.switchCall L s n pnext)) pnext x = s.mach.mem x := by
    intro x hx hx' h1
    refine h.switch_mem hc (hap.not_inStack hx hx') h1 ?_
    unfold Apart at hap
    omega
  refine ⟨hmem _ (by omega) (by omega) o2.symm, hmem _ (by omega) (by unfold cr3Off; omega) o3.symm, fun x hx => ?_⟩
  refine hmem x ?_ hx.2 fun he => o1 (he ▸ hx)
  unfold inStack at hx
  omega

/-- The words of `first_return_from_kernel`'s `iret`. -/
theorem run_iret {m : Mach Global} {u : Regs}
    (h : Holds m.mem m.regs.esp [u.eip, u.cs.toNat, u.eflags.toNat, u.esp, u.ss.toNat]) :
    m.run .iret = m.setRegs { m.regs with eip := u.eip, cs := u.cs, eflags := u.eflags, esp := u.esp, ss := u.ss } := by
  simp only [Holds, Nat.add_assoc] at h
  obtain ⟨h1, h2, h3, h4, h5, -⟩ := h
  simp [run, setRegs, h1, h2, h3, h4, h5]

/-- `schedule` chose another task: it finds its context. -/
theorem Sys.Ok.switchMach_next (h : s.Ok L p) (hc : CanSwitch s.mach.regs p) {n : Fin 64} {pnext : Nat}
    (hn : s.task n = some pnext) (hne : n ≠ s.running) : ∃ ctx, s.saved n = some ctx ∧
      switchMach L s n pnext =
        { regs := ctx.regs
          ldtr := BitVec.ofNat 16 (ldtSel n)
          cr3 := s.mach.mem (pnext + cr3Off)
          ts := s.mach.ts && s.mach.glob .lastTaskUsedMath != s.mach.glob .current
          mem := switchMem (afterSave (Switch.switchCall L s n pnext)) pnext
          glob := Function.update s.mach.glob .current pnext } := by
  obtain ⟨ctx, hctx, hsus⟩ := h.frames n pnext hne hn
  refine ⟨ctx, hctx, ?_⟩
  have hcall := h.switchCall hc n pnext
  have hpn : pnext ≠ (Switch.switchCall L s n pnext).glob .current := by
    have hap := h.apart n s.running pnext p hn h.belongs.task hne
    have hcur : (Switch.switchCall L s n pnext).glob .current = p := h.belongs.current
    unfold Apart at hap
    omega
  have hsus' := hsus.same (h.switch_page hc n pnext hne hn)
  have hregs := switchCall_regs L s n pnext
  cases ctx with
  | switched c =>
    obtain ⟨h1, h2, h3, h4, -, -, h7⟩ := hsus'
    rw [switchMach_eq, exec_switch_next hcall hpn h7, if_neg (by rw [h3]; exact L.schedule_ne), hregs, h4, hc.cs, hc.ss,
      ← h1, ← h2]
    rfl
  | forked u =>
    obtain ⟨h1, h2⟩ := hsus'
    rw [childWords, Holds.append] at h2
    have hexec := exec_switch_next hcall hpn (c := { u with eax := 0, eip := L.firstReturn }) (by rw [h1]; exact h2.1)
    rw [switchMach_eq, hexec, if_pos rfl, run_iret (u := u) (by rw [h1]; exact h2.2)]
    rfl

/-- The step of a switch: the invariant for the task switched to, which finds its context. -/
theorem Sys.Ok.switch (h : s.Ok L p) (hc : CanSwitch s.mach.regs p) {n : Fin 64} {pnext : Nat}
    (hn : s.task n = some pnext) :
    Sys.Ok L { s with
      mach := switchMach L s n pnext
      running := n
      saved := Function.update s.saved s.running (some (.switched (switchCaller L s n pnext))) } pnext ∧
    ∃ ctx, Function.update s.saved s.running (some (.switched (switchCaller L s n pnext))) n = some ctx ∧
      (switchMach L s n pnext).regs = ctx.regs := by
  have hb := h.belongs
  by_cases hne : n = s.running
  · subst hne
    obtain rfl := Option.some.inj (hb.task.symm.trans hn)
    have he := Elsewhere.of_stack h (fun a ha => afterSave_switchCall L hc s.running p ha)
    rw [switchMach_same hb hc]
    refine ⟨⟨⟨hn, hb.current, hb.cr3.trans he.cr3.symm, hb.ldtr, hb.ldt, he.esp0.trans hb.esp0⟩, h.tss, h.apart, h.ldt,
      fun i q hi hq => ?_⟩, _, Function.update_self .., rfl⟩
    obtain ⟨ctx, hctx, hsus⟩ := h.frames i q hi hq
    exact ⟨ctx, (Function.update_of_ne hi _ _).trans hctx, hsus.same (he.same i q hi hq)⟩
  · obtain ⟨ctx, hctx, hmach⟩ := h.switchMach_next hc hn hne
    have hlow := hc.low
    have hhigh := hc.high
    obtain ⟨o1, o2, o3⟩ := h.esp0_off hb.task
    have hglob : (afterSave (Switch.switchCall L s n pnext)).glob = s.mach.glob := rfl
    have hsp : (afterSave (Switch.switchCall L s n pnext)).regs.esp = s.mach.regs.esp - 64 := by
      change (Switch.switchCall L s n pnext).regs.esp - 48 = _
      rw [switchCall_regs]
      exact Nat.sub_sub _ 16 48
    have htop : switchMem (afterSave (Switch.switchCall L s n pnext)) pnext (p + 532) = s.mach.regs.esp - 64 := by
      rw [switchMem, hglob, hb.current, Function.update_self, hsp]
    have hesp0 : switchMem (afterSave (Switch.switchCall L s n pnext)) pnext (s.mach.glob .tss + 4) = pnext + 4096 := by
      rw [switchMem, hglob, hb.current, Function.update_of_ne o2, Function.update_self]
    have hcr3 := (h.switch_page hc n pnext hne hn).cr3
    have hpage := fun i q hi hq => h.switch_page (i := i) (q := q) hc n pnext hi hq
    have hleft : ∀ x, s.mach.regs.esp - 64 ≤ x → x < s.mach.regs.esp - 12 →
        switchMem (afterSave (Switch.switchCall L s n pnext)) pnext x = (afterSave (Switch.switchCall L s n pnext)).mem x := by
      intro x hx hx'
      unfold inStack structSize at o1
      unfold structSize at hlow
      rw [switchMem, hglob, hb.current, Function.update_of_ne (by omega), Function.update_of_ne (by omega)]
    rw [hmach]
    generalize switchMem (afterSave (Switch.switchCall L s n pnext)) pnext = mem' at *
    refine ⟨⟨⟨hn, ?_, hcr3.symm, rfl, h.ldt n pnext hn, hesp0⟩, h.tss, h.apart,
      h.ldt, fun i q hi hq => ?_⟩, ctx, (Function.update_of_ne hne _ _).trans hctx, rfl⟩
    · exact Function.update_self Global.current pnext s.mach.glob
    · by_cases hir : i = s.running
      · -- the task that was left: its frame is what the switch pushed
        subst hir
        obtain rfl := Option.some.inj (hb.task.symm.trans hq)
        have hroom : 48 ≤ (Switch.switchCall L s n pnext).regs.esp := (h.switchCall hc n pnext).room
        have hfr := afterSave_frame hroom
        have hsp' : (Switch.switchCall L s n pnext).regs.esp - 48 = s.mach.regs.esp - 64 := hsp
        rw [switchCall_ret hc, hsp', switchCall_regs] at hfr
        refine ⟨_, Function.update_self .., hc.cs, hc.ss, rfl, ?_, ?_, ?_, ?_⟩
        · change mem' (p + 532) + 52 = s.mach.regs.esp - 12
          omega
        · change p + structSize ≤ mem' (p + 532)
          omega
        · change s.mach.regs.esp - 12 ≤ p + 4096
          omega
        · change Holds mem' (mem' (p + 532)) _
          rw [htop]
          refine hfr.congr fun x hx hx' => hleft x hx ?_
          have hx52 : x < s.mach.regs.esp - 64 + 52 := hx'
          omega
      · obtain ⟨ctx', hctx', hsus⟩ := h.frames i q hir hq
        exact ⟨ctx', (Function.update_of_ne hir _ _).trans hctx', hsus.same (hpage i q hir hq)⟩

/-! ## Runs -/

theorem Sys.Boot.ok (h : s.Boot) : ∃ p, s.Ok L p := by
  obtain ⟨p, h1, h2, h3, h4, h5, h6⟩ := h.task
  have halone : ∀ {i q}, s.task i = some q → i = s.running := by
    intro i q hq
    by_contra hi
    rw [h.alone i hi] at hq
    cases hq
  refine ⟨p, ⟨h1, h2, h5, h.ldtr, h6, by rw [h3]; exact h4⟩, ⟨s.running, p, h1, h3⟩, fun i j q r hq hr hij => ?_,
    fun i q hq => ?_, fun i q hi hq => ?_⟩
  · exact absurd ((halone hq).trans (halone hr).symm) hij
  · obtain rfl := halone hq
    obtain rfl := Option.some.inj (h1.symm.trans hq)
    exact h6
  · exact absurd (halone hq) hi

/-- One operation. -/
theorem Sys.Ok.step (h : s.Ok L p) {o : Op} (hst : Step L s o s') : ∃ p', s'.Ok L p' := by
  cases hst with
  | work hm => exact ⟨p, h.work hm⟩
  | fork _ hnr hp' => exact ⟨p, h.fork hnr hp'⟩
  | @switch n q pnext hq hc hn =>
    obtain rfl := Option.some.inj (h.belongs.task.symm.trans hq)
    exact ⟨pnext, (h.switch hc hn).1⟩

theorem Sys.Boot.run {s₀ : Sys} (h₀ : s₀.Boot) (h : Run.Reaches (Step L) s₀ s) : ∃ p, s.Ok L p := by
  refine h.invariant (I := fun s => ∃ p, s.Ok L p) ?_ h₀.ok
  intro s o s' hs hst
  obtain ⟨p, hp⟩ := hs
  exact hp.step hst

/-- A user of task 0 about to fork. -/
def userRegs : Regs :=
  { eax := 2, ebx := 3, ecx := 4, edx := 5, esi := 6, edi := 7, ebp := 8, esp := 65536, ds := 0x17, es := 0x17,
    fs := 0x17, gs := 0x17, eflags := 0x202, eip := 1000, cs := 0x0f, ss := 0x17 }

def smallLabels : Labels := ⟨1, 2, 3, 4, by decide⟩

/-- Task 0 in the page at 4096. -/
def smallBoot : Sys where
  mach :=
    { regs := userRegs, ldtr := 40, cr3 := 0, ts := false
      mem := fun a => if a = 4848 then 8192 else 0
      glob := fun
        | .current => 4096
        | .tss => 4844
        | .lastTaskUsedMath => 0 }
  task i := if i.val = 0 then some 4096 else none
  ldtDesc _ := 4820
  running := ⟨0, by decide⟩
  saved _ := none

theorem smallBoot_boot : smallBoot.Boot := by
  refine ⟨rfl, ⟨4096, rfl, rfl, rfl, rfl, rfl, rfl⟩, rfl, fun i hi => ?_⟩
  exact if_neg fun h => hi (Fin.ext h)

/-- Slot 1. -/
def one : Fin 64 := ⟨1, by decide⟩

/-- Task 0 after a fork, inside the kernel. -/
def smallFork : Sys where
  mach := { forkMach smallLabels smallBoot one 8192 12288 with regs := { userRegs with cs := 8, ss := 0x10, esp := 8000 } }
  task := Function.update smallBoot.task one (some 8192)
  ldtDesc := Function.update smallBoot.ldtDesc one (8192 + ldtOff)
  running := smallBoot.running
  saved := Function.update smallBoot.saved one (some (.forked userRegs))

theorem smallFork_reached : Run.Reaches (Step smallLabels) smallBoot smallFork := by
  refine ⟨[.fork one 8192 12288, .work _ _], .cons (.fork (by decide) rfl fun i q hq => ?_)
    (.one (.work fun a _ => rfl))⟩
  change (if i.val = 0 then some 4096 else none) = some q at hq
  split at hq
  · obtain rfl := Option.some.inj hq
    exact .inr le_rfl
  · cases hq

end Linux011.Kernel.Switch
