/-
The switch and the fork, executed: what the assembler leaves in the registers
and in memory, for any registers and any memory.
-/
import Linux011.Kernel.Switch

namespace Linux011.Kernel.Switch

open Cpu Cpu.Mach

/-- The words of a suspended task, from its `stack_top` up. -/
def frame (c : Regs) : List Nat :=
  [c.ds.toNat, c.es.toNat, c.fs.toNat, c.gs.toNat, c.eflags.toNat, c.esi, c.edi, c.eax, c.ebx, c.ecx, c.edx, c.ebp,
    c.eip]

theorem exec_append (m : Mach Global) (is js : List (Instr Global)) (h : ∀ i ∈ is, straight i = true) :
    m.exec none (is ++ js) = (m.exec none is).exec none js := by
  induction is generalizing m with
  | nil => rfl
  | cons i is ih =>
    have hi := h i List.mem_cons_self
    rw [List.cons_append, exec_straight hi, exec_straight hi]
    exact ih (m.run i) fun j hj => h j (List.mem_cons_of_mem i hj)

theorem exec_skip (m : Mach Global) (l : Nat) (is js : List (Instr Global))
    (h : ∀ i ∈ is, i ≠ .label l) : m.exec (some l) (is ++ .label l :: js) = m.exec none js := by
  induction is generalizing m with
  | nil => simp [exec]
  | cons i is ih =>
    have hi := h i List.mem_cons_self
    have htail := ih m fun j hj => h j (List.mem_cons_of_mem i hj)
    cases i with
    | label k =>
      have hk : l ≠ k := fun he => hi (by rw [he])
      simpa [exec, hk] using htail
    | je k => simpa [exec] using htail
    | jne k => simpa [exec] using htail
    | _ => exact htail

/-- After the saves: twelve words below the return address. -/
def afterSave (m : Mach Global) : Mach Global :=
  { m with
    regs := { m.regs with ebp := m.regs.esp - 4, esp := m.regs.esp - 48 }
    mem := storeDown m.mem m.regs.esp (frame m.regs).dropLast.reverse }

theorem exec_switchSave (m : Mach Global) : m.exec none switchSave = afterSave m := by
  simp [switchSave, exec, run, push, afterSave, frame, storeDown, setRegs, Regs.get, Regs.set, Regs.getSeg, Nat.sub_sub]

/-- The restored registers; the code segment and the stack segment stay. -/
theorem exec_switchEnd {m : Mach Global} {c : Regs} (h : Holds m.mem m.regs.esp (frame c)) :
    m.exec none switchEnd = m.setRegs { c with esp := m.regs.esp + 52, cs := m.regs.cs, ss := m.regs.ss } := by
  simp only [frame, Holds, Nat.add_assoc] at h
  obtain ⟨h1, h2, h3, h4, h5, h6, h7, h8, h9, h10, h11, h12, h13, -⟩ := h
  simp [switchEnd, exec, run, drop, top, setRegs, Regs.set, Regs.setSeg, Nat.add_assoc, h1, h2, h3, h4, h5, h6, h7, h8,
    h9, h10, h11, h12, h13]

/-- Memory after the switch to `pnext`: `tss->esp0` and the old task's `stack_top` are set. -/
def switchMem (m : Mach Global) (pnext : Nat) : Nat → Nat :=
  Function.update (Function.update m.mem (m.glob .tss + 4) (pnext + 4096)) (m.glob .current + 532) m.regs.esp

/-- On the new task's stack, with the three arguments read from the old one. -/
structure SwitchedTo (m m' : Mach Global) : Prop where
  esp : m'.regs.esp = switchMem m m.regs.ebx (switchMem m m.regs.ebx (m.regs.ebp + 8) + 532)
  cs : m'.regs.cs = m.regs.cs
  ss : m'.regs.ss = m.regs.ss
  ldtr : m'.ldtr = BitVec.ofNat 16 (switchMem m m.regs.ebx (m.regs.ebp + 12))
  cr3 : m'.cr3 = switchMem m m.regs.ebx (m.regs.ebp + 16)
  mem : m'.mem = switchMem m m.regs.ebx
  glob : m'.glob = Function.update m.glob .current m.regs.ebx

/-- Up to the test of `last_task_used_math`. -/
theorem exec_switchTo (m : Mach Global) :
    SwitchedTo m (m.exec none switchTo) ∧ (m.exec none switchTo).ts = m.ts ∧
      (m.exec none switchTo).regs.zf = (m.glob .current == m.glob .lastTaskUsedMath) := by
  refine ⟨⟨?_, ?_, ?_, ?_, ?_, ?_, ?_⟩, ?_, ?_⟩ <;>
    simp [switchTo, exec, run, setRegs, Regs.get, Regs.set, Regs.setSeg, switchMem, Regs.zf_setZf]

/-- The whole middle part. -/
theorem exec_switch_other (m : Mach Global) : ∃ m', SwitchedTo m m' ∧
    m'.ts = (m.ts && m.glob .lastTaskUsedMath != m.glob .current) ∧
    m.exec none (switchTo ++ .jne 1 :: .clts :: .label 1 :: switchEnd) = m'.exec none switchEnd := by
  obtain ⟨h, hts, hz⟩ := exec_switchTo m
  rw [exec_append _ _ _ (by decide)]
  generalize m.exec none switchTo = m₁ at h hts hz ⊢
  by_cases hl : m.glob .current = m.glob .lastTaskUsedMath
  · refine ⟨{ m₁ with ts := false }, ⟨h.esp, h.cs, h.ss, h.ldtr, h.cr3, h.mem, h.glob⟩, ?_, ?_⟩
    · simp [hl]
    · simp [exec, run, hz, hl]
  · refine ⟨m₁, h, ?_, ?_⟩
    · have hne : m.glob .lastTaskUsedMath ≠ m.glob .current := fun he => hl he.symm
      simp [hts, hne]
    · simp [exec, hz, hl]

/-- The start: what is saved, and the test for the running task. -/
theorem exec_switch_start (m : Mach Global) (is : List (Instr Global)) :
    ∃ c : Regs, c.zf = (m.mem (m.regs.ebp + 8) == m.glob .current) ∧ c.ebx = m.mem (m.regs.ebp + 8) ∧
      c.ebp = m.regs.ebp ∧ c.esp = m.regs.esp ∧ c.cs = m.regs.cs ∧ c.ss = m.regs.ss ∧
      m.exec none ([.load 8 .ebp .ebx, .cmpv .ebx .current] ++ is) = (m.setRegs c).exec none is := by
  refine ⟨({ m.regs with ebx := m.mem (m.regs.ebp + 8) } : Regs).setZf (m.mem (m.regs.ebp + 8) == m.glob .current),
    Regs.zf_setZf _ _, ?_, ?_, ?_, ?_, ?_, ?_⟩
  · simp [Regs.setZf]
  · simp [Regs.setZf]
  · simp
  · simp
  · simp
  · simp [exec, run, setRegs, Regs.get, Regs.set]

/-- The twelve words and the return address are the caller's frame. -/
theorem afterSave_frame {m : Mach Global} (hm : 48 ≤ m.regs.esp) :
    Holds (afterSave m).mem (m.regs.esp - 48) (frame { m.regs with eip := m.mem m.regs.esp }) := by
  have h : Holds (afterSave m).mem (m.regs.esp - 48) (frame m.regs).dropLast := by
    have hlen : 4 * (frame m.regs).dropLast.reverse.length ≤ m.regs.esp := hm
    have := storeDown_holds m.mem hlen
    rwa [List.reverse_reverse] at this
  have he : frame { m.regs with eip := m.mem m.regs.esp } = (frame m.regs).dropLast ++ [m.mem m.regs.esp] := rfl
  have hl : m.regs.esp - 48 + 4 * (frame m.regs).dropLast.length = m.regs.esp := Nat.sub_add_cancel hm
  rw [he, Holds.append, hl]
  exact ⟨h, storeDown_other hm (.inr le_rfl), trivial⟩

theorem afterSave_mem {m : Mach Global} (hm : 48 ≤ m.regs.esp) {x : Nat} (hx : x < m.regs.esp - 48 ∨ m.regs.esp ≤ x) :
    (afterSave m).mem x = m.mem x := storeDown_other hm hx

/-- The next task is the running one: it returns. -/
theorem exec_switch_same {m : Mach Global} (hm : 48 ≤ m.regs.esp)
    (hnext : m.mem (m.regs.esp + 4) = m.glob .current) :
    m.exec none switchToByStack =
      { m with
        regs := { m.regs with esp := m.regs.esp + 4, eip := m.mem m.regs.esp }
        mem := (afterSave m).mem } := by
  have harg : (afterSave m).regs.ebp + 8 = m.regs.esp + 4 := by
    change m.regs.esp - 4 + 8 = m.regs.esp + 4
    omega
  obtain ⟨c, hz, -, -, hesp, hcs, hss, hexec⟩ := exec_switch_start (afterSave m)
    (.je 1 :: (switchTo ++ .jne 1 :: .clts :: .label 1 :: switchEnd))
  have hmem : (afterSave m).mem (m.regs.esp + 4) = m.glob .current :=
    (afterSave_mem hm (.inr (Nat.le_add_right _ _))).trans hnext
  have hzf : ((afterSave m).setRegs c).regs.zf = true := by
    rw [harg, hmem] at hz
    exact hz.trans (by simp [afterSave])
  have hend := exec_switchEnd (m := (afterSave m).setRegs c) (c := { m.regs with eip := m.mem m.regs.esp })
    (by rw [setRegs, hesp]; exact afterSave_frame hm)
  have hje : ((afterSave m).setRegs c).exec none (.je 1 :: (switchTo ++ .jne 1 :: .clts :: .label 1 :: switchEnd)) =
      ((afterSave m).setRegs c).exec (some 1) ((switchTo ++ [.jne 1, .clts]) ++ .label 1 :: switchEnd) := by
    simp [exec, hzf]
  rw [switchToByStack, exec_append _ _ _ (by decide), exec_switchSave, hexec, hje, exec_skip _ _ _ _ (by simp [switchTo]), hend]
  have hesp' : m.regs.esp - 48 + 52 = m.regs.esp + 4 := by omega
  simp [setRegs, hesp, hcs, hss, afterSave, hesp']

/-- What `switch_to_by_stack(pnext, ldt, cr3)` needs: room below the return
address, and `tss->esp0` and the task's `stack_top` outside what it uses of the stack. -/
structure SwitchCall (m : Mach Global) (pnext ldt cr3 : Nat) : Prop where
  room : 48 ≤ m.regs.esp
  pnext : m.mem (m.regs.esp + 4) = pnext
  ldt : m.mem (m.regs.esp + 8) = ldt
  cr3 : m.mem (m.regs.esp + 12) = cr3
  esp0 : m.glob .tss + 4 < m.regs.esp - 48 ∨ m.regs.esp + 16 ≤ m.glob .tss + 4
  stackTop : m.glob .current + 532 < m.regs.esp - 48 ∨ m.regs.esp + 16 ≤ m.glob .current + 532

/-- The words of the call are still there when they are read, on the other stack. -/
theorem SwitchCall.arg {m : Mach Global} {pnext ldt cr3 : Nat} (h : SwitchCall m pnext ldt cr3) {k : Nat} (hk : k < 16) :
    switchMem (afterSave m) pnext (m.regs.esp + k) = m.mem (m.regs.esp + k) := by
  have h1 := h.esp0
  have h2 := h.stackTop
  have hs : (afterSave m).glob = m.glob := rfl
  rw [switchMem, hs, Function.update_of_ne (by omega), Function.update_of_ne (by omega),
    afterSave_mem h.room (.inr (Nat.le_add_right _ _))]

/-- The next task is another one: it finds the registers in its frame. -/
theorem exec_switch_next {m : Mach Global} {pnext ldt cr3 : Nat} (h : SwitchCall m pnext ldt cr3)
    (hne : pnext ≠ m.glob .current) {c : Regs}
    (hc : Holds (switchMem (afterSave m) pnext) (switchMem (afterSave m) pnext (pnext + 532)) (frame c)) :
    m.exec none switchToByStack =
      { regs := { c with esp := switchMem (afterSave m) pnext (pnext + 532) + 52, cs := m.regs.cs, ss := m.regs.ss }
        ldtr := BitVec.ofNat 16 ldt
        cr3 := cr3
        ts := m.ts && m.glob .lastTaskUsedMath != m.glob .current
        mem := switchMem (afterSave m) pnext
        glob := Function.update m.glob .current pnext } := by
  have hm := h.room
  have harg : ∀ k, (afterSave m).regs.ebp + (4 + k) = m.regs.esp + k := by
    intro k
    change m.regs.esp - 4 + (4 + k) = m.regs.esp + k
    omega
  obtain ⟨c₁, hz, hebx, hebp, hesp, hcs, hss, hexec⟩ := exec_switch_start (afterSave m)
    (.je 1 :: (switchTo ++ .jne 1 :: .clts :: .label 1 :: switchEnd))
  have hnext : (afterSave m).mem ((afterSave m).regs.ebp + 8) = pnext := by
    rw [harg 4, afterSave_mem hm (.inr (Nat.le_add_right _ _)), h.pnext]
  have hzf : ((afterSave m).setRegs c₁).regs.zf = false := by
    rw [hnext] at hz
    exact hz.trans (by simpa [afterSave] using hne)
  obtain ⟨m', hto, hts, hrest⟩ := exec_switch_other ((afterSave m).setRegs c₁)
  have hpn : ((afterSave m).setRegs c₁).regs.ebx = pnext := hebx.trans hnext
  have hebp' : ((afterSave m).setRegs c₁).regs.ebp = (afterSave m).regs.ebp := hebp
  have hsw : switchMem ((afterSave m).setRegs c₁) pnext = switchMem (afterSave m) pnext := by
    simp [switchMem, setRegs, hesp]
  have hesp' := hto.esp
  have hldtr := hto.ldtr
  have hcr3 := hto.cr3
  have hmem := hto.mem
  have hglob := hto.glob
  rw [hpn, hsw, hebp', harg 4, h.arg (by omega), h.pnext] at hesp'
  rw [hpn, hsw, hebp', harg 8, h.arg (by omega), h.ldt] at hldtr
  rw [hpn, hsw, hebp', harg 12, h.arg (by omega), h.cr3] at hcr3
  rw [hpn, hsw] at hmem
  rw [hpn] at hglob
  have hje : ((afterSave m).setRegs c₁).exec none (.je 1 :: (switchTo ++ .jne 1 :: .clts :: .label 1 :: switchEnd)) =
      ((afterSave m).setRegs c₁).exec none (switchTo ++ .jne 1 :: .clts :: .label 1 :: switchEnd) := by
    rw [exec, if_neg (by simp [hzf])]
  have hend := exec_switchEnd (m := m') (c := c) (by rw [hmem, hesp']; exact hc)
  have hcs' : m'.regs.cs = m.regs.cs := hto.cs.trans hcs
  have hss' : m'.regs.ss = m.regs.ss := hto.ss.trans hss
  have hts' : m'.ts = (m.ts && m.glob .lastTaskUsedMath != m.glob .current) := hts
  rw [switchToByStack, exec_append _ _ _ (by decide), exec_switchSave, hexec, hje, hrest, hend, setRegs, hesp', hcs', hss']
  rw [← hldtr, ← hcr3, ← hts', ← hmem]
  congr 1

/-! ## The fork -/

/-- What is on the parent's stack when `copy_process` starts: pushed by the processor,
by `system_call` and by `sys_fork`. -/
def forkStack (L : Labels) (u : Regs) (nr : Nat) : List Nat :=
  [u.ss.toNat, u.esp, u.eflags.toNat, u.cs.toNat, u.eip, u.ds.toNat, u.es.toNat, u.fs.toNat, u.edx, u.ecx, u.ebx,
    L.systemCall, u.gs.toNat, u.esi, u.edi, u.ebp, nr, L.sysFork]

/-- The machine as `copy_process` finds it. -/
def forkEntry (L : Labels) (m : Mach Global) (nr : Nat) : Mach Global :=
  let m := (interrupt m).exec none (systemCall L)
  ({ m with regs := { m.regs with eax := nr } } : Mach Global).exec none (sysFork L)

theorem forkEntry_spec (L : Labels) (m : Mach Global) (nr : Nat) :
    (forkEntry L m nr).regs.esp = m.mem (m.glob .tss + 4) - 72 ∧
      (forkEntry L m nr).mem = storeDown m.mem (m.mem (m.glob .tss + 4)) (forkStack L m.regs nr) ∧
      (forkEntry L m nr).glob = m.glob ∧ (forkEntry L m nr).cr3 = m.cr3 ∧ (forkEntry L m nr).ldtr = m.ldtr ∧
      (forkEntry L m nr).ts = m.ts := by
  refine ⟨?_, ?_, ?_, ?_, ?_, ?_⟩ <;>
    simp [forkEntry, interrupt, systemCall, sysFork, exec, run, push, pushAll, storeDown, forkStack, setRegs, Regs.get,
      Regs.set, Regs.getSeg, Regs.setSeg, Nat.sub_sub]

/-- The words of a new task, from its `stack_top` up: the frame the switch
restores, and below `first_return_from_kernel` what `iret` takes. -/
def childWords (L : Labels) (u : Regs) : List Nat :=
  frame { u with eax := 0, eip := L.firstReturn } ++ [u.eip, u.cs.toNat, u.eflags.toNat, u.esp, u.ss.toNat]

/-- `copy_process` stores the words in the order the two epilogues take them. -/
theorem childStack_fork (L : Labels) {m : Mach Global} (hm : 72 ≤ m.mem (m.glob .tss + 4)) (nr : Nat) :
    childStack L (forkEntry L m nr) = (childWords L m.regs).reverse := by
  obtain ⟨hesp, hmem, -⟩ := forkEntry_spec L m nr
  have hlen : 4 * (forkStack L m.regs nr).length = 72 := rfl
  have h := storeDown_holds m.mem (hlen.trans_le hm)
  rw [hlen, ← hmem, ← hesp] at h
  simp only [forkStack, List.reverse_cons, List.reverse_nil, List.nil_append, List.cons_append, Holds, Nat.add_assoc,
    Nat.reduceAdd] at h
  obtain ⟨-, -, h1, h2, h3, h4, -, h6, h7, h8, h9, h10, h11, h12, h13, h14, h15, h16, -⟩ := h
  have hmod : ∀ w : BitVec 16, w.toNat % 65536 = w.toNat := fun w => Nat.mod_eq_of_lt w.isLt
  simp [childStack, arg, childWords, frame, Nat.add_assoc, h1, h2, h3, h4, h6, h7, h8, h9, h10, h11, h12, h13, h14, h15,
    h16, hmod]

end Linux011.Kernel.Switch
