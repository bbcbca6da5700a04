/-
A subset of the 80386, as kernel assembler uses it: registers, words in memory
and on the stack, the global variables of a program, and straight-line code with jumps to
labels further down (`1f`).

Memory is a word for each address that is used as one; code keeps its words
apart by keeping to addresses four bytes from each other. Of the arithmetic
flags only ZF is computed.
-/
import Mathlib.Logic.Function.Basic
import Mathlib.Order.Basic

namespace Cpu

inductive Reg
  | eax | ebx | ecx | edx | esi | edi | ebp | esp
  deriving DecidableEq

inductive Seg
  | ds | es | fs | gs
  deriving DecidableEq

/-- What a task sees of the processor. -/
structure Regs where
  eax : Nat
  ebx : Nat
  ecx : Nat
  edx : Nat
  esi : Nat
  edi : Nat
  ebp : Nat
  esp : Nat
  ds : BitVec 16
  es : BitVec 16
  fs : BitVec 16
  gs : BitVec 16
  eflags : BitVec 32
  eip : Nat
  cs : BitVec 16
  ss : BitVec 16

namespace Regs

def get (c : Regs) : Reg → Nat
  | .eax => c.eax
  | .ebx => c.ebx
  | .ecx => c.ecx
  | .edx => c.edx
  | .esi => c.esi
  | .edi => c.edi
  | .ebp => c.ebp
  | .esp => c.esp

def set (c : Regs) (w : Nat) : Reg → Regs
  | .eax => { c with eax := w }
  | .ebx => { c with ebx := w }
  | .ecx => { c with ecx := w }
  | .edx => { c with edx := w }
  | .esi => { c with esi := w }
  | .edi => { c with edi := w }
  | .ebp => { c with ebp := w }
  | .esp => { c with esp := w }

def getSeg (c : Regs) : Seg → BitVec 16
  | .ds => c.ds
  | .es => c.es
  | .fs => c.fs
  | .gs => c.gs

def setSeg (c : Regs) (w : BitVec 16) : Seg → Regs
  | .ds => { c with ds := w }
  | .es => { c with es := w }
  | .fs => { c with fs := w }
  | .gs => { c with gs := w }

/-- ZF. -/
def zf (c : Regs) : Bool := c.eflags.getLsbD 6

def setZf (c : Regs) (b : Bool) : Regs :=
  { c with eflags := if b then c.eflags ||| BitVec.twoPow 32 6 else c.eflags &&& ~~~BitVec.twoPow 32 6 }

theorem zf_setZf (c : Regs) (b : Bool) : (c.setZf b).zf = b := by
  cases b <;> simp [setZf, zf]

@[simp] theorem setZf_esp (c : Regs) (b : Bool) : (c.setZf b).esp = c.esp := rfl

@[simp] theorem setZf_cs (c : Regs) (b : Bool) : (c.setZf b).cs = c.cs := rfl

@[simp] theorem setZf_ss (c : Regs) (b : Bool) : (c.setZf b).ss = c.ss := rfl

end Regs

/-- The machine, with the program's global variables `G`. -/
structure Mach (G : Type*) where
  regs : Regs
  /-- The selector in LDTR. -/
  ldtr : BitVec 16
  cr3 : Nat
  /-- CR0.TS. -/
  ts : Bool
  mem : Nat → Nat
  glob : G → Nat

inductive Instr (G : Type*)
  | pushl (r : Reg)
  | popl (r : Reg)
  | push (s : Seg)
  | pop (s : Seg)
  | pushfl
  | popfl
  /-- `movl %src,%dst`. -/
  | movl (src dst : Reg)
  /-- `movl $n,%dst`. -/
  | movi (n : Nat) (dst : Reg)
  /-- `movl disp(%base),%dst`. -/
  | load (disp : Nat) (base dst : Reg)
  /-- `movl %src,disp(%base)`. -/
  | store (src : Reg) (disp : Nat) (base : Reg)
  /-- `movl v,%dst`. -/
  | loadv (v : G) (dst : Reg)
  /-- `xchgl %r,v`. -/
  | xchgv (r : Reg) (v : G)
  /-- `addl $n,%r`. -/
  | addl (n : Nat) (r : Reg)
  /-- `mov %r,%s`, of the low half. -/
  | movs (r : Reg) (s : Seg)
  /-- `cmpl %r,v`. -/
  | cmpv (r : Reg) (v : G)
  | je (l : Nat)
  | jne (l : Nat)
  | label (l : Nat)
  | cli
  | clts
  /-- `lldt %r`. -/
  | lldt (r : Reg)
  /-- `movl %r,%cr3`. -/
  | movcr3 (r : Reg)
  /-- `call`, with the address after it. -/
  | call (back : Nat)
  | ret
  | iret

variable {G : Type*}

namespace Mach

def setRegs (m : Mach G) (c : Regs) : Mach G := { m with regs := c }

/-- A word on the stack. -/
def push (m : Mach G) (w : Nat) : Mach G :=
  { m with regs := { m.regs with esp := m.regs.esp - 4 }, mem := Function.update m.mem (m.regs.esp - 4) w }

/-- The word on top of the stack. -/
def top (m : Mach G) : Nat := m.mem m.regs.esp

def drop (m : Mach G) : Mach G := { m with regs := { m.regs with esp := m.regs.esp + 4 } }

section Exec

variable [DecidableEq G]

/-- One instruction that does not jump. -/
def run (m : Mach G) : Instr G → Mach G
  | .pushl r => m.push (m.regs.get r)
  | .popl r => m.drop.setRegs (m.drop.regs.set m.top r)
  | .push s => m.push (m.regs.getSeg s).toNat
  | .pop s => m.drop.setRegs (m.drop.regs.setSeg (BitVec.ofNat 16 m.top) s)
  | .pushfl => m.push m.regs.eflags.toNat
  | .popfl => m.drop.setRegs { m.drop.regs with eflags := BitVec.ofNat 32 m.top }
  | .movl src dst => m.setRegs (m.regs.set (m.regs.get src) dst)
  | .movi n dst => m.setRegs (m.regs.set n dst)
  | .load disp base dst => m.setRegs (m.regs.set (m.mem (m.regs.get base + disp)) dst)
  | .store src disp base => { m with mem := Function.update m.mem (m.regs.get base + disp) (m.regs.get src) }
  | .loadv v dst => m.setRegs (m.regs.set (m.glob v) dst)
  | .xchgv r v => { m with regs := m.regs.set (m.glob v) r, glob := Function.update m.glob v (m.regs.get r) }
  | .addl n r => m.setRegs (m.regs.set (m.regs.get r + n) r)
  | .movs r s => m.setRegs (m.regs.setSeg (BitVec.ofNat 16 (m.regs.get r)) s)
  | .cmpv r v => m.setRegs (m.regs.setZf (m.regs.get r == m.glob v))
  -- IF
  | .cli => m.setRegs { m.regs with eflags := m.regs.eflags &&& ~~~BitVec.twoPow 32 9 }
  | .clts => { m with ts := false }
  | .lldt r => { m with ldtr := BitVec.ofNat 16 (m.regs.get r) }
  | .movcr3 r => { m with cr3 := m.regs.get r }
  | .call back => m.push back
  | .ret => m.drop.setRegs { m.drop.regs with eip := m.top }
  -- to user mode: eip, cs, eflags, esp, ss
  | .iret =>
    let e := m.regs.esp
    m.setRegs { m.regs with
      eip := m.mem e
      cs := BitVec.ofNat 16 (m.mem (e + 4))
      eflags := BitVec.ofNat 32 (m.mem (e + 8))
      esp := m.mem (e + 12)
      ss := BitVec.ofNat 16 (m.mem (e + 16)) }
  | .je _ | .jne _ | .label _ => m

/-- Code from its first line on, or, with `skip`, from that label on. -/
def exec (skip : Option Nat) (m : Mach G) : List (Instr G) → Mach G
  | [] => m
  | .label l :: is => exec (if skip = some l then none else skip) m is
  | .je l :: is => exec (if skip = none ∧ m.regs.zf = true then some l else skip) m is
  | .jne l :: is => exec (if skip = none ∧ m.regs.zf = false then some l else skip) m is
  | i :: is => exec skip (if skip = none then m.run i else m) is

end Exec

end Mach

/-! ## Words in memory -/

/-- Words stored downwards from `a`: `*(--p) = w` for each. -/
def storeDown (mem : Nat → Nat) (a : Nat) : List Nat → Nat → Nat
  | [] => mem
  | w :: ws => storeDown (Function.update mem (a - 4) w) (a - 4) ws

/-- The words at `a`, four bytes from each other. -/
def Holds (mem : Nat → Nat) (a : Nat) : List Nat → Prop
  | [] => True
  | w :: ws => mem a = w ∧ Holds mem (a + 4) ws

theorem Holds.append {mem : Nat → Nat} {ws vs : List Nat} {a : Nat} :
    Holds mem a (ws ++ vs) ↔ Holds mem a ws ∧ Holds mem (a + 4 * ws.length) vs := by
  induction ws generalizing a with
  | nil => simp [Holds]
  | cons w ws ih =>
    have he : a + 4 * (w :: ws).length = a + 4 + 4 * ws.length := by
      rw [List.length_cons]
      omega
    rw [List.cons_append, Holds, Holds, ih, he, and_assoc]

theorem Holds.congr {mem mem' : Nat → Nat} {ws : List Nat} {a : Nat} (h : Holds mem a ws)
    (hmem : ∀ x, a ≤ x → x < a + 4 * ws.length → mem' x = mem x) : Holds mem' a ws := by
  induction ws generalizing a with
  | nil => trivial
  | cons w ws ih =>
    rw [List.length_cons] at hmem
    exact ⟨(hmem a (by omega) (by omega)).trans h.1, ih h.2 fun x h1 h2 => hmem x (by omega) (by omega)⟩

/-- Only the words stored change. -/
theorem storeDown_other {mem : Nat → Nat} {ws : List Nat} {a x : Nat} (ha : 4 * ws.length ≤ a)
    (hx : x < a - 4 * ws.length ∨ a ≤ x) : storeDown mem a ws x = mem x := by
  induction ws generalizing mem a with
  | nil => rfl
  | cons w ws ih =>
    rw [List.length_cons] at ha hx
    rw [storeDown, ih (by omega) (by omega), Function.update_of_ne (by omega)]

/-- The words stored, the last one first. -/
theorem storeDown_holds (mem : Nat → Nat) {ws : List Nat} {a : Nat} (ha : 4 * ws.length ≤ a) :
    Holds (storeDown mem a ws) (a - 4 * ws.length) ws.reverse := by
  induction ws generalizing mem a with
  | nil => trivial
  | cons w ws ih =>
    rw [List.length_cons] at ha
    have h := ih (Function.update mem (a - 4) w) (a := a - 4) (by omega)
    have he : a - 4 * (ws.length + 1) = a - 4 - 4 * ws.length := by omega
    have hw : a - 4 - 4 * ws.length + 4 * ws.reverse.length = a - 4 := by
      rw [List.length_reverse]
      omega
    rw [storeDown, List.reverse_cons, List.length_cons, he, Holds.append, hw]
    exact ⟨h, by rw [storeDown_other (by omega) (by omega), Function.update_self], trivial⟩

namespace Mach

/-- Words on the stack, the first one first. -/
def pushAll (m : Mach G) (ws : List Nat) : Mach G :=
  { m with regs := { m.regs with esp := m.regs.esp - 4 * ws.length }, mem := storeDown m.mem m.regs.esp ws }

theorem pushAll_nil (m : Mach G) : m.pushAll [] = m := rfl

theorem push_pushAll (m : Mach G) (w : Nat) (ws : List Nat) : (m.push w).pushAll ws = m.pushAll (w :: ws) := by
  have he : m.regs.esp - 4 - 4 * ws.length = m.regs.esp - 4 * (ws.length + 1) := by omega
  simp [push, pushAll, storeDown, he]

theorem pushAll_push (m : Mach G) (ws : List Nat) (w : Nat) : (m.pushAll ws).push w = m.pushAll (ws ++ [w]) := by
  induction ws generalizing m with
  | nil => rfl
  | cons v ws ih => rw [List.cons_append, ← push_pushAll, ← push_pushAll, ih]

/-! ## Code -/

section Lines

variable [DecidableEq G]

/-- The instruction is no jump and no label. -/
def straight : Instr G → Bool
  | .je _ | .jne _ | .label _ => false
  | _ => true

theorem exec_straight {i : Instr G} (hi : straight i = true) (m : Mach G) (is : List (Instr G)) :
    exec none m (i :: is) = exec none (m.run i) is := by
  cases i <;> first | rfl | cases hi

theorem exec_skipped {i : Instr G} (hi : straight i = true) (l : Nat) (m : Mach G) (is : List (Instr G)) :
    exec (some l) m (i :: is) = exec (some l) m is := by
  cases i <;> first | rfl | cases hi

end Lines

end Mach

end Cpu
