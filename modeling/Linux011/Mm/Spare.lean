/-
Pages still to be handed out. `get_free_page` takes the first page with a
zero count, so the frames from some number on are free until the ones below
have been taken, and `pg0` still shows them clean (`Spare`). An operation
that needs a few pages finds them while there are spare ones.

`Marked` says what is left of the frames `mem_init` kept for the kernel:
only dirty bits of its tables change.
-/
import Linux011.Mm.Memory

namespace Linux011.Mm

/-- The frames from `b` on are free, and have never been cleared by the kernel. -/
structure Spare (m : Mem) (b : Nat) : Prop where
  low : m.low ≤ b
  free : ∀ n, b ≤ n → n < m.high → m.map n = 0
  clean : ∀ n, b ≤ n → n < 1024 → ¬ Dirty (m.word 1 n)

/-- Frames outside the allocator's keep their words, up to dirty bits. -/
def Marked (m m' : Mem) : Prop :=
  ∀ f w, ¬ m.Managed f → m'.word f w = m.word f w ∨ m'.word f w = setDirty (m.word f w)

variable {m m' m'' : Mem} {b n f k v : Nat}

namespace Spare

theorem mono (h : Spare m b) {c : Nat} (hc : b ≤ c) : Spare m c :=
  ⟨Nat.le_trans h.low hc, fun n hn => h.free n (Nat.le_trans hc hn), fun n hn => h.clean n (Nat.le_trans hc hn)⟩

/-- `get_free_page` finds a page, at `b` or below. -/
theorem getFreePage (h : Spare m b) (hb : b < m.high) (hh : m.high ≤ 4096) :
    ∃ n, m.getFreePage = some (n, m.claim n) ∧ n ≤ b ∧ m.map n = 0 := by
  unfold Mem.getFreePage
  cases hf : (List.range' m.low (4096 - m.low)).find? fun i => m.map i == 0 with
  | none =>
    rw [List.find?_eq_none] at hf
    have hmem : b ∈ List.range' m.low (4096 - m.low) := by
      have := h.low
      rw [List.mem_range']
      exact ⟨b - m.low, by omega, by omega⟩
    exact absurd (h.free b (Nat.le_refl b) hb) (by simpa using hf b hmem)
  | some n =>
    rw [List.find?_range'_eq_some] at hf
    refine ⟨n, rfl, ?_, by simpa using hf.1⟩
    by_contra hn
    have := hf.2.2 b h.low (by omega)
    simp [h.free b (Nat.le_refl b) hb] at this

theorem getFreePage_le (h : Spare m b) (hb : b < m.high) (hh : m.high ≤ 4096) (hg : m.getFreePage = some (n, m')) :
    n ≤ b := by
  obtain ⟨n', hn', hle, -⟩ := h.getFreePage hb hh
  rw [hg, Option.some.injEq, Prod.mk.injEq] at hn'
  exact hn'.1 ▸ hle

theorem claim (h : Spare m b) (hn : n ≤ b) (hn1 : n ≠ 1) : Spare (m.claim n) (b + 1) := by
  refine ⟨Nat.le_trans h.low (Nat.le_succ b), fun n' h₁ h₂ => ?_, fun n' h₁ h₂ => ?_⟩
  · simp only [Mem.claim]
    rw [Function.update_of_ne (by omega)]
    exact h.free n' (by omega) h₂
  · simp only [Mem.claim]
    rw [if_neg (fun e => hn1 e.symm), if_neg (by omega)]
    exact h.clean n' (by omega) h₂

theorem set (h : Spare m b) (hf : f ≠ 1) : Spare (m.set f k v) b :=
  ⟨h.low, h.free, fun n h₁ h₂ => by rw [Mem.set_word, if_neg (fun e => hf e.1.symm)]; exact h.clean n h₁ h₂⟩

/-- An entry, of `pg0` or of any table, that loses PAGE_RW. -/
theorem setClearRw (h : Spare m b) : Spare (m.set f k (clearRw (m.word f k))) b := by
  refine ⟨h.low, h.free, fun n h₁ h₂ => ?_⟩
  rw [Mem.set_word]
  split
  · rename_i e
    rw [← e.1, ← e.2]
    simpa using h.clean n h₁ h₂
  · exact h.clean n h₁ h₂

theorem setMap (h : Spare m b) (hn : m.map n ≠ 0 ∨ n < b) : Spare (m.setMap n v) b := by
  refine ⟨h.low, fun n' h₁ h₂ => ?_, h.clean⟩
  rw [Mem.setMap_map, Function.update_of_ne]
  · exact h.free n' h₁ h₂
  · rintro rfl
    rcases hn with hn | hn
    · exact hn (h.free _ h₁ h₂)
    · omega

/-- Nothing was taken, and `pg0` is as it was. -/
theorem of_map (h : Spare m b) (hlow : m'.low = m.low) (hhigh : m'.high = m.high)
    (hmap : ∀ n, n < m.high → m.map n = 0 → m'.map n = 0) (hw : ∀ n, m'.word 1 n = m.word 1 n) : Spare m' b :=
  ⟨by rw [hlow]; exact h.low, fun n h₁ h₂ => hmap n (by rw [← hhigh]; exact h₂) (h.free n h₁ (by rw [← hhigh]; exact h₂)),
    fun n h₁ h₂ => by rw [hw]; exact h.clean n h₁ h₂⟩

/-- What another frame shows of a page being cleared: at most a dirty bit. -/
theorem claim_word (hf : f ≠ n) : (m.claim n).word f k = m.word f k ∨ (m.claim n).word f k = setDirty (m.word f k) := by
  simp only [Mem.claim]
  rw [if_neg hf]
  split
  · exact .inr rfl
  · exact .inl rfl

/-- `put_page`, with a page for the table. -/
theorem putPage (h : Spare m b) (hb : b < m.high) (hh : m.high ≤ 4096) (h1 : m.map 1 ≠ 0) {d a : Nat} (hd : d ≠ 1)
    (hT : Present (m.word d (Mem.dirIx a)) → frame (m.word d (Mem.dirIx a)) ≠ 1) :
    ∃ m', m.putPage d n a = some m' ∧ Spare m' (b + 1) := by
  unfold Mem.putPage
  simp only
  by_cases hp : Present (m.word d (Mem.dirIx a))
  · rw [if_pos hp]
    exact ⟨_, rfl, (h.set (hT hp)).mono (Nat.le_succ b)⟩
  · obtain ⟨t, hg, ht, h0⟩ := h.getFreePage hb hh
    have ht1 : t ≠ 1 := by rintro rfl; exact h1 h0
    rw [if_neg hp, hg]
    exact ⟨_, rfl, ((h.claim ht ht1).set hd).set ht1⟩

/-- `get_empty_page`, with two pages to spare. -/
theorem getEmptyPage (h : Spare m b) (hb : b + 1 < m.high) (hh : m.high ≤ 4096) (h1 : m.map 1 ≠ 0) {d a : Nat}
    (hd : d ≠ 1) (hd0 : m.map d ≠ 0)
    (hT : Present (m.word d (Mem.dirIx a)) → frame (m.word d (Mem.dirIx a)) ≠ 1) :
    ∃ m', m.getEmptyPage d a = .ok (.done m') ∧ Spare m' (b + 2) := by
  obtain ⟨n, hg, hn, h0⟩ := h.getFreePage (Nat.lt_of_succ_lt hb) hh
  have hn1 : n ≠ 1 := by rintro rfl; exact h1 h0
  have hnd : d ≠ n := by rintro rfl; exact hd0 h0
  have hT' : Present ((m.claim n).word d (Mem.dirIx a)) → frame ((m.claim n).word d (Mem.dirIx a)) ≠ 1 := by
    rcases claim_word (m := m) (k := Mem.dirIx a) hnd with e | e <;> simpa [e] using hT
  obtain ⟨m', hm', hs⟩ := (h.claim hn hn1).putPage (n := n) hb hh
    (by simpa [Mem.claim, Function.update_of_ne hn1.symm] using h1) hd hT'
  refine ⟨m', ?_, hs⟩
  unfold Mem.getEmptyPage
  simp only [hg, hm']

end Spare

namespace Marked

theorem refl (m : Mem) : Marked m m := fun _ _ _ => .inl rfl

theorem trans (h : Marked m m') (h' : Marked m' m'') (hl : m'.low = m.low) (hh : m'.high = m.high) : Marked m m'' := by
  intro f w hf
  have hf' : ¬ m'.Managed f := by simpa only [Mem.Managed, hl, hh] using hf
  rcases h f w hf with e | e <;> rcases h' f w hf' with e' | e' <;> rw [e', e]
  · exact .inl rfl
  · exact .inr rfl
  · exact .inr rfl
  · exact .inr (setDirty_setDirty _)

theorem claim (hn : m.Managed n) : Marked m (m.claim n) := by
  intro f w hf
  simp only [Mem.claim]
  rw [if_neg (by rintro rfl; exact hf hn)]
  split
  · exact .inr rfl
  · exact .inl rfl

theorem set (hf : m.Managed f) : Marked m (m.set f k v) := by
  intro g w hg
  rw [Mem.set_word, if_neg (by rintro ⟨rfl, -⟩; exact hg hf)]
  exact .inl rfl

end Marked

end Linux011.Mm
