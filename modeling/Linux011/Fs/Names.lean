/-
A directory as a map from names to entries.

Looking a name up, entering it and clearing its entry are scans of the blocks
(`Scan`). On a directory with all its blocks they are what the abstract map
says: the first entry that has the name, and nothing else is touched by a
change.
-/
import Linux011.Fs.Scan
import Linux011.Lib.Run
import Mathlib.Data.Finset.Card
import Mathlib.Order.Interval.Finset.Nat

namespace Linux011.Fs.Scan

/-- A component of a path: it ends at a slash or at the end of the string, so no byte of it is 0. -/
structure Component where
  bytes : List Nat
  nonempty : bytes ≠ []
  nonzero : 0 ∉ bytes

/-- The name it stands for, cut to `NAME_LEN` bytes. -/
def Component.name (c : Component) : List Nat := c.bytes.take nameLen

/-- The name in an entry, up to a byte 0. -/
def storedIn (de : DirEntry) : List Nat := de.name.takeWhile fun b => b != 0

/-- Entry `i` is in use and has the name. -/
def Dir.Has (d : Dir) (i : Nat) (name : List Nat) : Prop := i < d.entries ∧ (d.at i).inode ≠ 0 ∧ storedIn (d.at i) = name

/-- The entry a scan returns. -/
def Out.place : Out → Option Nat
  | .entry _ i => some i
  | _ => Option.none

theorem Out.place_none : Out.place .none = Option.none := rfl

theorem Out.place_entry (h i : Nat) : Out.place (.entry h i) = some i := rfl

/-- The entry `find_entry` returns, with no block unreadable. -/
def lookup (d : Dir) (root : Bool) (imount : Option Dir) (c : Component) : Option Nat :=
  (findEntry (fun _ => true) d root imount c.bytes).2.place

/-- The inode of an entry is stored. -/
def Dir.setInode (d : Dir) (i nr : Nat) : Dir := d.set i { d.at i with inode := nr }

inductive Op
  /-- `add_entry` of a name that is not found, and inode `nr` stored; `z` is the zone `new_block` would give, 0 if the disk is
  full. -/
  | add (root : Bool) (imount : Option Dir) (c : Component) (nr z : Nat)
  /-- The inode of the entry that is found is cleared. -/
  | clear (root : Bool) (imount : Option Dir) (c : Component)

def Op.name : Op → List Nat
  | .add _ _ c _ _ => c.name
  | .clear _ _ c => c.name

/-- A new zone is none of the directory's. -/
def Dir.fresh (d : Dir) (z : Nat) : Prop := z < 65536 ∧ (z ≠ 0 → ∀ b, d.zone b ≠ z)

/-- The entry made by an addition, if there was room. -/
def Dir.add (d : Dir) (c : Component) (nr z : Nat) : Dir :=
  match addEntry (fun _ => true) d c.bytes z with
  | (d, _, .entry _ i) => d.setInode i nr
  | (d, _, _) => d

/-- The name is not one that `find_entry` treats in a way of its own: `..` in the task's root and in the root of a file system. -/
def ordinary (root : Bool) (imount : Option Dir) (c : Component) : Prop := c.name = dotDot → root = false ∧ imount = none

inductive Step : Dir → Op → Dir → Prop
  | add {d : Dir} {root imount c nr z} : ordinary root imount c → lookup d root imount c = none → nr ≠ 0 → d.fresh z →
      Step d (.add root imount c nr z) (d.add c nr z)
  | clear {d : Dir} {root imount c i} : ordinary root imount c → lookup d root imount c = some i →
      Step d (.clear root imount c) (d.setInode i 0)

/-- `i_size` is a multiple of the size of an entry, and all blocks are there, each with a zone of its own; names have 14 bytes. -/
structure Dir.Ok (d : Dir) : Prop where
  aligned : d.size % 16 = 0
  blocks : ∀ b, 1024 * b < d.size → d.zone b ≠ 0
  distinct : ∀ b b', d.zone b = d.zone b' → d.zone b ≠ 0 → b = b'
  small : ∀ b, d.zone b < 65536
  names : ∀ z k, (d.entry z k).name.length = nameLen

/-! ## Names -/

theorem Component.name_ne_nil (c : Component) : c.name ≠ [] := by
  intro he
  rcases List.take_eq_nil_iff.1 he with h0 | h0
  · cases h0
  · exact c.nonempty h0

theorem Component.name_length (c : Component) : c.name.length ≤ nameLen := List.length_take_le _ _

theorem Component.name_nonzero (c : Component) : 0 ∉ c.name := fun h => c.nonzero (List.mem_of_mem_take h)

/-- `match` is a comparison of names. -/
theorem matchName_iff {name : List Nat} (hz : 0 ∉ name) {de : DirEntry} (hde : de.name.length = nameLen) :
    matchName name de = true ↔ de.inode ≠ 0 ∧ storedIn de = name := by
  have hall : ∀ b ∈ name, (b != 0) = true := fun b hb => bne_iff_ne.2 fun e => hz (e ▸ hb)
  simp only [matchName, Bool.and_eq_true, bne_iff_ne, ne_eq, Bool.or_eq_true, beq_iff_eq, and_assoc]
  refine and_congr_right fun _ => ⟨fun h => ?_, fun h => ?_⟩
  · obtain ⟨hend, htake⟩ := h
    -- behind the bytes compared the stored name ends
    have hsplit := List.take_append_drop name.length de.name
    rw [htake] at hsplit
    have hrest : (de.name.drop name.length).takeWhile (fun b => b != 0) = [] := by
      rcases Nat.lt_or_ge name.length de.name.length with hlt | hge
      · rw [List.drop_eq_getElem_cons hlt, List.takeWhile_cons]
        have h0 : de.name.getD name.length 0 = 0 := hend.resolve_left (by omega)
        rw [List.getD_eq_getElem _ _ hlt] at h0
        rw [h0]
        rfl
      · rw [List.drop_eq_nil_of_le hge]
        rfl
    rw [storedIn, ← hsplit, List.takeWhile_append_of_pos hall, hrest, List.append_nil]
  · have hsplit := List.takeWhile_append_dropWhile (p := fun b => b != 0) (l := de.name)
    rw [show de.name.takeWhile (fun b => b != 0) = name from h] at hsplit
    refine ⟨?_, ?_⟩
    · cases hrest : de.name.dropWhile fun b => b != 0 with
      | nil =>
        rw [hrest, List.append_nil] at hsplit
        exact .inl (hsplit ▸ hde)
      | cons b rest =>
        have hb := List.head?_dropWhile_not (fun b => b != 0) de.name
        rw [hrest] at hb hsplit
        right
        rw [← hsplit, List.getD_append_right _ _ _ _ (Nat.le_refl _), Nat.sub_self, List.getD_cons_zero]
        simpa using hb
    · rw [← hsplit, List.take_left]

theorem Dir.Ok.matchName {d : Dir} (h : d.Ok) (c : Component) (i : Nat) :
    matchName c.name (d.at i) = true ↔ (d.at i).inode ≠ 0 ∧ storedIn (d.at i) = c.name :=
  matchName_iff c.name_nonzero (h.names _ _)

/-! ## Lookups -/

/-- The first entry that has the name. -/
def firstMatch (d : Dir) (name : List Nat) : Option Nat := (List.range d.entries).find? fun i => Scan.matchName name (d.at i)

/-- A directory has at most as many blocks as there are zones. -/
theorem Dir.Ok.size_le {d : Dir} (h : d.Ok) : d.size ≤ 1024 * 65535 := by
  have hsub : (Finset.range ((d.size + 1023) / 1024)).image d.zone ⊆ Finset.Ioo 0 65536 := by
    intro z hz
    obtain ⟨b, hb, rfl⟩ := Finset.mem_image.1 hz
    have := h.blocks b (by have := Finset.mem_range.1 hb; omega)
    exact Finset.mem_Ioo.2 ⟨by omega, h.small b⟩
  have hcard := Finset.card_le_card hsub
  rw [Finset.card_image_of_injOn, Finset.card_range, Nat.card_Ioo] at hcard
  · omega
  · intro b hb b' _ he
    exact h.distinct b b' he (h.blocks b (by have := Finset.mem_range.1 (Finset.mem_coe.1 hb); omega))

/-- Without the special cases of `..`, `find_entry` finds the first entry that has the name. -/
theorem Dir.Ok.lookup_eq {d : Dir} (h : d.Ok) {root : Bool} {imount : Option Dir} {c : Component} (hc : ordinary root imount c) :
    lookup d root imount c = firstMatch d c.name := by
  have hscan : scanned d root imount c.name = d := by
    unfold scanned
    split
    · rename_i hdot
      rw [(hc hdot.1).2]
      rfl
    · rfl
  have hsought : sought root c.name = c.name := if_neg fun hdot => by
    have := (hc hdot.1).1
    rw [hdot.2] at this
    cases this
  have hentries : d.entries = d.size / 16 := rfl
  have hsize := h.size_le
  have hmax : maxBlock = 262663 := rfl
  have hpresent (b : Nat) (hb : 1024 * b < d.size) : d.present (fun _ => true) b := ⟨h.blocks b hb, rfl⟩
  unfold lookup
  simp only [findEntry]
  rw [← Component.name, hscan, hsought, if_neg c.name_ne_nil]
  by_cases hz : d.zone 0 = 0
  · have hempty : d.entries = 0 := by
      have : ¬1024 * 0 < d.size := fun hlt => h.blocks 0 hlt hz
      omega
    rw [if_pos (Or.inl hz), firstMatch, hempty]
    rfl
  · rw [if_neg fun h0 => h0.elim hz Bool.noConfusion]
    have hf : Finds (fun _ => true) d d.entries c.name 0 0 _ := findLoop_spec (by omega)
      (fun b hb => hpresent b (by omega)) (d.entries + 1) (k := 0) (b := 0) 1 (by omega) (by omega) (by omega)
      (by omega)
    rw [Result.after_snd]
    rcases hf.ends with hn | ⟨b, i, hn⟩
    · rw [hn, Out.place_none, eq_comm, firstMatch, List.find?_eq_none]
      intro j hj hm
      have hlt := List.mem_range.1 hj
      rcases hf.looks j (Nat.zero_le j) hlt (hpresent _ (by omega)) with hl | ⟨b, i, he, _⟩
      · obtain ⟨b, he⟩ := hf.first j hl hm
        cases hn.symm.trans he
      · cases hn.symm.trans he
    · obtain ⟨-, hlt, hm⟩ := hf.found b i hn
      rw [hn, Out.place_entry, eq_comm, firstMatch, List.find?_range_eq_some]
      refine ⟨hm, List.mem_range.2 hlt, fun j hj => ?_⟩
      rw [Bool.not_eq_true']
      refine Bool.eq_false_iff.2 fun hmj => ?_
      rcases hf.looks j (Nat.zero_le j) (by omega) (hpresent _ (by omega)) with hl | ⟨b', i', he, hlt'⟩
      · obtain ⟨b', he⟩ := hf.first j hl hmj
        cases hn.symm.trans he
        exact Nat.lt_irrefl _ hj
      · cases hn.symm.trans he
        omega

theorem firstMatch_some {d : Dir} {name : List Nat} {i : Nat} :
    firstMatch d name = some i ↔ i < d.entries ∧ Scan.matchName name (d.at i) = true ∧
      ∀ j < i, Scan.matchName name (d.at j) = false := by
  rw [firstMatch, List.find?_range_eq_some, List.mem_range]
  simp only [Bool.not_eq_true']
  exact ⟨fun h => ⟨h.2.1, h.1, h.2.2⟩, fun h => ⟨h.2.1, h.1, h.2.2⟩⟩

theorem firstMatch_none {d : Dir} {name : List Nat} :
    firstMatch d name = none ↔ ∀ i < d.entries, Scan.matchName name (d.at i) = false := by
  simp [firstMatch, List.find?_eq_none]

/-- Lookups agree where the entries agree on the name, and a directory that got longer has no more of it. -/
theorem firstMatch_congr {d d' : Dir} {name : List Nat} (hle : d.entries ≤ d'.entries)
    (hsame : ∀ i < d.entries, Scan.matchName name (d'.at i) = Scan.matchName name (d.at i))
    (hnew : ∀ i, d.entries ≤ i → i < d'.entries → Scan.matchName name (d'.at i) = false) :
    firstMatch d' name = firstMatch d name := by
  cases hf : firstMatch d name with
  | none =>
    rw [firstMatch_none] at hf ⊢
    intro i hi
    rcases Nat.lt_or_ge i d.entries with hlt | hge
    · rw [hsame i hlt, hf i hlt]
    · exact hnew i hge hi
  | some i =>
    rw [firstMatch_some] at hf ⊢
    obtain ⟨hi, hm, hbefore⟩ := hf
    exact ⟨by omega, by rw [hsame i hi, hm], fun j hj => by rw [hsame j (by omega), hbefore j hj]⟩

/-! ## Changes of an entry -/

theorem Dir.set_at {d : Dir} (hd : ∀ b b', d.zone b = d.zone b' → d.zone b ≠ 0 → b = b') {i : Nat} (hz : d.zone (i / 64) ≠ 0)
    (de : DirEntry) (j : Nat) : (d.set i de).at j = if j = i then de else d.at j := by
  unfold Dir.at Dir.set
  simp only
  by_cases hb : d.zone (j / 64) = d.zone (i / 64)
  · have hji : i / 64 = j / 64 := hd _ _ hb.symm hz
    rw [hb, Function.update_self]
    by_cases hk : j % 64 = i % 64
    · rw [hk, Function.update_self, if_pos (by omega)]
    · rw [Function.update_of_ne hk, if_neg fun e => hk (congrArg (· % 64) e)]
  · rw [Function.update_of_ne hb, if_neg fun e => hb (by rw [e])]

theorem Dir.Ok.set {d : Dir} (h : d.Ok) (i : Nat) {de : DirEntry} (hde : de.name.length = nameLen) : (d.set i de).Ok where
  aligned := h.aligned
  blocks := h.blocks
  distinct := h.distinct
  small := h.small
  names z k := by
    simp only [Dir.set, Function.update_apply]
    split
    · rw [Function.update_apply]
      split
      · exact hde
      · exact h.names _ _
    · exact h.names _ _

theorem Dir.Ok.create {d : Dir} (h : d.Ok) (b : Nat) {z : Nat} (hz : d.fresh z) (h0 : z ≠ 0) : (d.create b z).Ok where
  aligned := h.aligned
  blocks b' hb' := by
    simp only [Dir.create, Function.update_apply]
    split
    · exact h0
    · exact h.blocks b' hb'
  distinct b' b'' he hne := by
    simp only [Dir.create, Function.update_apply] at he hne
    split at he <;> split at he <;> rename_i h1 h2
    · exact h1.trans h2.symm
    · exact absurd he.symm (hz.2 h0 b'')
    · exact absurd he (hz.2 h0 b')
    · rw [if_neg h1] at hne
      exact h.distinct b' b'' he hne
  small b' := by
    simp only [Dir.create, Function.update_apply]
    split
    · exact hz.1
    · exact h.small b'
  names z' k := by
    simp only [Dir.create, Function.update_apply]
    split
    · rfl
    · exact h.names z' k

/-- A new block changes no entry. -/
theorem Dir.Ok.create_at {d : Dir} (h : d.Ok) {b z : Nat} (hz : d.fresh z) (h0 : z ≠ 0) (hb : d.zone b = 0) {j : Nat}
    (hj : j < d.entries) : (d.create b z).at j = d.at j := by
  have hne : j / 64 ≠ b := fun e => h.blocks (j / 64) (by unfold Dir.entries at hj; omega) (e ▸ hb)
  simp only [Dir.at, Dir.create]
  rw [Function.update_of_ne hne, Function.update_of_ne (hz.2 h0 _)]

theorem storedName_length {name : List Nat} (h : name.length ≤ nameLen) : (storedName name).length = nameLen := by
  rw [storedName, List.length_append, List.length_replicate]
  omega

theorem storedIn_storedName (c : Component) (nr : Nat) : storedIn { inode := nr, name := storedName c.name } = c.name := by
  have hall : ∀ b ∈ c.name, (b != 0) = true := fun b hb => bne_iff_ne.2 fun e => c.name_nonzero (e ▸ hb)
  have hzeros : (List.replicate (nameLen - c.name.length) 0).takeWhile (fun b => b != 0) = [] := by
    rw [List.takeWhile_replicate]
    rfl
  rw [storedIn, storedName, List.takeWhile_append_of_pos hall, hzeros, List.append_nil]

/-! ## Additions -/

/-- The entry an addition takes: the first free one, or one more at the end. -/
def Dir.Slot (d : Dir) (i : Nat) (d' : Dir) : Prop :=
  (∀ l < i, (d.at l).inode ≠ 0) ∧
    (i < d.entries ∧ (d.at i).inode = 0 ∧ d'.size = d.size ∨ i = d.entries ∧ d'.size = d.size + 16)

/-- What an addition comes to: there is no room, or an entry is taken and the others are what they were. -/
inductive Dir.Added (d : Dir) (c : Component) (nr z : Nat) (d' : Dir) : Prop
  | full : d' = d → z = 0 ∨ d.zone 0 = 0 → (∀ l < d.entries, (d.at l).inode ≠ 0) → Added d c nr z d'
  | entry (i : Nat) : d.Slot i d' → d'.Ok → d'.at i = { inode := nr, name := storedName c.name } →
      (∀ j < d.entries, j ≠ i → d'.at j = d.at j) → Added d c nr z d'

/-- The name is stored, and the size is what it was or one entry more. -/
theorem take_some {d d' : Dir} {name : List Nat} {i : Nat} (h : take d name i = some d') :
    d'.zone = d.zone ∧ d'.entry = (d.set i { inode := 0, name := storedName name }).entry ∧
      (d.size ≤ 16 * i ∧ d'.size = 16 * (i + 1) ∨ 16 * i < d.size ∧ (d.at i).inode = 0 ∧ d'.size = d.size) := by
  unfold take at h
  split at h
  · rename_i hend
    cases h
    exact ⟨rfl, rfl, .inl ⟨hend, rfl⟩⟩
  · rename_i hend
    split at h
    · rename_i hfree
      cases h
      exact ⟨rfl, rfl, .inr ⟨Nat.not_le.1 hend, hfree, rfl⟩⟩
    · cases h

/-- An entry of a block that is there is taken. -/
theorem Dir.Ok.take {d d₀ d₁ : Dir} (h₀ : d₀.Ok) (hsize : d₀.size = d.size) (hat : ∀ j < d.entries, d₀.at j = d.at j)
    (c : Component) (nr z : Nat) {i : Nat} (hz : d₀.zone (i / 64) ≠ 0)
    (hbefore : ∀ l < i, 16 * l < d.size ∧ (d.at l).inode ≠ 0) (ht : Scan.take d₀ c.name i = some d₁) :
    d.Added c nr z (d₁.setInode i nr) := by
  have hlen : (storedName c.name).length = nameLen := storedName_length c.name_length
  have hentries : d.entries = d.size / 16 := rfl
  have haligned := h₀.aligned
  obtain ⟨hzone, hentry, hslot⟩ := take_some ht
  have hset : (d₀.set i { inode := 0, name := storedName c.name }).Ok := h₀.set i hlen
  rw [hsize] at haligned hslot
  -- the entry taken is below the end, or the one at the end
  have hi : d.size ≤ 16 * i → i = d.entries := fun hend => by
    refine Nat.le_antisymm (Nat.not_lt.1 fun hlt => ?_) (by omega)
    have := (hbefore d.entries hlt).1
    omega
  have hok : d₁.Ok := by
    refine ⟨by omega, fun b hb => ?_, by rw [hzone]; exact h₀.distinct, by rw [hzone]; exact h₀.small,
      by rw [hentry]; exact hset.names⟩
    rw [hzone]
    rcases Nat.lt_or_ge (1024 * b) d₀.size with hlt | hge
    · exact h₀.blocks b hlt
    · have hb : b = i / 64 := by
        rcases hslot with ⟨hend, he⟩ | ⟨_, _, he⟩
        · have := hi hend
          omega
        · omega
      exact hb ▸ hz
  have hat₁ (j : Nat) : d₁.at j = if j = i then { inode := 0, name := storedName c.name } else d₀.at j := by
    rw [← Dir.set_at h₀.distinct hz]
    simp only [Dir.at, hzone, hentry]
    rfl
  have hat₂ (j : Nat) : (d₁.setInode i nr).at j = if j = i then { inode := nr, name := storedName c.name } else d₀.at j := by
    rw [Dir.setInode, Dir.set_at hok.distinct (by rwa [hzone]), hat₁, hat₁, if_pos rfl]
    split <;> rfl
  refine .entry i ⟨fun l hl => (hbefore l hl).2, ?_⟩ (hok.set i (hok.names _ _)) ((hat₂ i).trans (if_pos rfl))
    fun j hj hne => ((hat₂ j).trans (if_neg hne)).trans (hat j hj)
  change i < d.entries ∧ (d.at i).inode = 0 ∧ d₁.size = d.size ∨ i = d.entries ∧ d₁.size = d.size + 16
  rcases hslot with ⟨hend, he⟩ | ⟨hlt, hfree, he⟩
  · have := hi hend
    exact .inr ⟨this, by omega⟩
  · have hlt : i < d.entries := by omega
    exact .inl ⟨hlt, hat i hlt ▸ hfree, he⟩

theorem Dir.Ok.added {d : Dir} (h : d.Ok) (c : Component) (nr : Nat) {z : Nat} (hz : d.fresh z) : d.Added c nr z (d.add c nr z) := by
  have hentries : d.entries = d.size / 16 := rfl
  have hsize := h.size_le
  have hmax : maxBlock = 262663 := rfl
  unfold Dir.add addEntry
  simp only
  rw [← Component.name, if_neg c.name_ne_nil]
  by_cases h0 : d.zone 0 = 0
  · rw [if_pos (Or.inl h0)]
    have : ¬1024 * 0 < d.size := fun hlt => h.blocks 0 hlt h0
    exact .full rfl (.inr h0) fun l hl => absurd hl (by omega)
  · rw [if_neg fun h1 => h1.elim h0 Bool.noConfusion]
    have hok : AddOk (fun _ => true) d z := ⟨by omega, fun _ _ => rfl, .inr h.blocks, .inl h0⟩
    have ha : Adds d c.name z 0 0 _ := addLoop_spec hok (d.entries + 2) (k := 0) (b := 0) 1 (by omega) (by omega) h0
      (by omega) (by omega)
    rcases ha.ends with ⟨hn, hd⟩ | ⟨b, i, hn⟩
    · obtain ⟨hz0, j, -, hj, hbefore⟩ := ha.full hn
      have hge : d.entries ≤ j := Nat.not_lt.1 fun hlt => h.blocks (j / 64) (by omega) hj
      simp only [Result.after, hn]
      exact .full hd (.inl hz0) fun l hl => (take_size (hbefore l (Nat.zero_le l) (by omega))).2
    · obtain ⟨-, hbefore, htaken⟩ := ha.taken b i hn
      have hbefore' : ∀ l < i, 16 * l < d.size ∧ (d.at l).inode ≠ 0 := fun l hl => take_size (hbefore l (Nat.zero_le l) hl)
      simp only [Result.after, hn]
      rcases htaken with ⟨hb, ht⟩ | ⟨hb, hz0, ht⟩
      · exact h.take rfl (fun _ _ => rfl) c nr z hb hbefore' ht
      · have hnew : (d.create (i / 64) z).zone (i / 64) ≠ 0 := by
          simp only [Dir.create, Function.update_self]
          exact hz0
        exact (h.create (i / 64) hz hz0).take (d := d) rfl (fun j hj => h.create_at hz hz0 hb hj) c nr z hnew hbefore' ht

/-! ## Runs -/

/-- An entry in use that has another name is none that is looked for. -/
theorem Dir.Ok.not_match {d : Dir} (h : d.Ok) {c : Component} {i : Nat}
    (hi : (d.at i).inode = 0 ∨ storedIn (d.at i) ≠ c.name) : Scan.matchName c.name (d.at i) = false := by
  refine Bool.eq_false_iff.2 fun hm => ?_
  obtain ⟨h1, h2⟩ := (h.matchName c i).1 hm
  exact hi.elim (fun h0 => h1 h0) fun hne => hne h2

theorem Dir.Added.entries {d d' : Dir} {i : Nat} (hs : d.Slot i d') :
    d.entries ≤ d'.entries ∧ ∀ j, d.entries ≤ j → j < d'.entries → j = i := by
  unfold Dir.entries
  rcases hs.2 with ⟨_, _, he⟩ | ⟨hi, he⟩
  · rw [he]
    exact ⟨Nat.le_refl _, fun j hj hlt => absurd hlt (Nat.not_lt.2 hj)⟩
  · unfold Dir.entries at hi
    rw [he]
    exact ⟨by omega, fun j hj hlt => by omega⟩

/-- An addition does not change what another name is looked up as. -/
theorem Dir.Ok.added_other {d d' : Dir} (h : d.Ok) {c c' : Component} {nr z : Nat} (ha : d.Added c nr z d') (hne : c'.name ≠ c.name) :
    firstMatch d' c'.name = firstMatch d c'.name := by
  cases ha with
  | full he _ _ => rw [he]
  | entry i hs hok hi hj =>
    have hnot : Scan.matchName c'.name (d'.at i) = false := hok.not_match (.inr (by rw [hi, storedIn_storedName]; exact hne.symm))
    obtain ⟨hle, hlast⟩ := Dir.Added.entries hs
    refine firstMatch_congr hle (fun j hlt => ?_) fun j hge hlt => hlast j hge hlt ▸ hnot
    by_cases hji : j = i
    · subst hji
      rcases hs.2 with ⟨_, hfree, _⟩ | ⟨he, _⟩
      · rw [hnot, h.not_match (.inl hfree)]
      · omega
    · rw [hj j hlt hji]

/-- The name that was added is found. -/
theorem Dir.Ok.added_self {d d' : Dir} {c : Component} {nr i : Nat} (hs : d.Slot i d') (hok : d'.Ok)
    (hi : d'.at i = { inode := nr, name := storedName c.name }) (hj : ∀ j < d.entries, j ≠ i → d'.at j = d.at j) (hnr : nr ≠ 0)
    (hnone : firstMatch d c.name = none) : firstMatch d' c.name = some i := by
  rw [firstMatch_none] at hnone
  have hlt : i < d'.entries := by
    unfold Dir.entries
    rcases hs.2 with ⟨hlt, _, he⟩ | ⟨heq, he⟩
    · rw [he]
      exact hlt
    · unfold Dir.entries at heq
      omega
  have hle : i ≤ d.entries := by rcases hs.2 with ⟨hlt, _⟩ | ⟨heq, _⟩ <;> omega
  refine firstMatch_some.2 ⟨hlt, (hok.matchName c i).2 ?_, fun j hj' => ?_⟩
  · rw [hi]
    exact ⟨hnr, storedIn_storedName c nr⟩
  · rw [hj j (by omega) (by omega), hnone j (by omega)]

/-- The inode of an entry is cleared. -/
theorem Dir.Ok.clear_at {d : Dir} (h : d.Ok) {i : Nat} (hi : i < d.entries) (j : Nat) :
    (d.setInode i 0).at j = if j = i then { d.at i with inode := 0 } else d.at j :=
  Dir.set_at h.distinct (h.blocks _ (by unfold Dir.entries at hi; omega)) _ j

theorem Dir.Ok.clear_other {d : Dir} (h : d.Ok) {c c' : Component} {i : Nat} (hf : firstMatch d c.name = some i)
    (hne : c'.name ≠ c.name) : firstMatch (d.setInode i 0) c'.name = firstMatch d c'.name := by
  obtain ⟨hi, hm, -⟩ := firstMatch_some.1 hf
  have hstored := ((h.matchName c i).1 hm).2
  have hok : (d.setInode i 0).Ok := h.set i (h.names _ _)
  refine firstMatch_congr (Nat.le_refl _) (fun j _ => ?_) fun j hge hlt => absurd hlt (Nat.not_lt.2 hge)
  by_cases hji : j = i
  · subst hji
    have hfree : ((d.setInode j 0).at j).inode = 0 := by rw [h.clear_at hi, if_pos rfl]
    rw [hok.not_match (.inl hfree), h.not_match (.inr (by rw [hstored]; exact hne.symm))]
  · rw [h.clear_at hi, if_neg hji]

theorem Step.ok {d d' : Dir} {o : Op} (hs : Step d o d') (h : d.Ok) : d'.Ok := by
  cases hs with
  | @add root imount c nr z _ _ _ hz =>
    cases h.added c nr hz with
    | full he _ _ => exact he.symm ▸ h
    | entry _ _ hok _ _ => exact hok
  | clear _ _ => exact h.set _ (h.names _ _)

/-- **A directory is a finite map on names.** From every directory with all its blocks, after any sequence of additions and
removals: a name is found where an entry has it, and found if there is one; an addition takes the first free entry or one more at
the end, where the name is then found, unless the disk is full; and no step changes where another name is found. -/
theorem directory_is_map {d₀ d : Dir} (h₀ : d₀.Ok) (h : Run.Reaches Step d₀ d) :
    (∀ root imount c, ordinary root imount c →
      (∀ i, lookup d root imount c = some i → d.Has i c.name) ∧
        ((lookup d root imount c).isSome ↔ ∃ i, d.Has i c.name)) ∧
    (∀ root imount c nr z d', Step d (.add root imount c nr z) d' →
      (d' = d ∧ (z = 0 ∨ d.zone 0 = 0) ∧ ∀ l < d.entries, (d.at l).inode ≠ 0) ∨
        ∃ i, d.Slot i d' ∧ lookup d' root imount c = some i ∧ (d'.at i).inode = nr) ∧
    ∀ o d', Step d o d' → ∀ root imount c, ordinary root imount c → c.name ≠ o.name →
      lookup d' root imount c = lookup d root imount c := by
  have hok : d.Ok := h.invariant (I := Dir.Ok) (fun _ _ _ hd hs => hs.ok hd) h₀
  refine ⟨fun root imount c hc => ?_, fun root imount c nr z d' hs => ?_, fun o d' hs root imount c hc hne => ?_⟩
  · rw [hok.lookup_eq hc]
    have hhas : ∀ i, firstMatch d c.name = some i → d.Has i c.name := fun i hi => by
      obtain ⟨hlt, hm, -⟩ := firstMatch_some.1 hi
      exact ⟨hlt, (hok.matchName c i).1 hm⟩
    refine ⟨hhas, fun hsome => ?_, fun hex => ?_⟩
    · obtain ⟨i, hi⟩ := Option.isSome_iff_exists.1 hsome
      exact ⟨i, hhas i hi⟩
    · obtain ⟨i, hlt, hi⟩ := hex
      cases hf : firstMatch d c.name with
      | none =>
        have := firstMatch_none.1 hf i hlt
        rw [(hok.matchName c i).2 hi] at this
        cases this
      | some j => rfl
  · have hok' := hs.ok hok
    cases hs with
    | add hc hnone hnr hz =>
      rw [hok.lookup_eq hc] at hnone
      cases hok.added c nr hz with
      | full he hfull hall => exact .inl ⟨he, hfull, hall⟩
      | entry i hslot _ hi hj =>
        refine .inr ⟨i, hslot, ?_, by rw [hi]⟩
        rw [hok'.lookup_eq hc]
        exact Dir.Ok.added_self hslot hok' hi hj hnr hnone
  · rw [(hs.ok hok).lookup_eq hc, hok.lookup_eq hc]
    cases hs with
    | @add _ _ c' nr z _ _ _ hz => exact hok.added_other (hok.added c' nr hz) hne
    | clear hc' hf =>
      rw [hok.lookup_eq hc'] at hf
      exact hok.clear_other hf hne

theorem threeBlocks_zone (b : Nat) : (threeBlocks 2 5).zone b = if b < 3 then b + 1 else 0 := by
  simp only [threeBlocks]
  split
  · rename_i hb
    rw [hb]
    decide
  · rfl

theorem threeBlocks_ok : (threeBlocks 2 5).Ok where
  aligned := by decide
  blocks b hb := by
    have hb : 1024 * b < 3072 := hb
    rw [threeBlocks_zone, if_pos (by omega)]
    omega
  distinct b b' he hne := by
    rw [threeBlocks_zone] at he hne
    rw [threeBlocks_zone] at he
    split at he
    · split at he
      · omega
      · cases he
    · rename_i hb
      rw [if_neg hb] at hne
      exact absurd rfl hne
  small b := by
    rw [threeBlocks_zone]
    split <;> omega
  names z k := by
    simp only [threeBlocks]
    split
    · rfl
    · split <;> rfl

/-- `a`. -/
def nameA : Component := { bytes := [97], nonempty := by decide, nonzero := by decide }

/-- The three blocks are full, and the new entry is in a fourth. -/
theorem directory_is_map_fourth : lookup ((threeBlocks 2 5).add nameA 9 7) false none nameA = some 192 ∧
    ((threeBlocks 2 5).add nameA 9 7).Has 192 [97] := by
  have hstep : Step (threeBlocks 2 5) (.add false none nameA 9 7) ((threeBlocks 2 5).add nameA 9 7) := by
    refine .add (fun _ => ⟨rfl, rfl⟩) (by decide +kernel) (by decide) ⟨by decide, fun _ b => ?_⟩
    rw [threeBlocks_zone]
    split <;> omega
  have hfound : lookup ((threeBlocks 2 5).add nameA 9 7) false none nameA = some 192 := by decide +kernel
  exact ⟨hfound, ((directory_is_map threeBlocks_ok (.snoc .refl hstep)).1 false none nameA fun _ => ⟨rfl, rfl⟩).1 192 hfound⟩

end Linux011.Fs.Scan
