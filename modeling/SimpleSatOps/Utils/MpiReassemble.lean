import Mathlib.Data.List.GetD
import Mathlib.Data.List.Perm.Basic
import Mathlib.Tactic
import SimpleSatOps.Basic
import SimpleSatOps.Lib.Fold

/-!
# Reassembling a downlinked file (`reassemble` of `mpi_reconstruct.c`)

* `Chunk`, `Image` : a bulk-file packet with its offset and trust, and the state of the two passes;
* `Image.putByte`, `Image.lay`, `reassemble` : one byte, one chunk, the two passes over all chunks;
* `valuesAt` : what the chunks of a list say about one byte of the file;
* `cell_lay_clean`, `cell_lay_rest` : a clean chunk wins over what is there, the others fill what is missing;
* `reassemble_eq` : every byte of the result in terms of `valuesAt`.
-/

namespace SimpleSatOps.MpiReconstruct

/-- The part of `chunk_t` that `reassemble` reads. -/
structure Chunk where
  off : ℕ
  /-- `rs_errs` : the corrected errors, or `-2`. -/
  rs : ℤ
  data : List UInt8

def Chunk.clean (c : Chunk) : Bool := 0 ≤ c.rs

/-- The locals of `reassemble`; `minOff` is `none` for `-1`. -/
structure Image where
  buf : List UInt8
  present : List Bool
  minOff : Option ℕ
  conflicts : ℕ

/-- What the caller of `reassemble` is given. -/
structure File where
  size : ℕ
  buf : List UInt8
  present : List Bool
  minOff : ℕ
  conflicts : ℕ

/-! ## The two passes -/

/-- `buf[i] = v; present[i] = 1`. -/
def Image.mark (m : Image) (i : ℕ) (v : UInt8) : Image :=
  { m with buf := m.buf.set i v, present := m.present.set i true }

/-- `if (phase == 0 && buf[i] != v) conflicts++`. -/
def Image.compare (phase : ℕ) (m : Image) (i : ℕ) (v : UInt8) : Image :=
  { m with conflicts := if phase = 0 ∧ m.buf.getD i 0 ≠ v then m.conflicts + 1 else m.conflicts }

/-- The body of the loop over the bytes of a chunk. -/
def Image.putByte (phase : ℕ) (m : Image) (i : ℕ) (v : UInt8) : Image :=
  if m.present.getD i false then
    let m := m.compare phase i v
    if phase = 1 then m else m.mark i v
  else m.mark i v

/-- The loop over the bytes of a chunk, from the byte `i` of the file on. -/
def Image.layBytes (phase size : ℕ) : ℕ → List UInt8 → Image → Image
  | _, [], m => m
  | i, v :: vs, m => if i < size then layBytes phase size (i + 1) vs (m.putByte phase i v) else m

/-- `if (min_off < 0 || off < min_off) min_off = off`. -/
def lower : Option ℕ → ℕ → Option ℕ
  | none, off => some off
  | some m, off => some (if off < m then off else m)

def Image.lay (phase size : ℕ) (m : Image) (c : Chunk) : Image :=
  if (phase == 0) != c.clean then m else
    let m := m.layBytes phase size c.off c.data
    { m with minOff := lower m.minOff c.off }

/-- The first loop: the span of the file. -/
def fileSize (cs : List Chunk) : ℕ :=
  cs.foldl (fun size c => if size < c.off + c.data.length then c.off + c.data.length else size) 0

def blank (fill : UInt8) (size : ℕ) : Image :=
  ⟨List.replicate size fill, List.replicate size false, none, 0⟩

def passes (fill : UInt8) (size : ℕ) (cs : List Chunk) : Image :=
  [0, 1].foldl (fun m phase => cs.foldl (Image.lay phase size) m) (blank fill size)

/-- `reassemble` of the chunks in the order the caller names them, the two allocations succeeding. -/
def reassemble (fill : UInt8) (cs : List Chunk) : Option File :=
  let size := fileSize cs
  if size ≤ 0 then none else
    let m := passes fill size cs
    some ⟨size, m.buf, m.present, m.minOff.getD 0, m.conflicts⟩

/-! ## What the chunks say -/

/-- The value a chunk has for the byte `i` of the file. -/
def Chunk.value (c : Chunk) (i : ℕ) : Option UInt8 := if c.off ≤ i then c.data[i - c.off]? else none

/-- The values a list of chunks has for the byte `i`, in its order. -/
def valuesAt (cs : List Chunk) (i : ℕ) : List UInt8 := cs.filterMap (·.value i)

def cleanOf (cs : List Chunk) : List Chunk := cs.filter (·.clean)

def restOf (cs : List Chunk) : List Chunk := cs.filter (!·.clean)

/-- Two chunks have the same value wherever both have one. -/
def Agree (c d : Chunk) : Prop := ∀ i a b, c.value i = some a → d.value i = some b → a = b

/-- The clean chunks agree wherever they overlap. -/
def CleanAgree (cs : List Chunk) : Prop := ∀ c ∈ cleanOf cs, ∀ d ∈ cleanOf cs, Agree c d

/-- The uncorrectable chunks agree on every byte that no clean chunk covers. -/
def RestAgree (cs : List Chunk) : Prop :=
  ∀ c ∈ restOf cs, ∀ d ∈ restOf cs, ∀ i a b, valuesAt (cleanOf cs) i = [] →
    c.value i = some a → d.value i = some b → a = b

/-! ## One byte of the image -/

/-- The byte `i` of the file, when it is present. -/
def Image.cell (m : Image) (i : ℕ) : Option UInt8 := if m.present.getD i false then some (m.buf.getD i 0) else none

theorem isSome_cell (m : Image) (i : ℕ) : (m.cell i).isSome = m.present.getD i false := by
  unfold Image.cell
  cases h : m.present.getD i false <;> rfl

theorem getD_of_cell {m : Image} {i : ℕ} {v : UInt8} (h : m.cell i = some v) : m.buf.getD i 0 = v := by
  unfold Image.cell at h
  split_ifs at h
  exact Option.some.inj h

/-- Both buffers have the size of the file, and a missing byte has the fill value. -/
structure Image.Wf (fill : UInt8) (size : ℕ) (m : Image) : Prop where
  length_buf : m.buf.length = size
  length_present : m.present.length = size
  filled : ∀ i < size, m.cell i = none → m.buf.getD i 0 = fill

/-- The byte after a chunk with the value `new` : in phase 0 the chunk wins, in phase 1 what is there. -/
def laid (phase : ℕ) (old new : Option UInt8) : Option UInt8 := if phase = 1 then old.or new else new.or old

@[simp] theorem laid_none (phase : ℕ) (old : Option UInt8) : laid phase old none = old := by
  unfold laid
  split_ifs <;> simp

theorem laid_empty (phase : ℕ) (v : UInt8) : laid phase none (some v) = some v := by
  unfold laid
  split_ifs <;> rfl

theorem laid_self (phase : ℕ) (v : UInt8) : laid phase (some v) (some v) = some v := by
  unfold laid
  split_ifs <;> rfl

variable {fill : UInt8} {size phase : ℕ} {m : Image}

theorem cell_blank (i : ℕ) : (blank fill size).cell i = none := by
  unfold Image.cell blank
  by_cases h : i < size <;> simp [h]

theorem wf_blank (fill : UInt8) (size : ℕ) : (blank fill size).Wf fill size where
  length_buf := List.length_replicate
  length_present := List.length_replicate
  filled i hi _ := by simp [blank, hi]

theorem cell_mark {i : ℕ} (h : m.Wf fill size) (hi : i < size) (v : UInt8) (j : ℕ) :
    (m.mark i v).cell j = if j = i then some v else m.cell j := by
  have hb : i < m.buf.length := by rw [h.length_buf]; exact hi
  have hp : i < m.present.length := by rw [h.length_present]; exact hi
  unfold Image.cell Image.mark
  by_cases hj : j = i
  · subst hj
    simp [hb, hp]
  · rw [if_neg hj]
    simp [List.getElem?_set_ne (Ne.symm hj)]

theorem wf_mark {i : ℕ} (h : m.Wf fill size) (hi : i < size) (v : UInt8) : (m.mark i v).Wf fill size where
  length_buf := by
    show (m.buf.set i v).length = size
    rw [List.length_set, h.length_buf]
  length_present := by
    show (m.present.set i true).length = size
    rw [List.length_set, h.length_present]
  filled j hj hnone := by
    rw [cell_mark h hi] at hnone
    by_cases hji : j = i
    · simp [hji] at hnone
    · rw [if_neg hji] at hnone
      have hkeep : (m.buf.set i v).getD j 0 = m.buf.getD j 0 := by
        simp [List.getElem?_set_ne (Ne.symm hji)]
      exact hkeep.trans (h.filled j hj hnone)

theorem Image.Wf.compare {i : ℕ} {v : UInt8} (h : m.Wf fill size) : (m.compare phase i v).Wf fill size :=
  ⟨h.length_buf, h.length_present, h.filled⟩

theorem wf_putByte {i : ℕ} (h : m.Wf fill size) (hi : i < size) (v : UInt8) : (m.putByte phase i v).Wf fill size := by
  unfold Image.putByte
  split_ifs
  · exact h.compare
  · exact wf_mark h.compare hi v
  · exact wf_mark h hi v

theorem cell_putByte {i : ℕ} (h : m.Wf fill size) (hi : i < size) (v : UInt8) (j : ℕ) :
    (m.putByte phase i v).cell j = laid phase (m.cell j) (if j = i then some v else none) := by
  have hmark : ∀ m' : Image, m'.Wf fill size → m'.cell j = m.cell j →
      (m'.mark i v).cell j = if j = i then some v else m.cell j := by
    intro m' h' hcell
    rw [cell_mark h' hi, hcell]
  by_cases hj : j = i
  · subst hj
    rw [if_pos rfl]
    unfold Image.putByte laid
    by_cases hp : m.present.getD j false = true
    · have hcell : m.cell j = some (m.buf.getD j 0) := if_pos hp
      rw [if_pos hp]
      by_cases h1 : phase = 1
      · rw [if_pos h1, if_pos h1, hcell]
        exact hcell
      · rw [if_neg h1, if_neg h1, hmark _ h.compare rfl, if_pos rfl]
        rfl
    · have hcell : m.cell j = none := if_neg hp
      rw [if_neg hp, hmark m h rfl, if_pos rfl, hcell]
      split_ifs <;> rfl
  · rw [if_neg hj, laid_none]
    unfold Image.putByte
    split_ifs
    · rfl
    · rw [hmark _ h.compare rfl, if_neg hj]
    · rw [hmark m h rfl, if_neg hj]

@[simp] theorem minOff_putByte (m : Image) (i : ℕ) (v : UInt8) : (m.putByte phase i v).minOff = m.minOff := by
  unfold Image.putByte
  split_ifs <;> rfl

/-- No conflict is counted where the byte is missing, has the same value, or the chunk is not clean. -/
theorem conflicts_putByte {i : ℕ} {v : UInt8} (h : phase = 1 ∨ ∀ w, m.cell i = some w → w = v) :
    (m.putByte phase i v).conflicts = m.conflicts := by
  have hcompare : m.present.getD i false = true → (m.compare phase i v).conflicts = m.conflicts := by
    intro hp
    refine if_neg ?_
    rintro ⟨h0, hne⟩
    rcases h with h | h
    · omega
    · exact hne (h _ (if_pos hp))
  unfold Image.putByte
  split_ifs with hp h1
  · exact hcompare hp
  · exact hcompare hp
  · rfl

/-! ## A chunk -/

/-- What is left of a chunk from the byte `i` on. -/
def valueFrom (i : ℕ) (vs : List UInt8) (j : ℕ) : Option UInt8 := if i ≤ j then vs[j - i]? else none

theorem valueFrom_cons (i : ℕ) (v : UInt8) (vs : List UInt8) (j : ℕ) :
    valueFrom i (v :: vs) j = if j = i then some v else valueFrom (i + 1) vs j := by
  unfold valueFrom
  rcases Nat.lt_trichotomy j i with h | rfl | h
  · rw [if_neg (by omega), if_neg (by omega), if_neg (by omega)]
  · simp
  · rw [if_pos (by omega), if_neg (by omega), if_pos (by omega), show j - i = (j - (i + 1)) + 1 by omega]
    rfl

theorem layBytes_spec (phase : ℕ) : ∀ (vs : List UInt8) (i : ℕ) (m : Image), m.Wf fill size → i + vs.length ≤ size →
    (m.layBytes phase size i vs).Wf fill size ∧
      (∀ j, (m.layBytes phase size i vs).cell j = laid phase (m.cell j) (valueFrom i vs j)) ∧
      (m.layBytes phase size i vs).minOff = m.minOff ∧
      ((phase = 1 ∨ ∀ j v w, valueFrom i vs j = some v → m.cell j = some w → w = v) →
        (m.layBytes phase size i vs).conflicts = m.conflicts)
  | [], i, m, h, _ => by
      refine ⟨h, fun j => ?_, rfl, fun _ => rfl⟩
      have hnone : valueFrom i [] j = none := by simp [valueFrom]
      rw [hnone, laid_none]
      rfl
  | v :: vs, i, m, h, hle => by
      rw [List.length_cons] at hle
      have hi : i < size := by omega
      obtain ⟨hwf, hcell, hmin, hconf⟩ :=
        layBytes_spec phase vs (i + 1) (m.putByte phase i v) (wf_putByte h hi v) (by omega)
      unfold Image.layBytes
      rw [if_pos hi]
      refine ⟨hwf, fun j => ?_, hmin.trans (minOff_putByte m i v), fun hag => ?_⟩
      · rw [hcell, cell_putByte h hi, valueFrom_cons]
        by_cases hj : j = i
        · have hnone : valueFrom (i + 1) vs j = none := if_neg (by omega)
          rw [hnone, laid_none, if_pos hj]
        · rw [if_neg hj, if_neg hj, laid_none]
      · have hfirst : phase = 1 ∨ ∀ w, m.cell i = some w → w = v :=
          hag.imp_right fun hag w hw => hag i v w (by rw [valueFrom_cons, if_pos rfl]) hw
        refine (hconf (hag.imp_right fun hag j v' w hv' hw => ?_)).trans (conflicts_putByte hfirst)
        have hj : j ≠ i := by
          rintro rfl
          simp [valueFrom] at hv'
        rw [cell_putByte h hi, if_neg hj, laid_none] at hw
        exact hag j v' w (by rw [valueFrom_cons, if_neg hj, hv']) hw

theorem value_eq_valueFrom (c : Chunk) (i : ℕ) : c.value i = valueFrom c.off c.data i := rfl

/-- The chunks that a phase looks at. -/
def chosen (phase : ℕ) (cs : List Chunk) : List Chunk := cs.filter fun c => (phase == 0) == c.clean

theorem lay_spec {c : Chunk} (h : m.Wf fill size) (hc : ((phase == 0) == c.clean) = true)
    (hle : c.off + c.data.length ≤ size) :
    (m.lay phase size c).Wf fill size ∧ (∀ j, (m.lay phase size c).cell j = laid phase (m.cell j) (c.value j)) ∧
      (m.lay phase size c).minOff = lower m.minOff c.off ∧
      ((phase = 1 ∨ ∀ j v w, c.value j = some v → m.cell j = some w → w = v) →
        (m.lay phase size c).conflicts = m.conflicts) := by
  obtain ⟨hwf, hcell, hmin, hconf⟩ := layBytes_spec phase c.data c.off m h hle
  unfold Image.lay
  rw [if_neg (by simpa using hc)]
  refine ⟨⟨hwf.length_buf, hwf.length_present, hwf.filled⟩, hcell, ?_, hconf⟩
  show lower (m.layBytes phase size c.off c.data).minOff c.off = lower m.minOff c.off
  rw [hmin]

theorem lay_other {c : Chunk} (hc : ((phase == 0) == c.clean) = false) : m.lay phase size c = m :=
  if_pos (by simpa [bne] using hc)

/-! ## A pass over the chunks -/

/-- A byte after a whole pass: the last clean value, or the first uncorrectable one. -/
def laidAll (phase : ℕ) (old : Option UInt8) (vs : List UInt8) : Option UInt8 :=
  if phase = 1 then old.or vs.head? else vs.getLast?.or old

theorem laidAll_laid (phase : ℕ) (old new : Option UInt8) (vs : List UInt8) :
    laidAll phase (laid phase old new) vs = laidAll phase old (new.toList ++ vs) := by
  unfold laidAll laid
  cases new with
  | none => split_ifs <;> simp
  | some v =>
      split_ifs
      · rw [Option.or_assoc]
        rfl
      · rw [← Option.or_assoc]
        congr 1
        rw [show (some v).toList ++ vs = v :: vs from rfl, List.getLast?_cons]
        cases vs.getLast? <;> rfl

theorem pass_spec (phase : ℕ) : ∀ (cs : List Chunk) (m : Image), m.Wf fill size →
    (∀ c ∈ cs, c.off + c.data.length ≤ size) →
    (cs.foldl (Image.lay phase size) m).Wf fill size ∧
      (∀ j, (cs.foldl (Image.lay phase size) m).cell j = laidAll phase (m.cell j) (valuesAt (chosen phase cs) j)) ∧
      (cs.foldl (Image.lay phase size) m).minOff = ((chosen phase cs).map (·.off)).foldl lower m.minOff ∧
      ((phase = 1 ∨ (∀ c ∈ chosen phase cs, ∀ d ∈ chosen phase cs, Agree c d) ∧
          ∀ c ∈ chosen phase cs, ∀ j v w, c.value j = some v → m.cell j = some w → w = v) →
        (cs.foldl (Image.lay phase size) m).conflicts = m.conflicts)
  | [], m, h, _ => by
      refine ⟨h, fun j => ?_, rfl, fun _ => rfl⟩
      unfold laidAll
      split_ifs <;> simp [chosen, valuesAt]
  | c :: cs, m, h, hle => by
      have hle' : ∀ d ∈ cs, d.off + d.data.length ≤ size := fun d hd => hle d (List.mem_cons_of_mem _ hd)
      rw [List.foldl_cons]
      cases hc : ((phase == 0) == c.clean) with
      | false =>
          have hchosen : chosen phase (c :: cs) = chosen phase cs := List.filter_cons_of_neg (by simp [hc])
          rw [lay_other hc, hchosen]
          exact pass_spec phase cs m h hle'
      | true =>
          have hchosen : chosen phase (c :: cs) = c :: chosen phase cs := List.filter_cons_of_pos hc
          obtain ⟨hwf, hcell, hmin, hconf⟩ := lay_spec h hc (hle c List.mem_cons_self)
          obtain ⟨hwf', hcell', hmin', hconf'⟩ := pass_spec phase cs (m.lay phase size c) hwf hle'
          rw [hchosen]
          refine ⟨hwf', fun j => ?_, ?_, fun hag => ?_⟩
          · rw [hcell', hcell, laidAll_laid]
            congr 1
            unfold valuesAt
            cases hv : c.value j <;> simp [hv]
          · rw [hmin', hmin, List.map_cons, List.foldl_cons]
          · rcases hag with h1 | ⟨hag, hold⟩
            · rw [hconf' (.inl h1), hconf (.inl h1)]
            · rw [hconf' (.inr ⟨?_, ?_⟩), hconf (.inr (hold c List.mem_cons_self))]
              · exact fun d hd e he => hag d (List.mem_cons_of_mem _ hd) e (List.mem_cons_of_mem _ he)
              · intro d hd j v w hv hw
                rw [hcell] at hw
                have hd' : d ∈ c :: chosen phase cs := List.mem_cons_of_mem _ hd
                cases hcv : c.value j with
                | none =>
                    rw [hcv, laid_none] at hw
                    exact hold d hd' j v w hv hw
                | some u =>
                    have huv : u = v := hag c List.mem_cons_self d hd' j u v hcv hv
                    have hold' : ∀ w', m.cell j = some w' → w' = u := fun w' hw' =>
                      hold c List.mem_cons_self j u w' hcv hw'
                    rw [hcv] at hw
                    rw [← huv]
                    cases hm : m.cell j with
                    | none =>
                        rw [hm, laid_empty] at hw
                        exact (Option.some.inj hw).symm
                    | some w' =>
                        rw [hm, hold' w' hm, laid_self] at hw
                        exact (Option.some.inj hw).symm

/-! ## The whole file -/

/-- The byte `i` of the file, when a chunk covers it. -/
def byteAt (cs : List Chunk) (i : ℕ) : Option UInt8 :=
  (valuesAt (cleanOf cs) i).getLast?.or (valuesAt (restOf cs) i).head?

theorem chosen_zero (cs : List Chunk) : chosen 0 cs = cleanOf cs := by simp [chosen, cleanOf]

theorem chosen_one (cs : List Chunk) : chosen 1 cs = restOf cs := by simp [chosen, restOf]

theorem passes_spec {cs : List Chunk} (fill : UInt8) (hle : ∀ c ∈ cs, c.off + c.data.length ≤ size) :
    (passes fill size cs).Wf fill size ∧ (∀ j, (passes fill size cs).cell j = byteAt cs j) ∧
      (passes fill size cs).minOff = ((cleanOf cs ++ restOf cs).map (·.off)).foldl lower none ∧
      (CleanAgree cs → (passes fill size cs).conflicts = 0) := by
  obtain ⟨hwf, hcell, hmin, hconf⟩ := pass_spec 0 cs (blank fill size) (wf_blank fill size) hle
  obtain ⟨hwf', hcell', hmin', hconf'⟩ := pass_spec 1 cs _ hwf hle
  rw [chosen_zero] at hcell hmin hconf
  rw [chosen_one] at hcell' hmin' hconf'
  refine ⟨hwf', fun j => ?_, ?_, fun hag => ?_⟩
  · refine (hcell' j).trans ?_
    rw [hcell, cell_blank]
    unfold laidAll byteAt
    rw [if_pos rfl, if_neg (by decide), Option.or_none]
  · refine hmin'.trans ?_
    rw [hmin, List.map_append, List.foldl_append]
    rfl
  · refine (hconf' (.inl rfl)).trans (hconf (.inr ⟨hag, ?_⟩))
    intro c _ j v w _ hw
    rw [cell_blank] at hw
    exact absurd hw (by simp)

theorem fileSize_eq (cs : List Chunk) : fileSize cs = (cs.map fun c => c.off + c.data.length).foldl max 0 := by
  unfold fileSize
  rw [List.foldl_map]
  congr 1
  funext size c
  split_ifs <;> omega

theorem fileSize_perm {cs cs' : List Chunk} (h : cs'.Perm cs) : fileSize cs' = fileSize cs := by
  rw [fileSize_eq, fileSize_eq]
  exact (h.map _).foldl_eq' (fun x _ y _ z => by omega) 0

theorem le_fileSize {cs : List Chunk} {c : Chunk} (h : c ∈ cs) : c.off + c.data.length ≤ fileSize cs := by
  obtain ⟨pre, post, rfl⟩ := List.append_of_mem h
  have hperm : (pre ++ c :: post).Perm (c :: (pre ++ post)) := List.perm_middle
  rw [fileSize_perm hperm, fileSize_eq, List.map_cons, List.foldl_cons]
  exact foldl_stays (P := fun size => c.off + c.data.length ≤ size) (fun size n h => le_max_of_le_left h) _
    (le_max_right _ _)

theorem getElem_tab {α : Type*} (n : ℕ) (f : ℕ → α) (i : ℕ) (h : i < (tab n f).length) : (tab n f)[i] = f i := by
  simp [tab]

theorem getElem?_tab {α : Type*} {n i : ℕ} (h : i < n) (f : ℕ → α) : (tab n f)[i]? = some (f i) := by
  simp [tab, h]

theorem value_lt_fileSize {cs : List Chunk} {c : Chunk} {i : ℕ} {v : UInt8} (h : c ∈ cs) (hv : c.value i = some v) :
    i < fileSize cs := by
  have hle := le_fileSize h
  unfold Chunk.value at hv
  split_ifs at hv with hoff
  have := (List.getElem?_eq_some_iff.mp hv).1
  omega

/-- The file the chunks describe, byte by byte, with `n` conflicts. -/
def described (fill : UInt8) (cs : List Chunk) (n : ℕ) : File where
  size := fileSize cs
  buf := tab (fileSize cs) fun i => (byteAt cs i).getD fill
  present := tab (fileSize cs) fun i => (byteAt cs i).isSome
  minOff := (((cleanOf cs ++ restOf cs).map (·.off)).foldl lower none).getD 0
  conflicts := n

theorem reassemble_eq (fill : UInt8) {cs : List Chunk} (h : 0 < fileSize cs) :
    ∃ n, reassemble fill cs = some (described fill cs n) ∧ (CleanAgree cs → n = 0) := by
  obtain ⟨hwf, hcell, hmin, hconf⟩ := passes_spec fill fun c hc => le_fileSize hc
  refine ⟨(passes fill (fileSize cs) cs).conflicts, ?_, hconf⟩
  have hbuf : (passes fill (fileSize cs) cs).buf = tab (fileSize cs) fun i => (byteAt cs i).getD fill := by
    refine List.ext_getElem (by rw [hwf.length_buf, length_tab]) fun i hi _ => ?_
    have hi' : i < fileSize cs := hwf.length_buf ▸ hi
    rw [getElem_tab, ← hcell i, ← List.getD_eq_getElem _ 0 hi]
    cases hc : (passes fill (fileSize cs) cs).cell i with
    | none => exact hwf.filled i hi' hc
    | some v => exact getD_of_cell hc
  have hpresent : (passes fill (fileSize cs) cs).present = tab (fileSize cs) fun i => (byteAt cs i).isSome := by
    refine List.ext_getElem (by rw [hwf.length_present, length_tab]) fun i hi _ => ?_
    rw [getElem_tab, ← hcell i, ← List.getD_eq_getElem _ false hi]
    exact (isSome_cell _ i).symm
  unfold reassemble
  rw [if_neg (by omega)]
  show some (File.mk _ (passes fill (fileSize cs) cs).buf (passes fill (fileSize cs) cs).present
    ((passes fill (fileSize cs) cs).minOff.getD 0) _) = _
  rw [hbuf, hpresent, hmin]
  rfl

theorem reassemble_empty (fill : UInt8) {cs : List Chunk} (h : fileSize cs = 0) : reassemble fill cs = none :=
  if_pos (by omega)

theorem reassemble_of_cleanAgree (fill : UInt8) {cs : List Chunk} (h : CleanAgree cs) :
    reassemble fill cs = if fileSize cs = 0 then none else some (described fill cs 0) := by
  by_cases h0 : fileSize cs = 0
  · rw [if_pos h0, reassemble_empty fill h0]
  · obtain ⟨n, heq, hn⟩ := reassemble_eq fill (Nat.pos_of_ne_zero h0)
    rw [if_neg h0, heq, hn h]

/-! ## The order of the chunks -/

theorem mem_valuesAt {cs : List Chunk} {i : ℕ} {v : UInt8} : v ∈ valuesAt cs i ↔ ∃ c ∈ cs, c.value i = some v := by
  simp [valuesAt]

/-- A choice from a list whose entries are all equal does not depend on their order. -/
theorem pick_perm {α : Type*} {pick : List α → Option α} (hmem : ∀ l a, pick l = some a → a ∈ l)
    (hnone : ∀ l, pick l = none → l = []) {l l' : List α} (h : l'.Perm l) (hag : ∀ a ∈ l, ∀ b ∈ l, a = b) :
    pick l' = pick l := by
  cases hl : pick l with
  | none =>
      obtain rfl := hnone l hl
      rw [h.eq_nil, hl]
  | some a =>
      cases hl' : pick l' with
      | none =>
          obtain rfl := hnone l' hl'
          exact absurd (hmem l a hl) (by simp [h.symm.eq_nil])
      | some b => rw [hag b (h.mem_iff.mp (hmem l' b hl')) a (hmem l a hl)]

theorem byteAt_eq_none {cs : List Chunk} {i : ℕ} : byteAt cs i = none ↔ ∀ c ∈ cs, c.value i = none := by
  unfold byteAt valuesAt cleanOf restOf
  rw [Option.or_eq_none_iff, List.getLast?_eq_none_iff, List.head?_eq_none_iff, List.filterMap_eq_nil_iff,
    List.filterMap_eq_nil_iff]
  constructor
  · rintro ⟨hclean, hrest⟩ c hc
    cases hcc : c.clean with
    | true => exact hclean c (List.mem_filter.mpr ⟨hc, hcc⟩)
    | false => exact hrest c (List.mem_filter.mpr ⟨hc, by rw [hcc]; rfl⟩)
  · intro h
    exact ⟨fun c hc => h c (List.mem_filter.mp hc).1, fun c hc => h c (List.mem_filter.mp hc).1⟩

theorem isSome_byteAt_perm {cs cs' : List Chunk} (h : cs'.Perm cs) (i : ℕ) :
    (byteAt cs' i).isSome = (byteAt cs i).isSome := by
  have hnone : byteAt cs' i = none ↔ byteAt cs i = none := by
    rw [byteAt_eq_none, byteAt_eq_none]
    exact ⟨fun hv c hc => hv c (h.mem_iff.mpr hc), fun hv c hc => hv c (h.mem_iff.mp hc)⟩
  cases hb : byteAt cs i with
  | none => rw [hnone.mpr hb]
  | some v =>
      cases hb' : byteAt cs' i with
      | none => exact absurd (hnone.mp hb') (by simp [hb])
      | some w => rfl

theorem minOff_perm {cs cs' : List Chunk} (h : cs'.Perm cs) :
    ((cleanOf cs' ++ restOf cs').map (·.off)).foldl lower none =
      ((cleanOf cs ++ restOf cs).map (·.off)).foldl lower none := by
  refine List.Perm.foldl_eq' (((h.filter _).append (h.filter _)).map _) (fun x _ y _ z => ?_) none
  cases z with
  | none => simp only [lower, Option.some.injEq]; split_ifs <;> omega
  | some z => simp only [lower, Option.some.injEq]; split_ifs <;> omega

theorem byteAt_perm {cs cs' : List Chunk} (h : cs'.Perm cs) (hclean : CleanAgree cs) (hrest : RestAgree cs) (i : ℕ) :
    byteAt cs' i = byteAt cs i := by
  have hlast : (valuesAt (cleanOf cs') i).getLast? = (valuesAt (cleanOf cs) i).getLast? := by
    refine pick_perm (fun l a => List.mem_of_getLast?) (fun l => List.getLast?_eq_none_iff.mp)
      ((h.filter _).filterMap _) fun a ha b hb => ?_
    obtain ⟨c, hc, hca⟩ := mem_valuesAt.mp ha
    obtain ⟨d, hd, hdb⟩ := mem_valuesAt.mp hb
    exact hclean c hc d hd i a b hca hdb
  unfold byteAt
  rw [hlast]
  cases hv : valuesAt (cleanOf cs) i with
  | cons v vs => simp [List.getLast?_cons]
  | nil =>
      have hhead : (valuesAt (restOf cs') i).head? = (valuesAt (restOf cs) i).head? := by
        refine pick_perm (fun l a => List.mem_of_head?) (fun l => List.head?_eq_none_iff.mp)
          ((h.filter _).filterMap _) fun a ha b hb => ?_
        obtain ⟨c, hc, hca⟩ := mem_valuesAt.mp ha
        obtain ⟨d, hd, hdb⟩ := mem_valuesAt.mp hb
        exact hrest c hc d hd i a b hv hca hdb
      rw [hhead]

theorem cleanAgree_perm {cs cs' : List Chunk} (h : cs'.Perm cs) (hclean : CleanAgree cs) : CleanAgree cs' :=
  fun c hc d hd => hclean c ((h.filter _).mem_iff.mp hc) d ((h.filter _).mem_iff.mp hd)

/-- A clean chunk decides its bytes, when the clean chunks agree. -/
theorem byteAt_of_clean {cs : List Chunk} (hclean : CleanAgree cs) {c : Chunk} (hc : c ∈ cleanOf cs) {i : ℕ} {v : UInt8}
    (hv : c.value i = some v) : byteAt cs i = some v := by
  have hmem : v ∈ valuesAt (cleanOf cs) i := mem_valuesAt.mpr ⟨c, hc, hv⟩
  have hlast : (valuesAt (cleanOf cs) i).getLast? =
      some ((valuesAt (cleanOf cs) i).getLast (List.ne_nil_of_mem hmem)) := List.getLast?_eq_some_getLast _
  obtain ⟨d, hd, hdv⟩ := mem_valuesAt.mp (List.mem_of_getLast? hlast)
  unfold byteAt
  rw [hlast, hclean d hd c hc i _ v hdv hv]
  rfl

/-- With an uncorrectable chunk in front, its value is used wherever no clean chunk has one. -/
theorem byteAt_of_rest {cs cs' : List Chunk} {c : Chunk} (hperm : (c :: cs').Perm cs) (hc : c.clean = false) {i : ℕ}
    {v : UInt8} (hv : c.value i = some v) (hnone : valuesAt (cleanOf cs) i = []) : byteAt (c :: cs') i = some v := by
  have hclean : valuesAt (cleanOf (c :: cs')) i = [] := by
    refine List.Perm.eq_nil ?_
    rw [← hnone]
    exact (hperm.filter _).filterMap _
  have hrest : restOf (c :: cs') = c :: restOf cs' := List.filter_cons_of_pos (by rw [hc]; rfl)
  unfold byteAt
  rw [hclean, hrest]
  simp [valuesAt, hv]

/-- Everything about a reassembled file but its bytes. -/
def File.shape (f : File) : ℕ × List Bool × ℕ × ℕ := (f.size, f.present, f.minOff, f.conflicts)

/-- **Reassembly and the order of the chunks.** When the clean chunks agree wherever they overlap, the size, the
coverage map, the lowest offset and the conflict count (zero) do not depend on the order, and a byte that a clean
chunk covers has its value. The bytes are the same for every order exactly when the uncorrectable chunks agree on
every byte that no clean chunk covers. -/
theorem reassemble_order (fill : UInt8) (cs : List Chunk) (hclean : CleanAgree cs) :
    (∀ cs', cs'.Perm cs → (reassemble fill cs').map File.shape = (reassemble fill cs).map File.shape) ∧
      (∀ cs' f, cs'.Perm cs → reassemble fill cs' = some f → f.conflicts = 0 ∧
        ∀ c ∈ cs, c.clean = true → ∀ i v, c.value i = some v → f.buf[i]? = some v ∧ f.present[i]? = some true) ∧
      ((∀ cs', cs'.Perm cs → reassemble fill cs' = reassemble fill cs) ↔ RestAgree cs) := by
  have heq : ∀ cs', cs'.Perm cs →
      reassemble fill cs' = if fileSize cs = 0 then none else some (described fill cs' 0) := by
    intro cs' hperm
    rw [reassemble_of_cleanAgree fill (cleanAgree_perm hperm hclean), fileSize_perm hperm]
  refine ⟨fun cs' hperm => ?_, fun cs' f hperm hf => ?_, fun hall c hc d hd i a b hnone ha hb => ?_,
    fun hrest cs' hperm => ?_⟩
  · rw [heq cs' hperm, heq cs (.refl cs)]
    split_ifs
    · rfl
    · simp only [Option.map_some, File.shape, described, fileSize_perm hperm, minOff_perm hperm,
        isSome_byteAt_perm hperm]
  · rw [heq cs' hperm] at hf
    split_ifs at hf with h0
    obtain rfl := Option.some.inj hf
    refine ⟨rfl, fun c hc hcc i v hv => ?_⟩
    have hlt : i < fileSize cs' := value_lt_fileSize (hperm.mem_iff.mpr hc) hv
    have hbyte : byteAt cs' i = some v :=
      byteAt_of_clean (cleanAgree_perm hperm hclean) (List.mem_filter.mpr ⟨hperm.mem_iff.mpr hc, hcc⟩) hv
    constructor
    · show (tab _ _)[i]? = _
      rw [getElem?_tab hlt, hbyte]
      rfl
    · show (tab _ _)[i]? = _
      rw [getElem?_tab hlt, hbyte]
      rfl
  · -- the two orders that start with either chunk
    have hfirst : ∀ e ∈ restOf cs, ∀ v, e.value i = some v →
        (reassemble fill cs).bind (fun f => f.buf[i]?) = some v := by
      intro e he v hv
      obtain ⟨hmem, hec⟩ := List.mem_filter.mp he
      obtain ⟨pre, post, rfl⟩ := List.append_of_mem hmem
      have hperm : (e :: (pre ++ post)).Perm (pre ++ e :: post) := List.perm_middle.symm
      have hlt := value_lt_fileSize hmem hv
      rw [← hall _ hperm, heq _ hperm, if_neg (by omega)]
      show (tab _ _)[i]? = _
      rw [getElem?_tab (by rw [fileSize_perm hperm]; exact hlt), byteAt_of_rest hperm (by simpa using hec) hv hnone]
      rfl
    exact Option.some.inj ((hfirst c hc a ha).symm.trans (hfirst d hd b hb))
  · rw [heq cs' hperm, heq cs (.refl cs)]
    simp only [described, fileSize_perm hperm, minOff_perm hperm, byteAt_perm hperm hclean hrest]

theorem agree_self (c : Chunk) : Agree c c := fun _ _ _ ha hb => Option.some.inj (ha.symm.trans hb)

/-- A clean chunk and an uncorrectable one that contradicts it, in either order. -/
theorem reassemble_order_two :
    (reassemble 0 [⟨1, -2, [9, 7]⟩, ⟨0, 3, [1, 2]⟩]).map File.shape =
      (reassemble 0 [⟨0, 3, [1, 2]⟩, ⟨1, -2, [9, 7]⟩]).map File.shape := by
  have hclean : CleanAgree [⟨0, 3, [1, 2]⟩, ⟨1, -2, [9, 7]⟩] := by
    intro c hc d hd
    obtain rfl := List.mem_singleton.mp (show c ∈ [⟨0, 3, [1, 2]⟩] from hc)
    obtain rfl := List.mem_singleton.mp (show d ∈ [⟨0, 3, [1, 2]⟩] from hd)
    exact agree_self _
  exact (reassemble_order 0 _ hclean).1 _ (.swap _ _ _)

/-- Two uncorrectable chunks at one offset : the first one is kept. -/
theorem reassemble_order_matters :
    ¬ ∀ (fill : UInt8) (cs cs' : List Chunk), CleanAgree cs → cs'.Perm cs →
      reassemble fill cs' = reassemble fill cs := by
  intro h
  have hclean : CleanAgree [⟨0, -2, [1]⟩, ⟨0, -2, [2]⟩] := by
    intro c hc
    exact absurd (show c ∈ [] from hc) List.not_mem_nil
  have hbuf := congrArg (Option.map File.buf) (h 0 _ [⟨0, -2, [2]⟩, ⟨0, -2, [1]⟩] hclean (.swap _ _ _))
  exact absurd hbuf (by decide)

end SimpleSatOps.MpiReconstruct
