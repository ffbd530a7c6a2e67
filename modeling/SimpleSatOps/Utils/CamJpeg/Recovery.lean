import SimpleSatOps.Utils.CamJpeg.Copies

/-!
# The image that comes out of damaged copies

* `Voted`, `nSentences_spec` : the number of sentences that the headers agree on;
* `Recovered` : a byte of the image that some copy carries;
* `tally_eq` : the statistics are the true counts;
* `camJpegDecode_spec` : the image, its size and its statistics.
-/

namespace SimpleSatOps.CamJpeg

/-! ## Votes -/

section Files
variable {image : ℕ → UInt8} {total : ℕ}

theorem pass1_copies (copies : List (Copy image total)) (htotal : total < endSentinel) (v : Votes) :
    pass1 (copies.flatMap Copy.received) v = copies.foldl Copy.voted v := by
  induction copies generalizing v with
  | nil => rfl
  | cons c copies ih => rw [List.flatMap_cons, c.pass1_received htotal, ih, List.foldl_cons]

/-- What the votes of copies say: the totals are right, and the largest index is that of a copy. -/
structure Voted (copies : List (Copy image total)) (v : Votes) : Prop where
  totals : ∀ t ∈ v.totals, t = total
  totals_ne_nil : v.totals ≠ [] ↔ ∃ c ∈ copies, c.HasHeader
  le_maxIndex : ∀ c ∈ copies, ∀ index, c.Located index → (index : ℤ) ≤ v.maxIndex
  maxIndex_eq : v.maxIndex = -1 ∨ ∃ c ∈ copies, ∃ index, c.Located index ∧ v.maxIndex = index

theorem Copy.HasHeader.located {c : Copy image total} (h : c.HasHeader) : ∃ index, c.Located index := by
  obtain ⟨piece, u, hdamaged⟩ := c
  cases piece with
  | sentence s =>
      refine ⟨s.index, rfl, ?_⟩
      have h5 := congrArg (List.take 5) (show u.take headerChars = s.text.take headerChars from h)
      rwa [List.take_take, List.take_take] at h5
  | endMarker => exact h.elim
  | other => exact h.elim

theorem Copy.Located.lt {c : Copy image total} {index : ℕ} (h : c.Located index) : index < total := by
  obtain ⟨piece, u, hdamaged⟩ := c
  cases piece with
  | sentence s => exact h.1 ▸ s.index_lt
  | endMarker => exact h.elim
  | other => exact h.elim

/-- A copy that is located raises the largest index, and adds a total if it has a header. -/
theorem Copy.voted_cases (c : Copy image total) (v : Votes) :
    (Copy.voted v c = v ∧ ∀ index, ¬ c.Located index) ∨
      ∃ index, (∀ i, c.Located i ↔ i = index) ∧ (Copy.voted v c).maxIndex = max v.maxIndex index ∧
        ((c.HasHeader ∧ (Copy.voted v c).totals = v.totals ++ [total]) ∨
          (¬ c.HasHeader ∧ (Copy.voted v c).totals = v.totals)) := by
  obtain ⟨piece, u, hdamaged⟩ := c
  cases piece with
  | sentence s =>
      by_cases hlocated : u.take 5 = s.text.take 5
      · right
        have hvoted : Copy.voted v ⟨.sentence s, u, hdamaged⟩ =
            { totals := if u.take headerChars = s.text.take headerChars then v.totals ++ [total] else v.totals
              maxIndex := if s.index > v.maxIndex then s.index else v.maxIndex } := if_pos hlocated
        refine ⟨s.index, fun i => ⟨fun h => h.1.symm, fun h => ⟨h.symm, hlocated⟩⟩, ?_, ?_⟩
        · rw [hvoted]
          dsimp only
          split_ifs <;> omega
        · rw [hvoted]
          by_cases hheader : u.take headerChars = s.text.take headerChars
          · exact .inl ⟨hheader, if_pos hheader⟩
          · exact .inr ⟨hheader, if_neg hheader⟩
      · exact .inl ⟨if_neg hlocated, fun _ h => hlocated h.2⟩
  | endMarker => exact .inl ⟨rfl, fun _ h => h⟩
  | other => exact .inl ⟨rfl, fun _ h => h⟩

theorem Voted.voted {copies : List (Copy image total)} {v : Votes} (h : Voted copies v) (c : Copy image total) :
    Voted (copies ++ [c]) (Copy.voted v c) := by
  have hmem : ∀ {P : Copy image total → Prop}, (∃ x ∈ copies ++ [c], P x) ↔ (∃ x ∈ copies, P x) ∨ P c := by
    intro P
    simp only [List.mem_append, List.mem_singleton, or_and_right, exists_or, exists_eq_left]
  rcases c.voted_cases v with ⟨hvoted, hnone⟩ | ⟨index, hindex, hmax, htotals⟩
  · rw [hvoted]
    refine ⟨h.totals, ?_, ?_, ?_⟩
    · rw [hmem, h.totals_ne_nil]
      exact (or_iff_left fun hheader => hheader.located.elim hnone).symm
    · intro x hx i hi
      rcases List.mem_append.mp hx with hx | hx
      · exact h.le_maxIndex x hx i hi
      · rw [List.mem_singleton.mp hx] at hi
        exact absurd hi (hnone i)
    · rw [hmem]
      exact h.maxIndex_eq.imp_right .inl
  · refine ⟨?_, ?_, ?_, ?_⟩
    · rcases htotals with ⟨-, ht⟩ | ⟨-, ht⟩
      · rw [ht]
        intro t hmemt
        rcases List.mem_append.mp hmemt with hmemt | hmemt
        · exact h.totals t hmemt
        · exact List.mem_singleton.mp hmemt
      · rw [ht]
        exact h.totals
    · rw [hmem]
      rcases htotals with ⟨hheader, ht⟩ | ⟨hheader, ht⟩
      · rw [ht]
        exact iff_of_true (by simp) (.inr hheader)
      · rw [ht, h.totals_ne_nil]
        exact (or_iff_left hheader).symm
    · intro x hx i hi
      rw [hmax]
      rcases List.mem_append.mp hx with hx | hx
      · exact (h.le_maxIndex x hx i hi).trans (le_max_left _ _)
      · rw [List.mem_singleton.mp hx] at hi
        rw [(hindex i).mp hi]
        exact le_max_right _ _
    · rw [hmem, hmax]
      rcases le_total (index : ℤ) v.maxIndex with hle | hle
      · rw [max_eq_left hle]
        exact h.maxIndex_eq.imp_right .inl
      · rw [max_eq_right hle]
        exact .inr (.inr ⟨index, (hindex index).mpr rfl, rfl⟩)

theorem voted_copies (copies : List (Copy image total)) : Voted copies (copies.foldl Copy.voted ⟨[], -1⟩) := by
  induction copies using List.reverseRecOn with
  | nil =>
      exact ⟨fun _ ht => absurd ht List.not_mem_nil, by simp, fun _ hc => absurd hc List.not_mem_nil, .inl rfl⟩
  | append_singleton copies c ih =>
      rw [List.foldl_append]
      exact ih.voted c

/-- Values that agree are what most of them are. -/
theorem modeValue_of_forall {vals : List ℕ} {t : ℕ} (h : ∀ x ∈ vals, x = t) (hne : vals ≠ []) :
    modeValue vals = t := by
  have hcount : vals.count t = vals.length := List.count_eq_length.mpr fun x hx => (h x hx).symm
  have hstays : ∀ l : List ℕ, (∀ x ∈ l, x = t) →
      l.foldl (fun best v => if best.2 < vals.count v then ((v : ℤ), vals.count v) else best)
        ((t : ℤ), vals.count t) = ((t : ℤ), vals.count t) := by
    intro l hl
    induction l with
    | nil => rfl
    | cons x l ih =>
        rw [List.foldl_cons, hl x List.mem_cons_self, if_neg (lt_irrefl _)]
        exact ih fun y hy => hl y (List.mem_cons_of_mem _ hy)
  have hpos : 0 < vals.count t := by
    rw [hcount]
    exact List.length_pos_of_ne_nil hne
  have hrun : ∀ l : List ℕ, l ≠ [] → (∀ x ∈ l, x = t) →
      l.foldl (fun best v => if best.2 < vals.count v then ((v : ℤ), vals.count v) else best) (-1, 0) =
        ((t : ℤ), vals.count t) := by
    intro l hne hl
    cases l with
    | nil => exact absurd rfl hne
    | cons x l =>
        rw [List.foldl_cons, hl x List.mem_cons_self, if_pos hpos]
        exact hstays l fun y hy => hl y (List.mem_cons_of_mem _ hy)
  exact congrArg Prod.fst (hrun vals hne h)

/-- The number of sentences: it covers every located copy, and is the total if there is a header. -/
theorem nSentences_spec {copies : List (Copy image total)} {v : Votes} (h : Voted copies v) :
    ((∃ c ∈ copies, c.HasHeader) → nSentences v = total) ∧
      (∀ c ∈ copies, ∀ index, c.Located index → (index : ℤ) < nSentences v) ∧ nSentences v ≤ total ∧
      ((∀ c ∈ copies, ∀ index, ¬ c.Located index) → nSentences v ≤ 0) := by
  have hlt : v.maxIndex < total := by
    rcases h.maxIndex_eq with hmax | ⟨c, -, index, hlocated, hmax⟩
    · rw [hmax]
      omega
    · rw [hmax]
      exact_mod_cast hlocated.lt
  by_cases hheader : ∃ c ∈ copies, c.HasHeader
  · have hn : nSentences v = total := by
      unfold nSentences
      rw [modeValue_of_forall h.totals (h.totals_ne_nil.mpr hheader)]
      obtain ⟨c, hc, hhas⟩ := hheader
      obtain ⟨index, hlocated⟩ := hhas.located
      have hle := h.le_maxIndex c hc index hlocated
      exact if_neg (by omega)
    refine ⟨fun _ => hn, fun c hc index hlocated => ?_, hn.le, fun hnone => ?_⟩
    · rw [hn]
      exact_mod_cast hlocated.lt
    · obtain ⟨c, hc, hhas⟩ := hheader
      exact (hhas.located.elim (hnone c hc)).elim
  · have hnil : v.totals = [] := by
      by_contra hne
      exact hheader (h.totals_ne_nil.mp hne)
    have hn : nSentences v = v.maxIndex + 1 := by
      unfold nSentences
      rw [hnil]
      exact if_pos (.inl (by decide))
    refine ⟨fun hsome => absurd hsome hheader, fun c hc index hlocated => ?_, by omega, fun hnone => ?_⟩
    · have hle := h.le_maxIndex c hc index hlocated
      omega
    · rcases h.maxIndex_eq with hmax | ⟨c, hc, index, hlocated, -⟩
      · omega
      · exact absurd hlocated (hnone c hc index)

/-! ## The image -/

/-- Byte `k` of the image is there in one of the copies. -/
def Recovered (copies : List (Copy image total)) (k : ℕ) : Prop := ∃ c ∈ copies, c.Carries k

instance decidableRecovered (copies : List (Copy image total)) (k : ℕ) : Decidable (Recovered copies k) :=
  inferInstanceAs (Decidable (∃ c ∈ copies, c.Carries k))

theorem broughtFirst_copies {n : ℕ} {copies : List (Copy image total)}
    (hn : ∀ c ∈ copies, ∀ index, c.Located index → index < n) (htotal : total ≤ endSentinel) (k : ℕ) :
    broughtFirst n (copies.flatMap Copy.received) k = if Recovered copies k then some (image k) else none := by
  induction copies with
  | nil =>
      rw [if_neg fun h => List.not_mem_nil h.choose_spec.1]
      rfl
  | cons c copies ih =>
      rw [List.flatMap_cons, c.broughtFirst_received (hn c List.mem_cons_self) htotal,
        ih fun x hx => hn x (List.mem_cons_of_mem _ hx)]
      by_cases hc : c.Carries k
      · rw [if_pos hc, if_pos (show Recovered (c :: copies) k from ⟨c, List.mem_cons_self, hc⟩)]
        rfl
      · have hiff : Recovered (c :: copies) k ↔ Recovered copies k := by
          unfold Recovered
          rw [List.exists_mem_cons_iff]
          exact or_iff_right hc
        rw [if_neg hc, Option.none_or]
        exact if_congr hiff.symm rfl rfl

/-! ## The tally -/

/-- The bytes of `n` sentences, counted sentence by sentence. -/
theorem sum_countP (p : ℕ → Bool) (m : ℕ) : ∀ n : ℕ,
    ((List.range n).map fun s => (List.range m).countP fun b => p (s * m + b)).sum = (List.range (n * m)).countP p
  | 0 => by rw [Nat.zero_mul]; rfl
  | n + 1 => by
      rw [List.range_succ, List.map_append, List.sum_append, sum_countP p m n, Nat.succ_mul, List.range_add,
        List.countP_append, List.countP_map]
      simp [Function.comp_def]

theorem countP_range_of_le {p : ℕ → Bool} {n m : ℕ} (h : n ≤ m) (hp : ∀ k, n ≤ k → p k = false) :
    (List.range m).countP p = (List.range n).countP p := by
  obtain ⟨d, rfl⟩ := Nat.exists_eq_add_of_le h
  rw [List.range_add, List.countP_append, List.countP_map, Nat.add_eq_left, List.countP_eq_zero]
  intro k _
  rw [Function.comp_apply, hp (n + k) (by omega)]
  exact Bool.false_ne_true

/-- A byte of sentence `s` is there. -/
def Reached (copies : List (Copy image total)) (s : ℕ) : Prop := ∃ b < dataBytes, Recovered copies (s * dataBytes + b)

/-- All bytes of sentence `s` are there. -/
def Complete (copies : List (Copy image total)) (s : ℕ) : Prop := ∀ b < dataBytes, Recovered copies (s * dataBytes + b)

instance decidableReached (copies : List (Copy image total)) (s : ℕ) : Decidable (Reached copies s) :=
  inferInstanceAs (Decidable (∃ b < dataBytes, Recovered copies (s * dataBytes + b)))

instance decidableComplete (copies : List (Copy image total)) (s : ℕ) : Decidable (Complete copies s) :=
  inferInstanceAs (Decidable (∀ b < dataBytes, Recovered copies (s * dataBytes + b)))

/-- The true counts over all sentences of the image. -/
def trueStats (copies : List (Copy image total)) (n : ℕ) (sawEndSentinel : Bool) : Stats where
  nSentences := n
  sentencesPresent := (List.range total).countP fun s => Reached copies s
  partialSentences := (List.range total).countP fun s => Reached copies s ∧ ¬ Complete copies s
  imageBytes := n * dataBytes
  recoveredBytes := (List.range (total * dataBytes)).countP fun k => Recovered copies k
  sawEndSentinel := sawEndSentinel

theorem Copy.Carries.located {c : Copy image total} {k : ℕ} (h : c.Carries k) : c.Located (k / dataBytes) := by
  obtain ⟨piece, u, hdamaged⟩ := c
  cases piece with
  | sentence s => exact ⟨h.1.symm, h.2.1⟩
  | endMarker => exact h.elim
  | other => exact h.elim

/-- The tally counts what is there. -/
theorem tally_eq {copies : List (Copy image total)} {n : ℕ} {im : Image} (hn : n ≤ total)
    (hlocated : ∀ c ∈ copies, ∀ index, c.Located index → index < n)
    (hpresent : ∀ k < n * dataBytes, im.present.getD k false = true ↔ Recovered copies k) :
    tally n im = trueStats copies n im.sawEndSentinel := by
  have hbeyond : ∀ k, n * dataBytes ≤ k → ¬ Recovered copies k := by
    rintro k hk ⟨c, hc, hcarries⟩
    have hlt := hlocated c hc _ hcarries.located
    exact absurd (Nat.div_lt_iff_lt_mul (by decide) |>.mp hlt) (Nat.not_lt.mpr hk)
  have hin : ∀ s < n, ∀ b < dataBytes, s * dataBytes + b < n * dataBytes := by
    intro s hs b hb
    have hle := Nat.mul_le_mul_right dataBytes (Nat.succ_le_of_lt hs)
    rw [Nat.succ_mul] at hle
    omega
  have hunreached : ∀ s, n ≤ s → ¬ Reached copies s := by
    rintro s hs ⟨b, -, hrecovered⟩
    exact hbeyond _ ((Nat.mul_le_mul_right dataBytes hs).trans (Nat.le_add_right _ b)) hrecovered
  have hhere : ∀ s < n, here im.present s =
      (List.range dataBytes).countP fun b => decide (Recovered copies (s * dataBytes + b)) := by
    intro s hs
    refine List.countP_congr fun b hb => ?_
    rw [hpresent _ (hin s hs b (List.mem_range.mp hb)), decide_eq_true_iff]
  have hpos : ∀ s < n, 0 < here im.present s ↔ Reached copies s := by
    intro s hs
    rw [hhere s hs, List.countP_pos_iff]
    simp [Reached]
  have hfull : ∀ s < n, here im.present s < dataBytes ↔ ¬ Complete copies s := by
    intro s hs
    have hle : here im.present s ≤ dataBytes := by
      rw [hhere s hs]
      exact List.countP_le_length.trans (List.length_range (n := dataBytes)).le
    have hall : here im.present s = dataBytes ↔ Complete copies s := by
      have hiff := List.countP_eq_length (l := List.range dataBytes)
        (p := fun b => decide (Recovered copies (s * dataBytes + b)))
      rw [List.length_range] at hiff
      rw [hhere s hs, hiff]
      simp [Complete]
    rw [← hall]
    omega
  have hsentences : (List.range n).countP (fun s => decide (0 < here im.present s)) =
      (List.range total).countP fun s => decide (Reached copies s) := by
    rw [countP_range_of_le hn fun s hs => decide_eq_false (hunreached s hs)]
    refine List.countP_congr fun s hs => ?_
    rw [decide_eq_true_iff, decide_eq_true_iff, hpos s (List.mem_range.mp hs)]
  have hpartial : (List.range n).countP (fun s => decide (0 < here im.present s ∧ here im.present s < dataBytes)) =
      (List.range total).countP fun s => decide (Reached copies s ∧ ¬ Complete copies s) := by
    rw [countP_range_of_le hn fun s hs => decide_eq_false fun h => hunreached s hs h.1]
    refine List.countP_congr fun s hs => ?_
    rw [decide_eq_true_iff, decide_eq_true_iff, hpos s (List.mem_range.mp hs), hfull s (List.mem_range.mp hs)]
  have hbytes : ((List.range n).map (here im.present)).sum =
      (List.range (total * dataBytes)).countP fun k => decide (Recovered copies k) := by
    rw [countP_range_of_le (Nat.mul_le_mul_right dataBytes hn) fun k hk => decide_eq_false (hbeyond k hk),
      ← sum_countP]
    congr 1
    exact List.map_congr_left fun s hs => hhere s (List.mem_range.mp hs)
  unfold tally trueStats
  rw [hsentences, hpartial, hbytes]

/-- **Damaged copies of an image.** An image of fewer than `0xFACE` sentences, from copies of sentences in any order
with gaps in them: what is present are the bytes with an intact place and intact digits in some copy, and they are those
of the image; the number of sentences is right if some header is intact; and the statistics count what is there. On any
file, all accesses are inside the buffers, and pass 2 does not change what is present. -/
theorem camJpegDecode_spec (htotal : total < endSentinel) (copies : List (Copy image total)) (fill : UInt8) :
    let file := copies.flatMap Copy.received
    ((∀ c ∈ copies, ∀ index, ¬ c.Located index) → camJpegDecode file fill = some none) ∧
    ((∃ c ∈ copies, ∃ index, c.Located index) → ∃ n im, reconstruct file fill = some (some (n, im)) ∧
      camJpegDecode file fill = some (some (im.img, trueStats copies n im.sawEndSentinel)) ∧
      n ≤ total ∧ ((∃ c ∈ copies, c.HasHeader) → n = total) ∧
      im.img.length = n * dataBytes ∧ im.present.length = n * dataBytes ∧
      ∀ k < n * dataBytes, (im.present.getD k false = true ↔ Recovered copies k) ∧
        im.img.getD k 0 = if Recovered copies k then image k else fill) ∧
    (∀ any, (camJpegDecode any fill).isSome = true ∧
      (pass1 any ⟨[], -1⟩).totals.length ≤ any.length / headerChars) ∧
    ∀ (n : ℕ) (any : List UInt8) (im : Image), im.Wf (n * dataBytes) fill →
      ∃ im', im.place n any = some im' ∧ im'.Wf (n * dataBytes) fill ∧
        ∀ k v, im.cell k = some v → im'.cell k = some v := by
  intro file
  have hvoted : Voted copies (pass1 file ⟨[], -1⟩) := by
    rw [pass1_copies copies htotal]
    exact voted_copies copies
  obtain ⟨hheader, hlt, hle, hnone⟩ := nSentences_spec hvoted
  refine ⟨fun h => ?_, fun ⟨c, hc, index, hlocated⟩ => ?_, fun any => ?_, fun n any im hwf => ?_⟩
  · unfold camJpegDecode reconstruct
    rw [if_pos (hnone h)]
    rfl
  · have hpos : 0 < nSentences (pass1 file ⟨[], -1⟩) :=
      lt_of_le_of_lt (Int.natCast_nonneg index) (hlt c hc index hlocated)
    obtain ⟨n, hn⟩ := Int.eq_ofNat_of_zero_le hpos.le
    rw [hn] at hheader hlt hle hpos
    have hlt' : ∀ c ∈ copies, ∀ index, c.Located index → index < n := fun c hc index h => by
      exact_mod_cast hlt c hc index h
    have hle' : n ≤ total := by exact_mod_cast hle
    obtain ⟨im, hrun, hwf, hcell⟩ := pass2_spec (n := n) file (wf_blank n fill)
    have hbyte : ∀ k, im.cell k = if Recovered copies k then some (image k) else none := by
      intro k
      rw [hcell, cell_blank, Option.none_or, broughtFirst_copies hlt' htotal.le]
    have hpresent : ∀ k, im.present.getD k false = true ↔ Recovered copies k := by
      intro k
      have hk := hbyte k
      unfold Image.cell at hk
      split_ifs at hk <;> simp_all
    have hreconstruct : reconstruct file fill = some (some (n, im)) := by
      unfold reconstruct
      dsimp only
      rw [hn, if_neg (by omega), Int.toNat_natCast, hrun]
      rfl
    refine ⟨n, im, hreconstruct, ?_, hle', fun h => by exact_mod_cast hheader h, hwf.length_img, hwf.length_present,
      fun k hk => ⟨hpresent k, ?_⟩⟩
    · unfold camJpegDecode
      rw [hreconstruct, ← tally_eq hle' hlt' fun k _ => hpresent k]
      rfl
    · have hk' := hbyte k
      unfold Image.cell at hk'
      by_cases hrecovered : Recovered copies k
      · rw [if_pos ((hpresent k).mpr hrecovered), if_pos hrecovered] at hk'
        rw [if_pos hrecovered, Option.some.inj hk']
      · rw [if_neg hrecovered]
        exact hwf.absent k hk (Bool.eq_false_iff.mpr fun h => hrecovered ((hpresent k).mp h))
  · refine ⟨?_, (length_totals_le any ⟨[], -1⟩).trans (Nat.zero_add _).le⟩
    unfold camJpegDecode reconstruct
    dsimp only
    split_ifs
    · rfl
    · obtain ⟨im, hrun, -, -⟩ := pass2_spec any (wf_blank (nSentences (pass1 any ⟨[], -1⟩)).toNat fill)
      rw [hrun]
      rfl
  · obtain ⟨im', hplace, hwf', hcell⟩ := place_spec hwf any
    refine ⟨im', hplace, hwf', fun k v hk => ?_⟩
    rw [hcell, hk]
    rfl

end Files

/-- A sentence of an image of one, with a gap over the digits of its second byte. -/
def gapCopy : Copy (fun _ => 0x41) 1 where
  piece := .sentence {
    digits := text "00000001" ++ (List.replicate 28 (text "41")).flatten
    length_digits := by decide
    isHex_digits := by decide
    index := 0
    index_lt := by decide
    index_eq := by decide
    total_eq := by decide
    data_eq := by decide }
  received := text "@0000000141??" ++ (List.replicate 26 (text "41")).flatten ++ [0x0d, 0x0a]
  damaged := List.forall₂_iff_get.mpr ⟨by decide, by decide⟩

theorem camJpegDecode_gap : ∃ im, reconstruct gapCopy.received 0 = some (some (1, im)) ∧
    im.present.getD 0 false = true ∧ im.img.getD 0 0 = 0x41 ∧ im.img.getD 1 0 = 0 := by
  have hlocated : gapCopy.Located 0 := ⟨rfl, by decide⟩
  have hheader : gapCopy.HasHeader := by
    show List.take 9 _ = List.take 9 _
    decide
  have hfirst : Recovered [gapCopy] 0 := by decide +kernel
  have hsecond : ¬ Recovered [gapCopy] 1 := by decide +kernel
  obtain ⟨n, im, hrun, -, -, htotal, -, -, hbytes⟩ :=
    (camJpegDecode_spec (by decide : 1 < endSentinel) [gapCopy] 0).2.1 ⟨gapCopy, List.mem_singleton_self _, 0, hlocated⟩
  obtain rfl := htotal ⟨gapCopy, List.mem_singleton_self _, hheader⟩
  obtain ⟨hpresent, himg⟩ := hbytes 0 (by decide)
  obtain ⟨-, himg₁⟩ := hbytes 1 (by decide)
  rw [if_pos hfirst] at himg
  rw [if_neg hsecond] at himg₁
  rw [List.flatMap_singleton] at hrun
  exact ⟨im, hrun, hpresent.mpr hfirst, himg, himg₁⟩

/-- The only sentence received of an image of `0xFACE` sentences. -/
def faceSentence : Sentence (fun _ => 0x41) 0xFACE where
  digits := text "0000FACE" ++ (List.replicate 28 (text "41")).flatten
  length_digits := by decide
  isHex_digits := by decide
  index := 0
  index_lt := by decide
  index_eq := by decide
  total_eq := by decide
  data_eq := by decide

/-- A total of `0xFACE` is not counted, and the image comes out with one sentence. -/
theorem camJpegDecode_face :
    (⟨.sentence faceSentence, faceSentence.text, List.forall₂_same.mpr fun _ _ => .inl rfl⟩ :
      Copy (fun _ => 0x41) 0xFACE).HasHeader ∧
    camJpegDecode faceSentence.text 0 = some (some (List.replicate 28 0x41, ⟨1, 1, 0, 28, 28, false⟩)) := by
  refine ⟨rfl, ?_⟩
  decide +kernel

end SimpleSatOps.CamJpeg
