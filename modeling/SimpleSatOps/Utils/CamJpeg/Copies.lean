import SimpleSatOps.Utils.CamJpeg

/-!
# Sentences of a camera image, received with gaps

* `Sentence` : a sentence of an image, in digits;
* `Copy` : a piece of a file as it was received, with what it still carries;
* `Damaged.parseHex`, `Damaged.lt_nBytes_iff` : what is read of digits with gaps between them;
* `Copy.broughtFirst_received`, `Copy.pass1_received` : what a copy does in pass 2 and in pass 1.
-/

namespace SimpleSatOps.CamJpeg

/-! ## Sentences -/

/-- `?`, the character of a gap. -/
abbrev gap : UInt8 := byte '?'

/-- A line of 64 digits behind an `@`. -/
structure Line where
  digits : List UInt8
  length_digits : digits.length = 64
  isHex_digits : ∀ c ∈ digits, isHex c = true

def Line.text (l : Line) : List UInt8 := atSign :: (l.digits ++ [0x0d, 0x0a])

/-- A sentence of an image of `total` sentences: its index, the total, and its bytes in digits. -/
structure Sentence (image : ℕ → UInt8) (total : ℕ) extends Line where
  index : ℕ
  index_lt : index < total
  index_eq : parseHex digits 4 = some index
  total_eq : parseHex (digits.drop 4) 4 = some total
  data_eq : ∀ b < dataBytes, payloadByte (digits.drop 8) b = some (image (index * dataBytes + b))

/-- What a file is made of: sentences, end markers, and text without an `@`. -/
inductive Piece (image : ℕ → UInt8) (total : ℕ)
  | sentence (s : Sentence image total)
  | endMarker (l : Line) (hend : parseHex l.digits 4 = some endSentinel)
  | other (t : List UInt8) (ht : atSign ∉ t)

def Piece.text {image : ℕ → UInt8} {total : ℕ} : Piece image total → List UInt8
  | .sentence s => s.text
  | .endMarker l _ => l.text
  | .other t _ => t

/-- A text in which some characters were overwritten by gaps. -/
def Damaged (t u : List UInt8) : Prop := List.Forall₂ (fun c d => d = c ∨ d = gap) t u

/-- A piece as it was received. -/
structure Copy (image : ℕ → UInt8) (total : ℕ) where
  piece : Piece image total
  received : List UInt8
  damaged : Damaged piece.text received

namespace Copy
variable {image : ℕ → UInt8} {total : ℕ}

/-- The `@` and the index of a sentence are there. -/
def Located (c : Copy image total) (index : ℕ) : Prop :=
  match c.piece with
  | .sentence s => s.index = index ∧ c.received.take 5 = s.text.take 5
  | _ => False

/-- The whole header of a sentence is there. -/
def HasHeader (c : Copy image total) : Prop :=
  match c.piece with
  | .sentence s => c.received.take headerChars = s.text.take headerChars
  | _ => False

/-- Byte `k` of the image is there: the place of its sentence, and the digits up to its own. -/
def Carries (c : Copy image total) (k : ℕ) : Prop :=
  match c.piece with
  | .sentence s => k / dataBytes = s.index ∧ c.received.take 5 = s.text.take 5 ∧
      slice c.received headerChars (2 * (k % dataBytes) + 2) = slice s.text headerChars (2 * (k % dataBytes) + 2)
  | _ => False

instance decidableCarries (c : Copy image total) (k : ℕ) : Decidable (c.Carries k) :=
  match c with
  | ⟨.sentence _, _, _⟩ => inferInstanceAs (Decidable (_ ∧ _ ∧ _))
  | ⟨.endMarker _ _, _, _⟩ => .isFalse id
  | ⟨.other _ _, _, _⟩ => .isFalse id

/-- What a copy does to the votes. -/
def voted (v : Votes) (c : Copy image total) : Votes :=
  match c.piece with
  | .sentence s =>
    if c.received.take 5 = s.text.take 5 then
      { totals := if c.received.take headerChars = s.text.take headerChars then v.totals ++ [total] else v.totals
        maxIndex := if s.index > v.maxIndex then s.index else v.maxIndex }
    else v
  | _ => v

end Copy

/-! ## Damage -/

section Damage
variable {t u : List UInt8}

theorem Damaged.take (h : Damaged t u) (n : ℕ) : Damaged (t.take n) (u.take n) := List.forall₂_take n h

theorem Damaged.drop (h : Damaged t u) (n : ℕ) : Damaged (t.drop n) (u.drop n) := List.forall₂_drop n h

theorem Damaged.length_eq (h : Damaged t u) : t.length = u.length := List.Forall₂.length_eq h

/-- A text is intact, or there is a gap in it. -/
theorem Damaged.eq_or_gap (h : Damaged t u) : u = t ∨ gap ∈ u := by
  induction h with
  | nil => exact .inl rfl
  | @cons c d t u hcd _ ih =>
      rcases hcd with rfl | rfl
      · rcases ih with rfl | hgap
        · exact .inl rfl
        · exact .inr (List.mem_cons_of_mem _ hgap)
      · exact .inr List.mem_cons_self

theorem Damaged.atSign_not_mem (h : Damaged t u) (ht : atSign ∉ t) : atSign ∉ u := by
  induction h with
  | nil => exact List.not_mem_nil
  | @cons c d t u hcd _ ih =>
      rw [List.mem_cons, not_or] at ht ⊢
      refine ⟨?_, ih ht.2⟩
      rcases hcd with rfl | rfl
      · exact ht.1
      · decide

theorem isHex_gap : isHex gap = false := by decide

theorem parseHex_of_gap {p : List UInt8} {n : ℕ} (h : gap ∈ p.take n) : parseHex p n = none := by
  have hfold : ∀ (q : List UInt8) (v : ℕ), gap ∈ q →
      q.foldlM (fun v c => (hexval c).map (v * 16 + ·)) v = none := by
    intro q
    induction q with
    | nil => exact fun _ hq => absurd hq List.not_mem_nil
    | cons c q ih =>
        intro v hq
        rw [List.foldlM_cons]
        rcases List.mem_cons.mp hq with rfl | hq
        · rfl
        · cases hexval c with
          | none => rfl
          | some d => exact ih _ hq
  exact hfold _ 0 h

/-- A number with a gap in it is not read. -/
theorem Damaged.parseHex (h : Damaged t u) (n : ℕ) :
    parseHex u n = if u.take n = t.take n then CamJpeg.parseHex t n else none := by
  rcases (h.take n).eq_or_gap with heq | hgap
  · rw [if_pos heq]
    unfold CamJpeg.parseHex
    rw [heq]
  · rw [parseHex_of_gap hgap]
    split_ifs with heq
    · rw [heq] at hgap
      exact (parseHex_of_gap hgap).symm
    · rfl

theorem parseHex_append {p : List UInt8} {n : ℕ} (h : n ≤ p.length) (rest : List UInt8) :
    CamJpeg.parseHex (p ++ rest) n = CamJpeg.parseHex p n := by
  unfold CamJpeg.parseHex
  rw [List.take_append_of_le_length h]

theorem nBytes_append {q : List UInt8} (h : dataHex ≤ q.length) (rest : List UInt8) :
    nBytes (q ++ rest) = nBytes q := by
  unfold nBytes
  rw [List.take_append_of_le_length h]

theorem payloadByte_append {q : List UInt8} {b : ℕ} (h : 2 * b + 1 < q.length) (rest : List UInt8) :
    payloadByte (q ++ rest) b = payloadByte q b := by
  unfold payloadByte
  rw [List.getElem?_append_left (by omega), List.getElem?_append_left h]

/-- The digits up to a byte decide it. -/
theorem payloadByte_congr {q q' : List UInt8} {b : ℕ} (h : q.take (2 * b + 2) = q'.take (2 * b + 2)) :
    payloadByte q b = payloadByte q' b := by
  have hget : ∀ i < 2 * b + 2, q[i]? = q'[i]? := by
    intro i hi
    rw [← List.getElem?_take_of_lt hi, h, List.getElem?_take_of_lt hi]
  unfold payloadByte
  rw [hget (2 * b) (by omega), hget (2 * b + 1) (by omega)]

theorem le_length_takeWhile_iff {p : UInt8 → Bool} {l : List UInt8} {m : ℕ} (h : m ≤ l.length) :
    m ≤ (l.takeWhile p).length ↔ ∀ c ∈ l.take m, p c = true := by
  induction l generalizing m with
  | nil => simp_all
  | cons c l ih =>
      cases m with
      | zero => simp
      | succ m =>
          rw [List.takeWhile_cons, List.take_succ_cons, List.forall_mem_cons]
          split_ifs with hc
          · rw [List.length_cons, Nat.succ_le_succ_iff, ih (Nat.le_of_succ_le_succ h)]
            exact ⟨fun hl => ⟨hc, hl⟩, fun hl => hl.2⟩
          · exact ⟨fun hl => absurd hl (Nat.not_succ_le_zero m), fun hl => absurd hl.1 hc⟩

/-- A byte of a payload is placed if no gap is in front of it. -/
theorem Damaged.lt_nBytes_iff (h : Damaged t u) (ht : ∀ c ∈ t.take dataHex, isHex c = true) (hlen : dataHex ≤ t.length)
    {b : ℕ} (hb : b < dataBytes) : b < nBytes u ↔ u.take (2 * b + 2) = t.take (2 * b + 2) := by
  have hle : 2 * b + 2 ≤ dataHex := by
    unfold dataBytes at hb
    unfold dataHex
    omega
  have hu := h.length_eq
  have htake : (u.take dataHex).take (2 * b + 2) = u.take (2 * b + 2) := by rw [List.take_take, Nat.min_eq_left hle]
  have hiff : b < nBytes u ↔ ∀ c ∈ u.take (2 * b + 2), isHex c = true := by
    rw [← htake, ← le_length_takeWhile_iff (by rw [List.length_take]; omega)]
    unfold nBytes
    omega
  rw [hiff]
  constructor
  · intro hhex
    rcases (h.take (2 * b + 2)).eq_or_gap with heq | hgap
    · exact heq
    · have := hhex gap hgap
      rw [isHex_gap] at this
      cases this
  · intro heq c hc
    rw [heq] at hc
    exact ht c (List.take_subset_take_left t hle hc)

end Damage

/-! ## Lines -/

namespace Line
variable (l : Line)

theorem length_text : l.text.length = 67 := by
  rw [text, List.length_cons, List.length_append, l.length_digits]
  rfl

theorem atSign_not_mem : atSign ∉ l.digits ++ [0x0d, 0x0a] := by
  intro h
  rcases List.mem_append.mp h with h | h
  · have hhex := l.isHex_digits _ h
    rw [show isHex atSign = false by decide] at hhex
    cases hhex
  · revert h
    decide

theorem drop_text (n : ℕ) (h : n ≤ 64) : l.text.drop (n + 1) = l.digits.drop n ++ [0x0d, 0x0a] := by
  rw [text, List.drop_succ_cons, List.drop_append_of_le_length (by rw [l.length_digits]; exact h)]

theorem parseHex_text (n : ℕ) (h : n + 4 ≤ 64) : parseHex (l.text.drop (n + 1)) 4 = parseHex (l.digits.drop n) 4 := by
  rw [l.drop_text n (by omega), parseHex_append]
  rw [List.length_drop, l.length_digits]
  omega

theorem take_payload : (l.text.drop headerChars).take dataHex = l.digits.drop 8 := by
  have hlen : (l.digits.drop 8).length = dataHex := by rw [List.length_drop, l.length_digits]
  rw [l.drop_text 8 (by omega), List.take_left' hlen]

/-- The `@` of a line is there, or it is a gap. -/
theorem cases_damaged {u : List UInt8} (h : Damaged l.text u) :
    (∃ u', u = atSign :: u' ∧ atSign ∉ u') ∨ atSign ∉ u := by
  unfold Damaged text at h
  obtain ⟨c, u', hc, hrest, rfl⟩ := List.forall₂_cons_left_iff.mp h
  have hnot : atSign ∉ u' := Damaged.atSign_not_mem hrest l.atSign_not_mem
  rcases hc with rfl | rfl
  · exact .inl ⟨u', rfl, hnot⟩
  · exact .inr (by
      rw [List.mem_cons, not_or]
      exact ⟨by decide, hnot⟩)

/-- The first characters are intact if the `@` and the digits behind it are. -/
theorem take_eq_iff {u' : List UInt8} (n : ℕ) :
    (atSign :: u').take (n + 1) = l.text.take (n + 1) ↔ u'.take n = (l.text.drop 1).take n := by
  rw [text, List.take_succ_cons, List.take_succ_cons, List.cons.injEq]
  exact and_iff_right rfl

theorem take_ne {u : List UInt8} (h : atSign ∉ u) (n : ℕ) : u.take (n + 1) ≠ l.text.take (n + 1) := by
  intro heq
  have hmem : atSign ∈ l.text.take (n + 1) := by
    rw [text, List.take_succ_cons]
    exact List.mem_cons_self
  rw [← heq] at hmem
  exact h (List.mem_of_mem_take hmem)

end Line

/-- A text without an `@` brings nothing. -/
theorem broughtFirst_skip {n : ℕ} {u : List UInt8} (h : atSign ∉ u) (rest : List UInt8) (k : ℕ) :
    broughtFirst n (u ++ rest) k = broughtFirst n rest k := by
  induction u with
  | nil => rfl
  | cons c u ih =>
      rw [List.mem_cons, not_or] at h
      rw [List.cons_append, broughtFirst]
      have hbrings : brings n (c :: (u ++ rest)) k = none := if_neg fun hc => h.1 (Option.some.inj hc).symm
      rw [hbrings, Option.none_or, ih h.2]
      split_ifs with hlen
      · cases rest with
        | nil => rfl
        | cons r rest =>
            rw [broughtFirst, if_pos]
            simp only [List.length_cons, List.length_append] at hlen ⊢
            omega
      · rfl

theorem pass1_skip {u : List UInt8} (h : atSign ∉ u) (rest : List UInt8) (v : Votes) :
    pass1 (u ++ rest) v = pass1 rest v := by
  induction u with
  | nil => rfl
  | cons c u ih =>
      rw [List.mem_cons, not_or] at h
      have hvote : v.vote (c :: (u ++ rest)) = v := if_pos fun hc => h.1 (Option.some.inj hc).symm
      rw [List.cons_append, pass1, hvote, ih h.2]
      split_ifs with hlen
      · cases rest with
        | nil => rfl
        | cons r rest =>
            rw [pass1, if_pos]
            simp only [List.length_cons, List.length_append] at hlen ⊢
            omega
      · rfl

/-- The bytes of a sentence among those of an image. -/
theorem in_sentence_iff (index k : ℕ) {n : ℕ} (h : n ≤ dataBytes) :
    index * dataBytes ≤ k ∧ k < index * dataBytes + n ↔ k / dataBytes = index ∧ k % dataBytes < n := by
  unfold dataBytes at *
  omega

/-- The index of a received line. -/
theorem Line.parseHex_received (l : Line) {u' : List UInt8} (h : Damaged l.text (atSign :: u')) (rest : List UInt8) :
    parseHex (u' ++ rest) 4 =
      if (atSign :: u').take 5 = l.text.take 5 then parseHex l.digits 4 else none := by
  have hdrop : Damaged (l.text.drop 1) u' := h.drop 1
  have hlen := hdrop.length_eq
  rw [List.length_drop, l.length_text] at hlen
  rw [parseHex_append (by omega), hdrop.parseHex, l.parseHex_text 0 (by omega), List.drop_zero]
  exact if_congr (l.take_eq_iff 4).symm rfl rfl

/-- What a received line brings: the byte at its place, if the digits up to it are intact. -/
theorem Line.brings_received (l : Line) {u' : List UInt8} (h : Damaged l.text (atSign :: u')) (rest : List UInt8)
    {index : ℕ} (hindex : CamJpeg.parseHex l.digits 4 = some index) (n k : ℕ) :
    brings n (atSign :: (u' ++ rest)) k =
      if (atSign :: u').take 5 = l.text.take 5 ∧ index ≠ endSentinel ∧ index < n ∧ k / dataBytes = index ∧
        slice (atSign :: u') headerChars (2 * (k % dataBytes) + 2) = slice l.text headerChars (2 * (k % dataBytes) + 2)
      then payloadByte (l.digits.drop 8) (k % dataBytes) else none := by
  have hpayload : Damaged (l.text.drop headerChars) (u'.drop 8) := h.drop headerChars
  have hlen : u'.length = 66 := by
    have hlen := h.length_eq
    rw [l.length_text, List.length_cons] at hlen
    omega
  have hq : (atSign :: (u' ++ rest)).drop headerChars = u'.drop 8 ++ rest := by
    show (u' ++ rest).drop 8 = _
    rw [List.drop_append_of_le_length (by omega)]
  have hlenq : (u'.drop 8).length = 58 := by rw [List.length_drop, hlen]
  have hmod : k % dataBytes < dataBytes := Nat.mod_lt _ (by decide)
  have hhex : ∀ c ∈ (l.text.drop headerChars).take dataHex, isHex c = true := by
    rw [l.take_payload]
    exact fun c hc => l.isHex_digits c (List.mem_of_mem_drop hc)
  have hbyte : k % dataBytes < nBytes (u'.drop 8) ↔ slice (atSign :: u') headerChars (2 * (k % dataBytes) + 2) =
      slice l.text headerChars (2 * (k % dataBytes) + 2) :=
    hpayload.lt_nBytes_iff hhex (by rw [List.length_drop, l.length_text]; decide) hmod
  have hin := in_sentence_iff index k (nBytes_le (u'.drop 8))
  unfold brings
  rw [if_pos (show (atSign :: (u' ++ rest)).head? = some atSign from rfl), hq,
    nBytes_append (by rw [hlenq]; decide)]
  rw [List.drop_one, List.tail_cons, l.parseHex_received h rest, hindex]
  by_cases hlocated : (atSign :: u').take 5 = l.text.take 5
  · rw [if_pos hlocated]
    dsimp only
    by_cases hc : index ≠ endSentinel ∧ index < n ∧ index * dataBytes ≤ k ∧ k < index * dataBytes + nBytes (u'.drop 8)
    · obtain ⟨hend, hn, hrange⟩ := hc
      obtain ⟨hdiv, hlt⟩ := hin.mp hrange
      have hoff : k - index * dataBytes = k % dataBytes := by
        rw [← hdiv]
        exact (Nat.mod_eq_sub_div_mul).symm
      have hdigits : 2 * (k % dataBytes) + 1 < 56 := by
        unfold dataBytes at hmod ⊢
        omega
      rw [if_pos ⟨hend, hn, hrange⟩, if_pos ⟨hlocated, hend, hn, hdiv, hbyte.mp hlt⟩, hoff,
        payloadByte_append (by omega)]
      calc payloadByte (u'.drop 8) (k % dataBytes)
          = payloadByte (l.text.drop headerChars) (k % dataBytes) := payloadByte_congr (hbyte.mp hlt)
        _ = payloadByte (l.digits.drop 8) (k % dataBytes) := by
            rw [l.drop_text 8 (by omega), payloadByte_append]
            rw [List.length_drop, l.length_digits]
            omega
    · rw [if_neg hc, if_neg]
      rintro ⟨-, hend, hn, hdiv, hslice⟩
      exact hc ⟨hend, hn, hin.mpr ⟨hdiv, hbyte.mpr hslice⟩⟩
  · rw [if_neg hlocated, if_neg fun hc => hlocated hc.1]

theorem broughtFirst_line {n : ℕ} {u' : List UInt8} (h : atSign ∉ u') (hlen : 8 ≤ u'.length) (rest : List UInt8)
    (k : ℕ) : broughtFirst n (atSign :: u' ++ rest) k =
      (brings n (atSign :: (u' ++ rest)) k).or (broughtFirst n rest k) := by
  rw [List.cons_append, broughtFirst, if_neg, broughtFirst_skip h]
  rw [List.length_cons, List.length_append]
  unfold headerChars
  omega

theorem pass1_line {u' : List UInt8} (h : atSign ∉ u') (hlen : 8 ≤ u'.length) (rest : List UInt8) (v : Votes) :
    pass1 (atSign :: u' ++ rest) v = pass1 rest (v.vote (atSign :: (u' ++ rest))) := by
  rw [List.cons_append, pass1, if_neg, pass1_skip h]
  rw [List.length_cons, List.length_append]
  unfold headerChars
  omega

/-- A number is read off digits only. -/
theorem isHex_of_parseHex {p : List UInt8} {n v : ℕ} (h : parseHex p n = some v) : ∀ c ∈ p.take n, isHex c = true := by
  have hfold : ∀ (q : List UInt8) (v w : ℕ), q.foldlM (fun v c => (hexval c).map (v * 16 + ·)) v = some w →
      ∀ c ∈ q, isHex c = true := by
    intro q
    induction q with
    | nil => exact fun _ _ _ c hc => absurd hc List.not_mem_nil
    | cons x q ih =>
        intro v w hq
        rw [List.foldlM_cons] at hq
        obtain ⟨y, hy, hq⟩ := Option.bind_eq_some_iff.mp hq
        obtain ⟨d, hd, -⟩ := Option.map_eq_some_iff.mp hy
        rw [List.forall_mem_cons]
        exact ⟨Option.isSome_iff_exists.mpr ⟨d, hd⟩, ih y w hq⟩
  exact hfold _ 0 v h

/-- A vote adds no total, or eight digits follow the `@`. -/
theorem totals_vote (v : Votes) (c : UInt8) (f : List UInt8) :
    (v.vote (c :: f)).totals = v.totals ∨
      c = atSign ∧ (∀ x ∈ f.take 8, isHex x = true) ∧ (v.vote (c :: f)).totals.length = v.totals.length + 1 := by
  unfold Votes.vote
  split_ifs with hat
  · exact .inl rfl
  · have hc : c = atSign := Option.some.inj (not_not.mp hat)
    cases hindex : parseHex ((c :: f).drop 1) 4 with
    | none => exact .inl rfl
    | some index =>
        dsimp only
        by_cases hend : index = endSentinel
        · rw [if_pos hend]
          exact .inl rfl
        · rw [if_neg hend]
          dsimp only
          cases htotal : parseHex ((c :: f).drop 5) 4 with
          | none => exact .inl rfl
          | some total =>
              dsimp only
              split_ifs
              · refine .inr ⟨hc, fun x hx => ?_, by rw [List.length_append]; rfl⟩
                rw [show f.take 8 = f.take 4 ++ (f.drop 4).take 4 from List.take_add (l := f) (i := 4) (j := 4)] at hx
                exact (List.mem_append.mp hx).elim (isHex_of_parseHex hindex x) (isHex_of_parseHex htotal x)
              · exact .inl rfl

/-- The array of totals is large enough: a total is at the end of nine characters of its own. -/
theorem length_totals_le (f : List UInt8) (v : Votes) :
    (pass1 f v).totals.length ≤ v.totals.length + f.length / headerChars := by
  induction hlen : f.length using Nat.strong_induction_on generalizing f v with
  | _ n ih =>
    cases f with
    | nil => exact Nat.le_add_right _ _
    | cons c f =>
        rw [List.length_cons] at hlen
        by_cases hshort : (c :: f).length < headerChars
        · rw [pass1, if_pos hshort]
          exact Nat.le_add_right _ _
        · rw [List.length_cons] at hshort
          unfold headerChars at hshort ih ⊢
          rcases totals_vote v c f with hsame | ⟨rfl, hhex, hmore⟩
          · have hrest := ih f.length (by omega) f (v.vote (c :: f)) rfl
            rw [pass1, if_neg (by rw [List.length_cons]; exact hshort)]
            rw [hsame] at hrest
            omega
          · have hnot : atSign ∉ f.take 8 := fun hmem => absurd (hhex _ hmem) (by decide)
            have hrest := ih (f.drop 8).length (by rw [List.length_drop]; omega) (f.drop 8) (v.vote (atSign :: f)) rfl
            have hline := pass1_line hnot (by rw [List.length_take]; omega) (f.drop 8) v
            rw [List.cons_append, List.take_append_drop] at hline
            rw [hline]
            rw [hmore, List.length_drop] at hrest
            omega

namespace Copy
variable {image : ℕ → UInt8} {total : ℕ}

/-- A sentence brings the bytes it carries, and they are those of the image. -/
theorem broughtFirst_received (c : Copy image total) {n : ℕ} (hn : ∀ index, c.Located index → index < n)
    (htotal : total ≤ endSentinel) (rest : List UInt8) (k : ℕ) :
    broughtFirst n (c.received ++ rest) k =
      (if c.Carries k then some (image k) else none).or (broughtFirst n rest k) := by
  obtain ⟨piece, u, hdamaged⟩ := c
  cases piece with
  | sentence s =>
      rcases s.toLine.cases_damaged hdamaged with ⟨u', rfl, hnot⟩ | hnot
      · have hlen := hdamaged.length_eq
        rw [Piece.text, s.length_text, List.length_cons] at hlen
        show broughtFirst n (atSign :: u' ++ rest) k = _
        rw [broughtFirst_line hnot (by omega), s.toLine.brings_received hdamaged rest s.index_eq]
        congr 1
        by_cases hcarries : (⟨.sentence s, atSign :: u', hdamaged⟩ : Copy image total).Carries k
        · obtain ⟨hdiv, hlocated, hslice⟩ := hcarries
          have hk : k = s.index * dataBytes + k % dataBytes := by
            rw [← hdiv]
            exact (Nat.div_add_mod' k dataBytes).symm
          have hdata := s.data_eq _ (Nat.mod_lt k (by decide : 0 < dataBytes))
          rw [if_pos ⟨hlocated, Nat.ne_of_lt (lt_of_lt_of_le s.index_lt htotal), hn s.index ⟨rfl, hlocated⟩, hdiv,
            hslice⟩, if_pos ⟨hdiv, hlocated, hslice⟩, hdata, ← hk]
        · rw [if_neg hcarries, if_neg]
          rintro ⟨hlocated, -, -, hdiv, hslice⟩
          exact hcarries ⟨hdiv, hlocated, hslice⟩
      · have hcarries : ¬ (⟨.sentence s, u, hdamaged⟩ : Copy image total).Carries k :=
          fun hc => s.toLine.take_ne hnot 4 hc.2.1
        rw [if_neg hcarries, Option.none_or]
        exact broughtFirst_skip hnot rest k
  | endMarker l hend =>
      have hcarries : ¬ (⟨.endMarker l hend, u, hdamaged⟩ : Copy image total).Carries k := id
      rw [if_neg hcarries, Option.none_or]
      rcases l.cases_damaged hdamaged with ⟨u', rfl, hnot⟩ | hnot
      · have hlen := hdamaged.length_eq
        rw [Piece.text, l.length_text, List.length_cons] at hlen
        show broughtFirst n (atSign :: u' ++ rest) k = _
        rw [broughtFirst_line hnot (by omega), l.brings_received hdamaged rest hend, if_neg fun h => h.2.1 rfl,
          Option.none_or]
      · exact broughtFirst_skip hnot rest k
  | other t ht =>
      have hcarries : ¬ (⟨.other t ht, u, hdamaged⟩ : Copy image total).Carries k := id
      rw [if_neg hcarries, Option.none_or]
      exact broughtFirst_skip (hdamaged.atSign_not_mem ht) rest k

/-- The total of a received sentence, if the rest of its header is intact. -/
theorem parseHex_total (s : Sentence image total) {u' : List UInt8} (h : Damaged s.text (atSign :: u'))
    (hlocated : (atSign :: u').take 5 = s.text.take 5) (rest : List UInt8) :
    parseHex ((u' ++ rest).drop 4) 4 =
      if (atSign :: u').take headerChars = s.text.take headerChars then some total else none := by
  have hdrop : Damaged (s.text.drop 5) (u'.drop 4) := h.drop 5
  have hlen := hdrop.length_eq
  rw [List.length_drop, s.length_text] at hlen
  have hlen4 : 4 ≤ u'.length := by
    rw [List.length_drop] at hlen
    omega
  have hiff : (u'.drop 4).take 4 = (s.text.drop 5).take 4 ↔
      (atSign :: u').take headerChars = s.text.take headerChars := by
    have hsplit : ∀ x : List UInt8, x.take headerChars = x.take 5 ++ (x.drop 5).take 4 :=
      fun x => List.take_add (l := x) (i := 5) (j := 4)
    rw [hsplit, hsplit, hlocated, List.append_cancel_left_eq]
    rfl
  rw [List.drop_append_of_le_length hlen4, parseHex_append (by omega), hdrop.parseHex, s.parseHex_text 4 (by omega),
    s.total_eq]
  exact if_congr hiff rfl rfl

theorem pass1_received (c : Copy image total) (htotal : total < endSentinel) (rest : List UInt8) (v : Votes) :
    pass1 (c.received ++ rest) v = pass1 rest (voted v c) := by
  obtain ⟨piece, u, hdamaged⟩ := c
  cases piece with
  | sentence s =>
      rcases s.toLine.cases_damaged hdamaged with ⟨u', rfl, hnot⟩ | hnot
      · have hlen := hdamaged.length_eq
        rw [Piece.text, s.length_text, List.length_cons] at hlen
        show pass1 (atSign :: u' ++ rest) v = _
        rw [pass1_line hnot (by omega)]
        congr 1
        unfold Votes.vote voted
        rw [if_neg (not_not.mpr List.head?_cons), List.drop_one, List.tail_cons, s.toLine.parseHex_received hdamaged,
          s.index_eq]
        dsimp only
        by_cases hlocated : (atSign :: u').take 5 = s.text.take 5
        · rw [if_pos hlocated, if_pos hlocated]
          dsimp only
          rw [if_neg (Nat.ne_of_lt (s.index_lt.trans htotal))]
          rw [List.drop_succ_cons, parseHex_total s hdamaged hlocated]
          congr 1
          by_cases hheader : (atSign :: u').take headerChars = s.text.take headerChars
          · rw [if_pos hheader, if_pos hheader]
            exact if_pos (Nat.ne_of_lt htotal)
          · rw [if_neg hheader, if_neg hheader]
        · rw [if_neg hlocated, if_neg hlocated]
      · have hlocated : ¬ u.take 5 = s.text.take 5 := s.toLine.take_ne hnot 4
        unfold voted
        dsimp only
        rw [if_neg hlocated]
        exact pass1_skip hnot rest v
  | endMarker l hend =>
      rcases l.cases_damaged hdamaged with ⟨u', rfl, hnot⟩ | hnot
      · have hlen := hdamaged.length_eq
        rw [Piece.text, l.length_text, List.length_cons] at hlen
        show pass1 (atSign :: u' ++ rest) v = pass1 rest v
        rw [pass1_line hnot (by omega)]
        congr 1
        unfold Votes.vote
        rw [if_neg (not_not.mpr List.head?_cons), List.drop_one, List.tail_cons, l.parseHex_received hdamaged, hend]
        split_ifs
        · exact if_pos rfl
        · rfl
      · exact pass1_skip hnot rest v
  | other t ht => exact pass1_skip (hdamaged.atSign_not_mem ht) rest v

end Copy

end SimpleSatOps.CamJpeg
