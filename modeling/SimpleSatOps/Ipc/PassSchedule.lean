import SimpleSatOps.Lib.Json
import SimpleSatOps.Lib.Search
import SimpleSatOps.Lib.Strtod
import SimpleSatOps.Proto.AgendaLine

/-!
# The line of upcoming passes (`pass_schedule.c`)

* `PassTWire`, `PassScheduleT` : a pass, and what one line carries;
* `passScheduleEncode` : the writer, with what it leaves in the buffer;
* `findKey`, `getStr`, `getNum`, `passScheduleDecode` : the reader;
* `PassScheduleT.Sound` : names, times and angles that a line can carry;
* `findFrom_append` : a key in a text that is cut;
* `decode_headText` : the passes stand behind the head.
-/

namespace SimpleSatOps.PassSchedule
open Json AgendaLine

/-- `PASS_SCHED_MAX` -/
def passSchedMax : ℕ := 128

/-- `pass_t_wire` -/
structure PassTWire where
  aosUnix : Double
  losUnix : Double
  peakUnix : Double
  peakElDeg : Double
  peakAzDeg : Double
deriving DecidableEq

/-- `pass_schedule_t`; the list is `passes[0 .. count)`. -/
structure PassScheduleT where
  satellite : List UInt8
  idesg : List UInt8
  generatedUnix : Double
  tleEpochMin : Double
  passes : List PassTWire
deriving DecidableEq

/-! ## The writer -/

/-- One `snprintf(out + off, out_size - off, ..)`: the text behind it, or what is left in the buffer when it is full. -/
def snprintfAt (outSize : ℕ) (out s : List UInt8) : Except (List UInt8) (List UInt8) :=
  if outSize ≤ out.length + s.length then .error ((out ++ s).take (outSize - 1)) else .ok (out ++ s)

/-- What stands in front of the passes. -/
def PassScheduleT.headText (s : PassScheduleT) (n : ℕ) : List UInt8 :=
  text "\x7b\"t\":\"passes\",\"sat\":\"" ++ (s.satellite ++ (text "\",\"idesg\":\"" ++ (s.idesg ++
    (text "\",\"gen\":" ++ (s.generatedUnix.printWhole ++ (text ",\"ep_min\":" ++ (s.tleEpochMin.print ++
      (text ",\"n\":" ++ (decimal n ++ text ",\"p\":[")))))))))

/-- The five numbers of a pass. -/
def PassTWire.wireText (p : PassTWire) : List UInt8 :=
  p.aosUnix.printWhole ++ byte ',' :: (p.losUnix.printWhole ++ byte ',' :: (p.peakUnix.printWhole ++ byte ',' ::
    (p.peakElDeg.printFixed 3 ++ byte ',' :: p.peakAzDeg.printFixed 3)))

/-- `pass_schedule_encode`: `none` for -1 with the buffer untouched, an error for -1 with the text in it. -/
def passScheduleEncode (s : PassScheduleT) (outSize : ℕ) : Option (Except (List UInt8) (List UInt8)) :=
  if outSize < 16 then none
  else
    some do
      let passes := s.passes.take passSchedMax
      let out ← snprintfAt outSize [] (s.headText passes.length)
      let out ← passes.zipIdx.foldlM (fun out p =>
        snprintfAt outSize out ((if p.2 = 0 then [] else [byte ',']) ++ p.1.wireText)) out
      snprintfAt outSize out (text "]\x7d\n")

/-! ## The reader -/

/-- What stands behind the colon, if one comes. -/
def valueBehind (s : List UInt8) : Option (List UInt8) :=
  match s.dropWhile isBlank with
  | [] => none
  | c :: q => if c = byte ':' then some (q.dropWhile isBlank) else none

/-- The loop of `find_key`, with some bytes of the pattern still to be passed over. -/
def findFrom (pat : List UInt8) : ℕ → List UInt8 → Option (List UInt8)
  | _, [] => none
  | skip + 1, _ :: s => findFrom pat skip s
  | 0, c :: s =>
      if pat <+: c :: s then
        match valueBehind ((c :: s).drop pat.length) with
        | some q => some q
        | none => findFrom pat (pat.length - 1) s
      else findFrom pat 0 s

/-- `find_key` -/
def findKey (json key : List UInt8) : Option (List UInt8) := findFrom (quoted key) 0 json

/-- The loop of `get_str`, with room for some bytes. -/
def copyString : ℕ → List UInt8 → List UInt8
  | 0, _ => []
  | _ + 1, [] => []
  | room + 1, c :: s =>
      if c = byte '"' then []
      else if c = byte '\\' then
        match s with
        | [] => c :: copyString room []
        | e :: s => e :: copyString room s
      else c :: copyString room s

/-- `get_str` -/
def getStr (json key : List UInt8) (outN : ℕ) : Option (List UInt8) :=
  (findKey json key).bind fun q =>
    match q with
    | [] => none
    | c :: q => if c = byte '"' then some (copyString (outN - 1) q) else none

/-- `get_num` -/
def getNum (json key : List UInt8) : Option Double := (findKey json key).bind strtod

/-- What is passed over between two numbers. -/
def isSeparator (c : UInt8) : Bool := c == byte ' ' || c == byte ','

/-- The loop that reads the numbers: at most `want` of them. -/
def readVals : ℕ → List UInt8 → List Double
  | 0, _ => []
  | want + 1, q =>
      if q = [] ∨ q.head? = some (byte ']') then []
      else
        match strtod q with
        | none => []
        | some v => v :: readVals want ((strtodEnd q).dropWhile isSeparator)

/-- The whole passes among the numbers. -/
def toPasses : List Double → List PassTWire
  | aos :: los :: peak :: el :: az :: vals => ⟨aos, los, peak, el, az⟩ :: toPasses vals
  | _ => []

section
variable (outOfRange : Double → ℤ)

/-- `(int) x`; the language leaves open what a number out of range gives. -/
def intOf (x : Double) : ℤ :=
  let z : ℤ := if x.negative then -⌊x.magnitude⌋ else ⌊x.magnitude⌋
  if x.isFinite ∧ -2 ^ 31 ≤ z ∧ z < 2 ^ 31 then z else outOfRange x

/-- The count a line gives, clamped. -/
def countOf (line : List UInt8) : ℕ :=
  (max 0 (min (intOf outOfRange ((getNum line (text "n")).getD .zero)) passSchedMax)).toNat

/-- The passes a line gives. -/
def passesOf (line : List UInt8) : List PassTWire :=
  match findKey line (text "p") with
  | some (c :: q) => if c = byte '[' then toPasses (readVals (5 * countOf outOfRange line) q) else []
  | _ => []

/-- `pass_schedule_decode` -/
def passScheduleDecode (line : List UInt8) : Option PassScheduleT :=
  if getStr line (text "t") 16 = some (text "passes") then
    some
      { satellite := (getStr line (text "sat") 64).getD []
        idesg := (getStr line (text "idesg") 9).getD []
        generatedUnix := (getNum line (text "gen")).getD .zero
        tleEpochMin := (getNum line (text "ep_min")).getD .zero
        passes := passesOf outOfRange line }
  else none

end

/-! ## Finding a key -/

theorem findFrom_skip (pat : List UInt8) (n : ℕ) (s : List UInt8) : findFrom pat n s = findFrom pat 0 (s.drop n) := by
  induction n generalizing s with
  | zero => rfl
  | succ n ih =>
      cases s with
      | nil => rfl
      | cons c s => exact ih s

theorem findFrom_not_mem {key x : List UInt8} (hx : byte '"' ∉ x) (s : List UInt8) :
    findFrom (quoted key) 0 (x ++ s) = findFrom (quoted key) 0 s := by
  induction x with
  | nil => rfl
  | cons d x ih =>
      rw [List.mem_cons, not_or] at hx
      have hhead : ¬ quoted key <+: d :: (x ++ s) := fun h => hx.1 (List.cons_prefix_cons.mp h).1
      rw [List.cons_append, findFrom, if_neg hhead]
      exact ih hx.2

/-- A string that is not the key is passed over, and so is one with no colon behind it. -/
theorem findFrom_string {key v : List UInt8} (hkey : byte '"' ∉ key) (hv : byte '"' ∉ v) {d : UInt8}
    (hd : d ∉ key) (hquote : d ≠ byte '"') (hne : key ≠ []) {s : List UInt8}
    (h : v ≠ key ∨ valueBehind (d :: s) = none) :
    findFrom (quoted key) 0 (quoted v ++ d :: s) = findFrom (quoted key) 0 s := by
  have hquoted : ∀ v, quoted v = byte '"' :: (v ++ [byte '"']) := fun _ => rfl
  have hskip : byte '"' ∉ [d] := fun hmem => hquote (List.mem_singleton.mp hmem).symm
  have hnext : findFrom (quoted key) 0 (d :: s) = findFrom (quoted key) 0 s := findFrom_not_mem hskip s
  have hassoc : quoted v ++ d :: s = byte '"' :: (v ++ byte '"' :: d :: s) := by
    rw [hquoted, List.cons_append, List.append_assoc, List.singleton_append]
  by_cases hvk : v = key
  · subst hvk
    have hhere : quoted v <+: byte '"' :: (v ++ byte '"' :: d :: s) := by
      rw [← hassoc]
      exact List.prefix_append _ _
    have hlen : (quoted v).length - 1 = v.length + 1 := by
      rw [hquoted, List.length_cons, List.length_append, List.length_singleton]
      rfl
    have hdrop : (v ++ byte '"' :: d :: s).drop (v.length + 1) = d :: s := by
      rw [← List.drop_drop, List.drop_left]
      rfl
    rw [hassoc, findFrom, if_pos hhere, ← hassoc, List.drop_left, h.resolve_left (not_not_intro rfl)]
    dsimp only
    rw [hlen, findFrom_skip, hdrop, hnext]
  · have hfirst : ¬ quoted key <+: byte '"' :: (v ++ byte '"' :: d :: s) := by
      rw [hquoted, List.cons_prefix_cons]
      rintro ⟨-, t, ht⟩
      rw [List.append_assoc, List.singleton_append] at ht
      exact hvk (append_cons_inj hkey hv ht).1.symm
    have hsecond : ¬ quoted key <+: byte '"' :: d :: s := by
      rw [hquoted, List.cons_prefix_cons]
      rintro ⟨-, hpre⟩
      cases key with
      | nil => exact hne rfl
      | cons a key => exact hd ((List.cons_prefix_cons.mp hpre).1 ▸ List.mem_cons_self)
    rw [hassoc, findFrom, if_neg hfirst, findFrom_not_mem hv, findFrom, if_neg hsecond, hnext]

theorem findFrom_here (key s : List UInt8) :
    findFrom (quoted key) 0 (quoted key ++ byte ':' :: s) = some (s.dropWhile isBlank) := by
  have hcolon : ¬ isBlank (byte ':') = true := by decide
  have hvalue : valueBehind (byte ':' :: s) = some (s.dropWhile isBlank) := by
    rw [valueBehind, List.dropWhile_cons_of_neg hcolon]
    exact if_pos rfl
  have hassoc : quoted key ++ byte ':' :: s = byte '"' :: (key ++ byte '"' :: byte ':' :: s) := by
    simp [quoted]
  have hhere : quoted key <+: byte '"' :: (key ++ byte '"' :: byte ':' :: s) := by
    rw [← hassoc]
    exact List.prefix_append _ _
  rw [hassoc, findFrom, if_pos hhere, ← hassoc, List.drop_left, hvalue]

/-! ### In a text that is cut -/

theorem le_length_of_findFrom {pat : List UInt8} {n : ℕ} {s q : List UInt8} (h : findFrom pat n s = some q) :
    pat.length ≤ s.length := by
  induction s generalizing n with
  | nil => cases n <;> exact absurd h (Option.some_ne_none q).symm
  | cons c s ih =>
      cases n with
      | succ n => exact (ih h).trans (Nat.le_succ _)
      | zero =>
          rw [findFrom] at h
          split_ifs at h with hpre
          · exact hpre.length_le
          · exact (ih h).trans (Nat.le_succ _)

theorem dropWhile_append_eq (p : UInt8 → Bool) (s z : List UInt8) :
    (s ++ z).dropWhile p = (s.dropWhile p ++ z).dropWhile p := by
  induction s with
  | nil => rfl
  | cons c s ih =>
      by_cases hc : p c = true
      · rw [List.cons_append, List.dropWhile_cons_of_pos hc, List.dropWhile_cons_of_pos hc, ih]
      · rw [List.dropWhile_cons_of_neg hc]

theorem valueBehind_append {s q : List UInt8} (h : valueBehind s = some q) (z : List UInt8) :
    valueBehind (s ++ z) = some ((q ++ z).dropWhile isBlank) := by
  unfold valueBehind at h ⊢
  cases hs : s.dropWhile isBlank with
  | nil =>
      rw [hs] at h
      exact absurd h (Option.some_ne_none q).symm
  | cons c t =>
      rw [hs] at h
      dsimp only at h
      split_ifs at h with hc
      rw [List.dropWhile_append, hs, if_neg (by simp), List.cons_append]
      dsimp only
      rw [if_pos hc, ← Option.some.inj h, ← dropWhile_append_eq]

theorem valueBehind_append_none {s : List UInt8} (h : valueBehind s = none) (hs : s.dropWhile isBlank ≠ [])
    (z : List UInt8) : valueBehind (s ++ z) = none := by
  unfold valueBehind at h ⊢
  cases hd : s.dropWhile isBlank with
  | nil => exact absurd hd hs
  | cons c t =>
      rw [hd] at h
      dsimp only at h
      split_ifs at h with hc
      rw [List.dropWhile_append, hd, if_neg (by simp), List.cons_append]
      exact if_neg hc

/-- **A key that is found in a part of a text** is found at the same place of the whole text. -/
theorem findFrom_append {key : List UInt8} {n : ℕ} {s q : List UInt8} (h : findFrom (quoted key) n s = some q)
    (z : List UInt8) : findFrom (quoted key) n (s ++ z) = some ((q ++ z).dropWhile isBlank) := by
  induction s generalizing n with
  | nil => cases n <;> exact absurd h (Option.some_ne_none q).symm
  | cons c s ih =>
      cases n with
      | succ n => exact ih h
      | zero =>
          have hlen := le_length_of_findFrom h
          have hpre : quoted key <+: c :: (s ++ z) ↔ quoted key <+: c :: s :=
            ⟨fun hpre => List.prefix_of_prefix_length_le hpre (List.prefix_append (c :: s) z) hlen,
              fun hpre => hpre.trans (List.prefix_append (c :: s) z)⟩
          rw [findFrom] at h
          rw [List.cons_append, findFrom]
          split_ifs at h with hhere
          · rw [if_pos (hpre.mpr hhere), ← List.cons_append, List.drop_append_of_le_length hlen]
            cases hvalue : valueBehind ((c :: s).drop (quoted key).length) with
            | some q' =>
                rw [hvalue] at h
                rw [valueBehind_append hvalue, ← Option.some.inj h]
            | none =>
                rw [hvalue] at h
                have hrest : ((c :: s).drop (quoted key).length).dropWhile isBlank ≠ [] := by
                  intro hnil
                  have hblank : ∀ b ∈ (c :: s).drop (quoted key).length, isBlank b = true :=
                    List.dropWhile_eq_nil_iff.mp hnil
                  have hquote : byte '"' ∉ (c :: s).drop (quoted key).length := fun hmem =>
                    absurd (hblank _ hmem) (by decide)
                  have hone : (quoted key).length = (quoted key).length - 1 + 1 := by simp [quoted]
                  have hnone := @findFrom_not_mem key _ hquote []
                  rw [List.append_nil] at hnone
                  dsimp only at h
                  rw [findFrom_skip] at h
                  rw [hone, List.drop_succ_cons, h] at hnone
                  exact absurd hnone (Option.some_ne_none q)
                rw [valueBehind_append_none hvalue hrest]
                exact ih h
          · rw [if_neg (mt hpre.mp hhere)]
            exact ih h

/-! ## What a schedule may hold -/

/-- A name in an array of some bytes. -/
def Name (room : ℕ) (s : List UInt8) : Prop :=
  s.length < room ∧ ∀ c ∈ s, 0x20 ≤ c ∧ c ≠ byte '"' ∧ c ≠ byte '\\'

/-- An integer. -/
def Whole (x : Double) : Prop := x.isFinite = true ∧ ∃ n : ℕ, x.magnitude = n

/-- A number with three decimals. -/
def ThreeDecimals (x : Double) : Prop :=
  ∃ (negative : Bool) (n : ℕ), n < 2 ^ 52 ∧ x = Double.nearest negative (n / 10 ^ 3)

structure PassTWire.Sound (p : PassTWire) : Prop where
  aos : Whole p.aosUnix
  los : Whole p.losUnix
  peak : Whole p.peakUnix
  el : ThreeDecimals p.peakElDeg
  az : ThreeDecimals p.peakAzDeg

structure PassScheduleT.Sound (s : PassScheduleT) : Prop where
  satellite : Name 64 s.satellite
  idesg : Name 9 s.idesg
  generated : Whole s.generatedUnix
  count : s.passes.length ≤ passSchedMax
  passes : ∀ p ∈ s.passes, p.Sound

/-! ## The head of a line -/

/-- What the keys are made of. -/
def KeyText (key : List UInt8) : Prop := key ≠ [] ∧ byte '"' ∉ key ∧ byte ':' ∉ key ∧ byte ',' ∉ key

instance (key : List UInt8) : Decidable (KeyText key) := inferInstanceAs (Decidable (_ ∧ _ ∧ _ ∧ _))

section
variable {key k : List UInt8} (hkey : KeyText key) (hk : byte '"' ∉ k) (hne : k ≠ key)
include hkey hk hne

theorem findFrom_name {v : List UInt8} (hv : byte '"' ∉ v) (s : List UInt8) :
    findFrom (quoted key) 0 (quoted k ++ byte ':' :: (quoted v ++ byte ',' :: s)) = findFrom (quoted key) 0 s := by
  obtain ⟨hnil, hquote, hcolon, hcomma⟩ := hkey
  have hvalue : valueBehind (byte ',' :: s) = none := by
    have hblank : ¬ isBlank (byte ',') = true := by decide
    rw [valueBehind, List.dropWhile_cons_of_neg hblank]
    exact if_neg (by decide)
  rw [findFrom_string hquote hk hcolon (by decide) hnil (.inl hne),
    findFrom_string hquote hv hcomma (by decide) hnil (.inr hvalue)]

theorem findFrom_number {t : List UInt8} (ht : byte '"' ∉ t) (s : List UInt8) :
    findFrom (quoted key) 0 (quoted k ++ byte ':' :: (t ++ byte ',' :: s)) = findFrom (quoted key) 0 s := by
  obtain ⟨hnil, hquote, hcolon, -⟩ := hkey
  have hskip : byte '"' ∉ t ++ [byte ','] := by
    rw [List.mem_append, not_or]
    exact ⟨ht, by decide⟩
  have hassoc : t ++ byte ',' :: s = t ++ [byte ','] ++ s := by simp
  rw [findFrom_string hquote hk hcolon (by decide) hnil (.inl hne), hassoc, findFrom_not_mem hskip]

end

theorem headText_append (s : PassScheduleT) (n : ℕ) (w : List UInt8) :
    s.headText n ++ w = [byte '{'] ++ (quoted (text "t") ++ byte ':' :: (quoted (text "passes") ++ byte ',' ::
      (quoted (text "sat") ++ byte ':' :: (quoted s.satellite ++ byte ',' ::
      (quoted (text "idesg") ++ byte ':' :: (quoted s.idesg ++ byte ',' ::
      (quoted (text "gen") ++ byte ':' :: (s.generatedUnix.printWhole ++ byte ',' ::
      (quoted (text "ep_min") ++ byte ':' :: (s.tleEpochMin.print ++ byte ',' ::
      (quoted (text "n") ++ byte ':' :: (decimal n ++ byte ',' ::
      (quoted (text "p") ++ byte ':' :: byte '[' :: w))))))))))))) := by
  have h₁ : text "\x7b\"t\":\"passes\",\"sat\":\"" = byte '{' :: (quoted (text "t") ++ byte ':' ::
      (quoted (text "passes") ++ byte ',' :: (quoted (text "sat") ++ [byte ':', byte '"']))) := by decide
  have h₂ : text "\",\"idesg\":\"" = byte '"' :: byte ',' :: (quoted (text "idesg") ++ [byte ':', byte '"']) := by
    decide
  have h₃ : text "\",\"gen\":" = byte '"' :: byte ',' :: (quoted (text "gen") ++ [byte ':']) := by decide
  have h₄ : text ",\"ep_min\":" = byte ',' :: (quoted (text "ep_min") ++ [byte ':']) := by decide
  have h₅ : text ",\"n\":" = byte ',' :: (quoted (text "n") ++ [byte ':']) := by decide
  have h₆ : text ",\"p\":[" = byte ',' :: (quoted (text "p") ++ [byte ':', byte '[']) := by decide
  rw [PassScheduleT.headText, h₁, h₂, h₃, h₄, h₅, h₆]
  simp [quoted]

theorem Name.not_mem {room : ℕ} {s : List UInt8} (h : Name room s) : byte '"' ∉ s := fun hmem => (h.2 _ hmem).2.1 rfl

theorem Whole.text_eq {x : Double} (h : Whole x) : ∃ n, x.printWhole = signText x.negative ++ decimal n := by
  obtain ⟨hfin, n, hn⟩ := h
  exact ⟨n, Double.printWhole_eq hfin hn⟩

/-- The bytes of an integer. -/
theorem Whole.mem {x : Double} (h : Whole x) {c : UInt8} (hc : c ∈ x.printWhole) : c = byte '-' ∨ isDigit c = true := by
  obtain ⟨n, heq⟩ := h.text_eq
  rw [heq, signText, List.mem_append] at hc
  rcases hc with hc | hc
  · split_ifs at hc
    · exact .inl (List.mem_singleton.mp hc)
    · exact absurd hc List.not_mem_nil
  · exact .inr (isDigit_of_mem_decimal hc)

theorem quote_not_mem_print (x : Double) : byte '"' ∉ x.print := by
  intro h
  rcases Double.mem_print h with (hdigit | hmark) | hletter
  · exact absurd hdigit (by decide)
  · exact absurd hmark (by decide)
  · exact absurd hletter (by decide)

section
variable {s : PassScheduleT} (hs : s.Sound) (n : ℕ) (w : List UInt8)
include hs

/-- What each key is found in front of. -/
theorem findKey_headText :
    (∃ r, findKey (s.headText n ++ w) (text "t") = some (quoted (text "passes") ++ byte ',' :: r)) ∧
    (∃ r, findKey (s.headText n ++ w) (text "sat") = some (quoted s.satellite ++ byte ',' :: r)) ∧
    (∃ r, findKey (s.headText n ++ w) (text "idesg") = some (quoted s.idesg ++ byte ',' :: r)) ∧
    (∃ r, findKey (s.headText n ++ w) (text "gen") =
      some ((s.generatedUnix.printWhole ++ byte ',' :: r).dropWhile isBlank)) ∧
    (∃ r, findKey (s.headText n ++ w) (text "ep_min") =
      some ((s.tleEpochMin.print ++ byte ',' :: r).dropWhile isBlank)) ∧
    (∃ r, findKey (s.headText n ++ w) (text "n") = some ((decimal n ++ byte ',' :: r).dropWhile isBlank)) ∧
    findKey (s.headText n ++ w) (text "p") = some (byte '[' :: w) := by
  have hbrace : byte '"' ∉ [byte '{'] := by decide
  have hpasses : byte '"' ∉ text "passes" := by decide
  have hsat := hs.satellite.not_mem
  have hidesg := hs.idesg.not_mem
  have hgen : byte '"' ∉ s.generatedUnix.printWhole := fun h =>
    (hs.generated.mem h).elim (fun h => absurd h (by decide)) fun h => absurd h (by decide)
  have hep := quote_not_mem_print s.tleEpochMin
  have hn : byte '"' ∉ decimal n := not_mem_decimal (by decide) n
  have hopen : ∀ v r, (quoted v ++ r).dropWhile isBlank = quoted v ++ r := fun v r =>
    List.dropWhile_cons_of_neg (by decide)
  simp only [headText_append, findKey, findFrom_not_mem hbrace]
  refine ⟨?_, ?_, ?_, ?_, ?_, ?_, ?_⟩
  · rw [findFrom_here, hopen]
    exact ⟨_, rfl⟩
  · rw [findFrom_name (by decide) (by decide) (by decide) hpasses, findFrom_here, hopen]
    exact ⟨_, rfl⟩
  · rw [findFrom_name (by decide) (by decide) (by decide) hpasses,
      findFrom_name (by decide) (by decide) (by decide) hsat, findFrom_here, hopen]
    exact ⟨_, rfl⟩
  · rw [findFrom_name (by decide) (by decide) (by decide) hpasses,
      findFrom_name (by decide) (by decide) (by decide) hsat,
      findFrom_name (by decide) (by decide) (by decide) hidesg, findFrom_here]
    exact ⟨_, rfl⟩
  · rw [findFrom_name (by decide) (by decide) (by decide) hpasses,
      findFrom_name (by decide) (by decide) (by decide) hsat,
      findFrom_name (by decide) (by decide) (by decide) hidesg,
      findFrom_number (by decide) (by decide) (by decide) hgen, findFrom_here]
    exact ⟨_, rfl⟩
  · rw [findFrom_name (by decide) (by decide) (by decide) hpasses,
      findFrom_name (by decide) (by decide) (by decide) hsat,
      findFrom_name (by decide) (by decide) (by decide) hidesg,
      findFrom_number (by decide) (by decide) (by decide) hgen,
      findFrom_number (by decide) (by decide) (by decide) hep, findFrom_here]
    exact ⟨_, rfl⟩
  · rw [findFrom_name (by decide) (by decide) (by decide) hpasses,
      findFrom_name (by decide) (by decide) (by decide) hsat,
      findFrom_name (by decide) (by decide) (by decide) hidesg,
      findFrom_number (by decide) (by decide) (by decide) hgen,
      findFrom_number (by decide) (by decide) (by decide) hep,
      findFrom_number (by decide) (by decide) (by decide) hn, findFrom_here]
    rfl

end

/-! ## Reading the head -/

theorem copyString_name {room : ℕ} {v : List UInt8} (hlen : v.length ≤ room)
    (hv : ∀ c ∈ v, c ≠ byte '"' ∧ c ≠ byte '\\') (r : List UInt8) : copyString room (v ++ byte '"' :: r) = v := by
  induction v generalizing room with
  | nil =>
      cases room with
      | zero => rw [copyString.eq_def]
      | succ room => rw [List.nil_append, copyString.eq_def]; exact if_pos rfl
  | cons c v ih =>
      obtain ⟨room, rfl⟩ : ∃ k, room = k + 1 := ⟨room - 1, by rw [List.length_cons] at hlen; omega⟩
      obtain ⟨hc, hrest⟩ := List.forall_mem_cons.mp hv
      rw [List.length_cons] at hlen
      have hstep : copyString (room + 1) (c :: (v ++ byte '"' :: r)) = c :: copyString room (v ++ byte '"' :: r) := by
        rw [copyString.eq_def]
        dsimp only
        rw [if_neg hc.1, if_neg hc.2]
      rw [List.cons_append, hstep, ih (by omega) hrest]

theorem getStr_of_findKey {json key v r : List UInt8} {outN : ℕ} (hlen : v.length < outN)
    (hv : ∀ c ∈ v, c ≠ byte '"' ∧ c ≠ byte '\\') (h : findKey json key = some (quoted v ++ byte ',' :: r)) :
    getStr json key outN = some v := by
  have hquoted : quoted v ++ byte ',' :: r = byte '"' :: (v ++ byte '"' :: byte ',' :: r) := by simp [quoted]
  rw [getStr, h, hquoted, Option.bind_some]
  dsimp only
  rw [if_pos rfl, copyString_name (by omega) hv]

theorem strtod_dropWhile_isBlank (s : List UInt8) : strtod (s.dropWhile isBlank) = strtod s := by
  have hspace : ∀ c, isBlank c = true → isCSpace c = true := by
    intro c hc
    simp only [isBlank, Bool.or_eq_true, beq_iff_eq] at hc
    rcases hc with rfl | rfl <;> decide
  have hdrop : (s.dropWhile isBlank).dropWhile isCSpace = s.dropWhile isCSpace := by
    induction s with
    | nil => rfl
    | cons c s ih =>
        by_cases hc : isBlank c = true
        · rw [List.dropWhile_cons_of_pos hc, List.dropWhile_cons_of_pos (hspace c hc), ih]
        · rw [List.dropWhile_cons_of_neg hc]
  unfold strtod
  rw [hdrop]

theorem getNum_of_findKey {json key t r : List UInt8}
    (h : findKey json key = some ((t ++ byte ',' :: r).dropWhile isBlank)) :
    getNum json key = strtod t := by
  rw [getNum, h, Option.bind_some, strtod_dropWhile_isBlank, strtod_append Double.delimits_comma]

section
variable (outOfRange : Double → ℤ)

theorem intOf_natCast {n : ℕ} (hn : n < 2 ^ 31) : intOf outOfRange (Double.nearest false n) = n := by
  obtain ⟨hneg, hfin, hmag⟩ := Double.nearest_natCast (by omega : n < 2 ^ 53) false
  have hfloor : ⌊(n : ℚ)⌋ = (n : ℤ) := Int.floor_natCast n
  unfold intOf
  dsimp only
  rw [hneg, hmag, if_neg Bool.false_ne_true, hfloor, if_pos ⟨hfin, by omega, by omega⟩]

/-- The line is read behind its head. -/
theorem decode_headText {s : PassScheduleT} (hs : s.Sound) {n : ℕ} (hn : n ≤ passSchedMax) (w : List UInt8) :
    passScheduleDecode outOfRange (s.headText n ++ w) =
      some { s with tleEpochMin := s.tleEpochMin.reread, passes := toPasses (readVals (5 * n) w) } := by
  obtain ⟨⟨_, ht⟩, ⟨_, hsat⟩, ⟨_, hidesg⟩, ⟨_, hgen⟩, ⟨_, hep⟩, ⟨_, hnum⟩, hp⟩ := findKey_headText hs n w
  have hname : ∀ {room v}, Name room v → ∀ c ∈ v, c ≠ byte '"' ∧ c ≠ byte '\\' := fun h c hc => (h.2 c hc).2
  have htype : getStr (s.headText n ++ w) (text "t") 16 = some (text "passes") :=
    getStr_of_findKey (by decide) (by decide) ht
  have hsat' := getStr_of_findKey hs.satellite.1 (hname hs.satellite) hsat
  have hidesg' := getStr_of_findKey hs.idesg.1 (hname hs.idesg) hidesg
  obtain ⟨hfin, m, hm⟩ := hs.generated
  have hgen' := (getNum_of_findKey hgen).trans (strtod_printWhole hfin hm).1
  have hep' := (getNum_of_findKey hep).trans (Double.strtod_print s.tleEpochMin)
  have hnum' : getNum (s.headText n ++ w) (text "n") = some (Double.nearest false n) := by
    have hread := (strtod_whole false (digits_decimal n)).1
    rw [digitsValue_decimal] at hread
    exact (getNum_of_findKey hnum).trans hread
  have hcount : countOf outOfRange (s.headText n ++ w) = n := by
    unfold passSchedMax at hn
    rw [countOf, hnum', Option.getD_some, intOf_natCast outOfRange (by omega), passSchedMax]
    omega
  have hpasses : passesOf outOfRange (s.headText n ++ w) = toPasses (readVals (5 * n) w) := by
    rw [passesOf, hp, hcount]
    exact if_pos rfl
  rw [passScheduleDecode, if_pos htype, hsat', hidesg', hgen', hep', hpasses]
  rfl

/-- A line that is cut in its head has no passes. -/
theorem decode_cut_head {s : PassScheduleT} (hs : s.Sound) {n : ℕ} {t z : List UInt8} (h : t ++ z = s.headText n)
    (hz : z ≠ []) (hlen : 14 ≤ t.length) : ∃ r, passScheduleDecode outOfRange t = some r ∧ r.passes = [] := by
  have hlead : text "\x7b\"t\":\"passes\"," = [byte '{'] ++ (quoted (text "t") ++ byte ':' ::
      (quoted (text "passes") ++ [byte ','])) := by decide
  have hfront : text "\x7b\"t\":\"passes\"," <+: s.headText n := by
    have htext : text "\x7b\"t\":\"passes\"," <+: text "\x7b\"t\":\"passes\",\"sat\":\"" := by decide
    exact htext.trans (List.prefix_append _ _)
  obtain ⟨w, rfl⟩ : text "\x7b\"t\":\"passes\"," <+: t := List.prefix_of_prefix_length_le hfront ⟨z, h⟩ hlen
  have htype : getStr (text "\x7b\"t\":\"passes\"," ++ w) (text "t") 16 = some (text "passes") := by
    have hbrace : byte '"' ∉ [byte '{'] := by decide
    have hassoc : text "\x7b\"t\":\"passes\"," ++ w = [byte '{'] ++ (quoted (text "t") ++ byte ':' ::
        (quoted (text "passes") ++ byte ',' :: w)) := by
      rw [hlead]
      simp
    refine getStr_of_findKey (r := w) (by decide) (by decide) ?_
    rw [findKey, hassoc, findFrom_not_mem hbrace, findFrom_here]
    rfl
  refine ⟨_, if_pos htype, ?_⟩
  show passesOf outOfRange _ = []
  have hfull := (findKey_headText hs n []).2.2.2.2.2.2
  rw [List.append_nil, ← h] at hfull
  unfold passesOf
  cases hp : findKey (text "\x7b\"t\":\"passes\"," ++ w) (text "p") with
  | none => rfl
  | some q =>
      cases q with
      | nil => rfl
      | cons c q =>
          dsimp only
          refine if_neg ?_
          rintro rfl
          -- in the whole head nothing comes behind the bracket
          have happend := findFrom_append hp z
          rw [findKey] at hfull
          rw [hfull, List.cons_append, List.dropWhile_cons_of_neg (by decide)] at happend
          exact hz (List.append_eq_nil_iff.mp (List.cons.inj (Option.some.inj happend)).2.symm).2

end

end SimpleSatOps.PassSchedule
