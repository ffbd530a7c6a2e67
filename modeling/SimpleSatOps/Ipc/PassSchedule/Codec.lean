import SimpleSatOps.Ipc.PassSchedule.Cut

/-!
# The line of passes, written and read

* `passScheduleEncode_eq` : the writer leaves the line, or as much of it as there is room for;
* `cutPasses_prefix_iff` : when a part of the passes is a beginning of them;
* `decode_take` : what is read from a line that is cut;
* `Codec`, `codec_iff` : the buffers with which no pass is changed.
-/

namespace SimpleSatOps.PassSchedule
open Json AgendaLine

/-! ## The text that is written -/

/-- Texts that are written one behind the other. -/
theorem foldlM_snprintfAt {outSize : ℕ} (pieces : List (List UInt8)) {out : List UInt8} (h : out.length < outSize) :
    pieces.foldlM (snprintfAt outSize) out =
      if (out ++ pieces.flatten).length < outSize then .ok (out ++ pieces.flatten)
      else .error ((out ++ pieces.flatten).take (outSize - 1)) := by
  induction pieces generalizing out with
  | nil =>
      rw [List.flatten_nil, List.append_nil, if_pos h]
      rfl
  | cons t pieces ih =>
      rw [List.foldlM_cons, List.flatten_cons, ← List.append_assoc, snprintfAt]
      by_cases ht : outSize ≤ out.length + t.length
      · have hlong : ¬ (out ++ t ++ pieces.flatten).length < outSize := by
          rw [List.length_append, List.length_append]
          omega
        have htake : (out ++ t ++ pieces.flatten).take (outSize - 1) = (out ++ t).take (outSize - 1) := by
          refine List.take_append_of_le_length ?_
          rw [List.length_append]
          omega
        rw [if_pos ht, if_neg hlong, htake]
        rfl
      · have hshort : (out ++ t).length < outSize := by
          rw [List.length_append]
          omega
        rw [if_neg ht]
        exact ih hshort

/-- A pass as it is written, with a comma in front of it if it is not the first. -/
def pieceText (p : PassTWire × ℕ) : List UInt8 := (if p.2 = 0 then [] else [byte ',']) ++ p.1.wireText

theorem pieces_behind (ps : List PassTWire) (i : ℕ) :
    ((ps.zipIdx (i + 1)).map pieceText).flatten ++ lineEnd =
      if ps.map PassTWire.wireText = [] then lineEnd else byte ',' :: commaText (ps.map PassTWire.wireText) := by
  induction ps generalizing i with
  | nil => rfl
  | cons p ps ih =>
      rw [List.zipIdx_cons, List.map_cons, List.flatten_cons, List.append_assoc, ih, List.map_cons, commaText_cons,
        if_neg (List.cons_ne_nil _ _), pieceText, if_neg (Nat.succ_ne_zero i)]
      rfl

theorem pieces_eq (ps : List PassTWire) :
    (ps.zipIdx.map pieceText).flatten ++ lineEnd = commaText (ps.map PassTWire.wireText) := by
  cases ps with
  | nil => rfl
  | cons p ps =>
      rw [List.zipIdx_cons, List.map_cons, List.flatten_cons, List.append_assoc, pieces_behind, List.map_cons,
        commaText_cons, pieceText, if_pos rfl]
      rfl

/-- The line of a schedule. -/
def PassScheduleT.line (s : PassScheduleT) : List UInt8 :=
  s.headText s.passes.length ++ commaText (s.passes.map PassTWire.wireText)

/-- **What the writer leaves**: the line, or as much of it as there is room for. -/
theorem passScheduleEncode_eq {s : PassScheduleT} (hcount : s.passes.length ≤ passSchedMax) {outSize : ℕ}
    (h : 16 ≤ outSize) :
    passScheduleEncode s outSize =
      some (if s.line.length < outSize then .ok s.line else .error (s.line.take (outSize - 1))) := by
  have hzero : ([] : List UInt8).length < outSize := by
    rw [List.length_nil]
    omega
  have hall := foldlM_snprintfAt
    ([s.headText s.passes.length] ++ (s.passes.zipIdx.map pieceText ++ [lineEnd])) hzero
  have hflat : [] ++ ([s.headText s.passes.length] ++ (s.passes.zipIdx.map pieceText ++ [lineEnd])).flatten =
      s.line := by
    rw [PassScheduleT.line, ← pieces_eq]
    simp
  rw [hflat, List.foldlM_append, List.foldlM_cons] at hall
  rw [passScheduleEncode, if_neg (by omega), List.take_of_length_le hcount, ← hall]
  simp only [List.foldlM_append, List.foldlM_map, List.foldlM_cons, List.foldlM_nil, bind_pure]
  rfl

/-! ## The part that is read -/

/-- Some passes with a comma behind each. -/
def passesFront (ps : List PassTWire) : List UInt8 := ps.flatMap fun p => p.wireText ++ [byte ',']

theorem length_passesFront_cons (p : PassTWire) (ps : List PassTWire) :
    (passesFront (p :: ps)).length = p.wireText.length + 1 + (passesFront ps).length := by
  rw [passesFront, List.flatMap_cons, List.length_append, List.length_append, List.length_singleton]
  rfl

/-- No azimuth ends at a place, unless it is unharmed. -/
def ClearAt (ps : List PassTWire) (k : ℕ) : Prop :=
  ∀ before p after shown dropped, ps = before ++ p :: after → p.azText = shown ++ dropped →
    k = (passesFront before ++ (p.azFront ++ shown)).length → Unharmed shown dropped

section
variable {p : PassTWire} {ps : List PassTWire} {k : ℕ}

theorem clearAt_front (h : k ≤ p.azFront.length) : ClearAt (p :: ps) k := by
  intro before q after shown dropped hps _ hk
  rw [List.length_append, List.length_append] at hk
  cases before with
  | nil =>
      obtain ⟨rfl, -⟩ := List.cons.inj hps
      have hnil : shown.length = 0 := by omega
      exact .inl (List.length_eq_zero_iff.mp hnil ▸ List.mem_cons_self)
  | cons b before =>
      obtain ⟨rfl, -⟩ := List.cons.inj hps
      have hlen := congrArg List.length p.wireText_eq
      rw [List.length_append] at hlen
      rw [length_passesFront_cons] at hk
      omega

theorem clearAt_azimuth (hlo : p.azFront.length < k) (hhi : k ≤ p.wireText.length) :
    ClearAt (p :: ps) k ↔
      Unharmed (p.azText.take (k - p.azFront.length)) (p.azText.drop (k - p.azFront.length)) := by
  have hlen := congrArg List.length p.wireText_eq
  rw [List.length_append] at hlen
  constructor
  · intro h
    refine h [] p ps _ _ rfl (List.take_append_drop _ _).symm ?_
    rw [passesFront, List.flatMap_nil, List.nil_append, List.length_append, List.length_take]
    omega
  · intro h before q after shown dropped hps htext hk
    rw [List.length_append, List.length_append] at hk
    cases before with
    | nil =>
        obtain ⟨rfl, -⟩ := List.cons.inj hps
        have hshown : k - p.azFront.length = shown.length := by
          rw [hk]
          show 0 + (p.azFront.length + shown.length) - p.azFront.length = shown.length
          omega
        rwa [hshown, htext, List.take_left, List.drop_left] at h
    | cons b before =>
        obtain ⟨rfl, -⟩ := List.cons.inj hps
        rw [length_passesFront_cons] at hk
        omega

theorem clearAt_behind (h : p.wireText.length < k) :
    ClearAt (p :: ps) k ↔ ClearAt ps (k - p.wireText.length - 1) := by
  have hlen := congrArg List.length p.wireText_eq
  rw [List.length_append] at hlen
  constructor
  · intro hclear before q after shown dropped hps htext hk
    refine hclear (p :: before) q after shown dropped (by rw [hps]; rfl) htext ?_
    rw [List.length_append] at hk ⊢
    rw [length_passesFront_cons]
    omega
  · intro hclear before q after shown dropped hps htext hk
    rw [List.length_append] at hk
    cases before with
    | nil =>
        obtain ⟨rfl, -⟩ := List.cons.inj hps
        have haz := congrArg List.length htext
        rw [List.length_append] at haz hk
        rw [passesFront, List.flatMap_nil, List.length_nil] at hk
        omega
    | cons b before =>
        obtain ⟨rfl, hrest⟩ := List.cons.inj hps
        rw [length_passesFront_cons] at hk
        refine hclear before q after shown dropped hrest htext ?_
        rw [List.length_append]
        omega

end

/-- **What is read from a list that is cut** is a beginning of it, if no azimuth is harmed. -/
theorem cutPasses_prefix_iff {ps : List PassTWire} (h : ∀ p ∈ ps, p.Sound) (k : ℕ) :
    cutPasses ps k <+: ps ↔ ClearAt ps k := by
  induction ps generalizing k with
  | nil => exact iff_of_true List.prefix_rfl fun before p after _ _ hps => by simp at hps
  | cons p ps ih =>
      obtain ⟨hp, hrest⟩ := List.forall_mem_cons.mp h
      rw [cutPasses]
      split_ifs with hfront haz
      · exact iff_of_true List.nil_prefix (clearAt_front hfront)
      · have hharm := unharmed_iff hp.az (List.take_append_drop (k - p.azFront.length) p.azText)
        rw [clearAt_azimuth (by omega) haz, ← hharm]
        cases strtod (p.azText.take (k - p.azFront.length)) with
        | none => exact iff_of_true List.nil_prefix (.inl rfl)
        | some v =>
            have hsame : { p with peakAzDeg := v } = p ↔ v = p.peakAzDeg :=
              ⟨fun heq => congrArg PassTWire.peakAzDeg heq, fun heq => by rw [heq]⟩
            rw [Option.toList_some, List.map_singleton, List.cons_prefix_cons, hsame, Option.some.injEq]
            exact ⟨fun heq => .inr heq.1, fun heq => ⟨heq.resolve_left (Option.some_ne_none v), List.nil_prefix⟩⟩
      · rw [List.prefix_cons_inj, ih hrest, clearAt_behind (by omega)]


/-! ## The text that is read -/

theorem length_numbers (ps : List PassTWire) : (ps.flatMap PassTWire.numbers).length = 5 * ps.length := by
  induction ps with
  | nil => rfl
  | cons p ps ih =>
      rw [List.flatMap_cons, List.length_append, ih, List.length_cons]
      show 5 + 5 * ps.length = 5 * (ps.length + 1)
      omega

section
variable (outOfRange : Double → ℤ)

section
variable {s : PassScheduleT} (hs : s.Sound)
include hs

/-- A line that is cut behind its head. -/
theorem decode_cut_list (j : ℕ) :
    passScheduleDecode outOfRange
        (s.headText s.passes.length ++ (commaText (s.passes.map PassTWire.wireText)).take j) =
      some { s with tleEpochMin := s.tleEpochMin.reread, passes := cutPasses s.passes j } := by
  have hprinted : ∀ x ∈ s.passes.flatMap PassTWire.numbers, Printed x.1 x.2 := by
    intro x hx
    obtain ⟨p, hp, hx⟩ := List.mem_flatMap.mp hx
    exact (hs.passes p hp).printed x hx
  rw [decode_headText outOfRange hs hs.count, ← length_numbers, ← commaText_numbers, readVals_take hprinted,
    toPasses_cutVals]

/-- **A line that is not cut** is read back. -/
theorem decode_line :
    passScheduleDecode outOfRange s.line = some { s with tleEpochMin := s.tleEpochMin.reread } := by
  have hall := decode_cut_list outOfRange hs (commaText (s.passes.map PassTWire.wireText)).length
  rw [List.take_length, cutPasses_of_le le_rfl] at hall
  exact hall

/-- **A line that is cut** gives a part of its passes. -/
theorem decode_take {k : ℕ} (h : 14 ≤ k) :
    ∃ r, passScheduleDecode outOfRange (s.line.take k) = some r ∧
      r.passes = cutPasses s.passes (k - (s.headText s.passes.length).length) := by
  by_cases hhead : k < (s.headText s.passes.length).length
  · have hrest : (s.headText s.passes.length).drop k ≠ [] := by
      intro hnil
      have hlen := List.drop_eq_nil_iff.mp hnil
      omega
    have hlong : 14 ≤ ((s.headText s.passes.length).take k).length := by
      rw [List.length_take]
      omega
    obtain ⟨r, hr, hnone⟩ := decode_cut_head outOfRange hs (List.take_append_drop k _) hrest hlong
    have hzero : k - (s.headText s.passes.length).length = 0 := by omega
    refine ⟨r, ?_, ?_⟩
    · rwa [PassScheduleT.line, List.take_append_of_le_length hhead.le]
    · rw [hnone, hzero]
      cases s.passes with
      | nil => rfl
      | cons p ps => exact (if_pos (Nat.zero_le _)).symm
  · rw [PassScheduleT.line, List.take_append, List.take_of_length_le (by omega), decode_cut_list outOfRange hs]
    exact ⟨_, rfl, rfl⟩

end

theorem length_readVals_le (want : ℕ) (q : List UInt8) : (readVals want q).length ≤ want := by
  induction want generalizing q with
  | zero => exact Nat.le_refl 0
  | succ want ih =>
      rw [readVals]
      split_ifs
      · exact Nat.zero_le _
      · cases strtod q with
        | none => exact Nat.zero_le _
        | some v => exact Nat.succ_le_succ (ih _)

theorem length_toPasses_le (vals : List Double) : 5 * (toPasses vals).length ≤ vals.length := by
  induction vals using toPasses.induct with
  | case1 aos los peak el az vals ih =>
      simp only [toPasses, List.length_cons]
      omega
  | case2 vals h =>
      rw [toPasses]
      · exact Nat.zero_le _
      · exact h

/-- No more passes are read than the line says, and no more than there is room for. -/
theorem length_decode_le {line : List UInt8} {r : PassScheduleT} (h : passScheduleDecode outOfRange line = some r) :
    r.passes.length ≤ countOf outOfRange line ∧ countOf outOfRange line ≤ passSchedMax := by
  have hcount : countOf outOfRange line ≤ passSchedMax := by
    rw [countOf, passSchedMax]
    omega
  refine ⟨?_, hcount⟩
  have hpasses : r.passes = passesOf outOfRange line := by
    rw [passScheduleDecode] at h
    split_ifs at h
    rw [← Option.some.inj h]
  rw [hpasses, passesOf]
  cases findKey line (text "p") with
  | none => exact Nat.zero_le _
  | some q =>
      cases q with
      | nil => exact Nat.zero_le _
      | cons c q =>
          dsimp only
          split_ifs
          · have hvals := length_readVals_le (5 * countOf outOfRange line) q
            have hwhole := length_toPasses_le (readVals (5 * countOf outOfRange line) q)
            omega
          · exact Nat.zero_le _

/-! ## The codec -/

/-- What is promised of a schedule and a buffer: the line is written and read back if there is room for it; if not, what
is written gives a beginning of the passes; and no line gives more passes than it says. -/
structure Codec (s : PassScheduleT) (outSize : ℕ) : Prop where
  room : 16 ≤ outSize → s.line.length < outSize →
    passScheduleEncode s outSize = some (.ok s.line) ∧
      passScheduleDecode outOfRange s.line = some { s with tleEpochMin := s.tleEpochMin.reread }
  cut : ∀ w, passScheduleEncode s outSize = some (.error w) →
    ∃ r, passScheduleDecode outOfRange w = some r ∧ r.passes <+: s.passes
  few : ∀ line r, passScheduleDecode outOfRange line = some r →
    r.passes.length ≤ countOf outOfRange line ∧ countOf outOfRange line ≤ passSchedMax

/-- The end of the buffer does not harm an azimuth. -/
def NoAzimuthCut (s : PassScheduleT) (outSize : ℕ) : Prop :=
  ∀ before p after shown dropped, s.passes = before ++ p :: after → p.azText = shown ++ dropped →
    outSize = (s.headText s.passes.length ++ (passesFront before ++ (p.azFront ++ shown))).length + 1 →
      Unharmed shown dropped

theorem noAzimuthCut_iff_clearAt {s : PassScheduleT} {outSize : ℕ} :
    NoAzimuthCut s outSize ↔ ClearAt s.passes (outSize - 1 - (s.headText s.passes.length).length) := by
  constructor
  · intro h before p after shown dropped hps htext hk
    by_cases hnil : shown = []
    · exact .inl (hnil ▸ List.mem_cons_self)
    · have hpos := List.length_pos_of_ne_nil hnil
      refine h before p after shown dropped hps htext ?_
      rw [List.length_append, List.length_append] at hk
      rw [List.length_append, List.length_append, List.length_append]
      omega
  · intro h before p after shown dropped hps htext hsize
    refine h before p after shown dropped hps htext ?_
    rw [hsize, List.length_append]
    omega

section
variable {s : PassScheduleT} (hs : s.Sound) (outSize : ℕ)
include hs

/-- What is promised of a buffer that is too small. -/
theorem cut_iff (h : 16 ≤ outSize) (hfull : ¬ s.line.length < outSize) :
    (∀ w, passScheduleEncode s outSize = some (.error w) →
        ∃ r, passScheduleDecode outOfRange w = some r ∧ r.passes <+: s.passes) ↔
      ClearAt s.passes (outSize - 1 - (s.headText s.passes.length).length) := by
  obtain ⟨r, hr, hpasses⟩ := decode_take outOfRange hs (by omega : 14 ≤ outSize - 1)
  rw [passScheduleEncode_eq hs.count h, if_neg hfull, ← cutPasses_prefix_iff hs.passes, ← hpasses]
  constructor
  · intro hcut
    obtain ⟨r', hr', hlead⟩ := hcut _ rfl
    rw [hr] at hr'
    rwa [Option.some.inj hr']
  · rintro hlead w hw
    rw [← Except.error.inj (Option.some.inj hw)]
    exact ⟨r, hr, hlead⟩

theorem codec_iff_clearAt :
    Codec outOfRange s outSize ↔ ClearAt s.passes (outSize - 1 - (s.headText s.passes.length).length) := by
  have hroom : 16 ≤ outSize → s.line.length < outSize →
      passScheduleEncode s outSize = some (.ok s.line) ∧
        passScheduleDecode outOfRange s.line = some { s with tleEpochMin := s.tleEpochMin.reread } := by
    intro h hlen
    exact ⟨by rw [passScheduleEncode_eq hs.count h, if_pos hlen], decode_line outOfRange hs⟩
  have hcodec : Codec outOfRange s outSize ↔ ∀ w, passScheduleEncode s outSize = some (.error w) →
      ∃ r, passScheduleDecode outOfRange w = some r ∧ r.passes <+: s.passes :=
    ⟨Codec.cut, fun h => ⟨hroom, h, fun _ _ => length_decode_le outOfRange⟩⟩
  rw [hcodec]
  by_cases h : 16 ≤ outSize
  · by_cases hlen : s.line.length < outSize
    · refine iff_of_true (fun w hw => ?_) ?_
      · rw [passScheduleEncode_eq hs.count h, if_pos hlen] at hw
        cases hw
      · rw [PassScheduleT.line, List.length_append] at hlen
        rw [← cutPasses_prefix_iff hs.passes, cutPasses_of_le (by omega)]
    · exact cut_iff outOfRange hs outSize h hlen
  · have hhead : 16 ≤ (s.headText s.passes.length).length := by
      have htext : (text "\x7b\"t\":\"passes\",\"sat\":\"").length = 21 := by decide
      rw [PassScheduleT.headText, List.length_append, htext]
      omega
    have hzero : outSize - 1 - (s.headText s.passes.length).length = 0 := by omega
    refine iff_of_true (fun w hw => ?_) ?_
    · rw [passScheduleEncode, if_pos (by omega)] at hw
      cases hw
    · rw [hzero, ← cutPasses_prefix_iff hs.passes]
      cases s.passes with
      | nil => exact List.prefix_rfl
      | cons p ps => rw [cutPasses, if_pos (Nat.zero_le _)]; exact List.nil_prefix

/-- **The line of passes** keeps what is promised of it exactly when the end of the buffer harms no azimuth. -/
theorem codec_iff : Codec outOfRange s outSize ↔ NoAzimuthCut s outSize := by
  rw [codec_iff_clearAt outOfRange hs, noAzimuthCut_iff_clearAt]

end

end

/-! ## One pass -/

/-- A pass at times of whole seconds, its angles in thousandths of a degree. -/
def passAt (aos los peak el az : ℕ) : PassTWire :=
  ⟨.nearest false aos, .nearest false los, .nearest false peak, .nearest false (el / 10 ^ 3),
    .nearest false (az / 10 ^ 3)⟩

/-- A schedule of one pass. -/
def onePass (satellite idesg : List UInt8) (generated : ℕ) (p : PassTWire) : PassScheduleT :=
  ⟨satellite, idesg, .nearest false generated, .zero, [p]⟩

theorem whole_nearest {n : ℕ} (hn : n < 2 ^ 53) : Whole (.nearest false n) := by
  obtain ⟨-, hfin, hmag⟩ := Double.nearest_natCast hn false
  exact ⟨hfin, n, hmag⟩

theorem printWhole_nearest {n : ℕ} (hn : n < 2 ^ 53) : Double.printWhole (.nearest false n) = decimal n := by
  obtain ⟨hneg, hfin, hmag⟩ := Double.nearest_natCast hn false
  rw [Double.printWhole_eq hfin hmag, hneg]
  rfl

section
variable {aos los peak el az : ℕ} (haos : aos < 2 ^ 53) (hlos : los < 2 ^ 53) (hpeak : peak < 2 ^ 53)
  (hel : el < 2 ^ 52)
include haos hlos hpeak hel

theorem sound_passAt (haz : az < 2 ^ 52) : (passAt aos los peak el az).Sound where
  aos := whole_nearest haos
  los := whole_nearest hlos
  peak := whole_nearest hpeak
  el := ⟨false, el, hel, rfl⟩
  az := ⟨false, az, haz, rfl⟩

theorem azFront_passAt : (passAt aos los peak el az).azFront =
    decimal aos ++ byte ',' :: (decimal los ++ byte ',' :: (decimal peak ++ byte ',' ::
      (fixedDigits 3 el ++ [byte ',']))) := by
  rw [PassTWire.azFront]
  simp only [passAt]
  rw [printWhole_nearest haos, printWhole_nearest hlos, printWhole_nearest hpeak, printFixed_three hel]
  rfl

end

theorem azText_passAt (aos los peak el : ℕ) {az : ℕ} (haz : az < 2 ^ 52) :
    (passAt aos los peak el az).azText = fixedDigits 3 az := printFixed_three haz false

section
variable {satellite idesg : List UInt8} (hsat : Name 64 satellite) (hidesg : Name 9 idesg) {generated : ℕ}
  (hgen : generated < 2 ^ 53) {p : PassTWire} (hp : p.Sound)
include hsat hidesg hgen hp

theorem sound_onePass : (onePass satellite idesg generated p).Sound where
  satellite := hsat
  idesg := hidesg
  generated := whole_nearest hgen
  count := by
    show 1 ≤ 128
    decide
  passes := by
    intro q hq
    rwa [List.mem_singleton.mp hq]

end

theorem headText_onePass (satellite idesg : List UInt8) {generated : ℕ} (hgen : generated < 2 ^ 53) (p : PassTWire) :
    (onePass satellite idesg generated p).headText 1 =
      text "\x7b\"t\":\"passes\",\"sat\":\"" ++ (satellite ++ (text "\",\"idesg\":\"" ++ (idesg ++
        (text "\",\"gen\":" ++ (decimal generated ++ text ",\"ep_min\":0,\"n\":1,\"p\":["))))) := by
  have hzero : Double.zero.print ++ (text ",\"n\":" ++ (decimal 1 ++ text ",\"p\":[")) = text "0,\"n\":1,\"p\":[" := by
    decide +kernel
  have htail : text ",\"ep_min\":" ++ text "0,\"n\":1,\"p\":[" = text ",\"ep_min\":0,\"n\":1,\"p\":[" := by decide
  simp only [PassScheduleT.headText, onePass]
  rw [printWhole_nearest hgen, hzero, htail]

/-- A pass of the space station, its azimuth in thousandths of a degree. -/
def stationPass (az : ℕ) : PassTWire := passAt 1767230000 1767230600 1767230300 45500 az

def station (az : ℕ) : PassScheduleT := onePass (text "ISS (ZARYA)") (text "98067A") 1767225600 (stationPass az)

theorem sound_station {az : ℕ} (haz : az < 2 ^ 52) : (station az).Sound := by
  have hsat : Name 64 (text "ISS (ZARYA)") := by
    unfold Name
    decide
  have hidesg : Name 9 (text "98067A") := by
    unfold Name
    decide
  have hp : (stationPass az).Sound :=
    sound_passAt (by norm_num) (by norm_num) (by norm_num) (by norm_num) haz
  exact sound_onePass hsat hidesg (by norm_num) hp

theorem length_station (az : ℕ) : ((station az).headText 1).length + (stationPass az).azFront.length = 130 := by
  rw [station, headText_onePass _ _ (by norm_num), stationPass,
    azFront_passAt (by norm_num) (by norm_num) (by norm_num) (by norm_num)]
  decide +kernel

/-- `123.000` that ends behind `123` is still the same number. -/
theorem codec_station : Codec (fun _ => 0) (station 123000) 134 := by
  refine (codec_iff _ (sound_station (by norm_num)) 134).mpr ?_
  intro before p after shown dropped hps htext hsize
  have hlen := length_station 123000
  have hazimuth : (stationPass 123000).azText = text "123.000" := by
    rw [stationPass, azText_passAt _ _ _ _ (by norm_num)]
    decide +kernel
  cases before with
  | nil =>
      obtain ⟨rfl, -⟩ := List.cons.inj hps
      have hshown : shown.length = 3 := by
        rw [List.length_append, List.length_append, List.length_append] at hsize
        have hfront : (passesFront []).length = 0 := rfl
        have hhead : (station 123000).passes.length = 1 := rfl
        rw [hfront, hhead] at hsize
        omega
      have hdropped : dropped = (text "123.000").drop 3 := by
        rw [← hazimuth, htext, ← hshown, List.drop_left]
      refine .inr ?_
      rw [hdropped]
      decide
  | cons b before => exact absurd (List.cons.inj hps).2 (by simp)

/-- `123.456` that ends behind `123.4` is another one. -/
theorem codec_cut_azimuth : ¬ Codec (fun _ => 0) (station 123456) 136 := by
  have hlen := length_station 123456
  have hazimuth : (stationPass 123456).azText = text "123.4" ++ text "56" := by
    rw [stationPass, azText_passAt _ _ _ _ (by norm_num)]
    decide +kernel
  rw [codec_iff_clearAt _ (sound_station (by norm_num))]
  intro hclear
  have hharm := hclear [] (stationPass 123456) [] (text "123.4") (text "56") rfl hazimuth ?_
  · revert hharm
    unfold Unharmed
    decide
  · have hshown : (text "123.4").length = 5 := by decide
    show 136 - 1 - ((station 123456).headText 1).length = _
    rw [passesFront, List.flatMap_nil, List.nil_append, List.length_append, hshown]
    omega

end SimpleSatOps.PassSchedule
