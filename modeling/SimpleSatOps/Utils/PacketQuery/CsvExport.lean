import SimpleSatOps.Utils.PacketQuery

/-!
# What is read in the CSV text

* `Column`, `csvColumns`, `CsvExport` : what is to be read of the rows;
* `quotes_exportCsv`, `read_exportCsv_of_odd` : open fields are odd quotes, and an odd number of them is no CSV text;
* `csvExport_of_closed` : without open fields every row is read back.
-/

namespace SimpleSatOps.PacketQuery
open Csv PacketDb

/-! ## CSV -/

/-- What is to be read in a column: the text itself, or a prefix of it. -/
inductive Column
  | exact (v : List UInt8)
  | cut (v : List UInt8)

def Column.Reads : Column → List UInt8 → Prop
  | .exact v, got => got = v
  | .cut v, got => got <+: v

def csvColumns (localTime : Option LocalTime) (r : Stored) : List Column :=
  [.exact (decimalInt r.id), .cut (shownTime localTime r.tsReceived), .cut (r.satellite.getD []),
    .exact (printInt r.packetType), .cut r.packetTypeName,
    .exact (printInt r.cspSrc), .exact (printInt r.cspDst), .exact (printInt r.cspDport),
    .exact (printInt r.cspSport), .exact (printInt r.cspPrio), .exact (printInt r.cspFlags),
    .exact (printInt r.golayErrs), .exact (printInt r.rsErrs), .exact (printInt r.hmacOk),
    .exact (printInt r.crcStatus),
    .cut r.sourceTool, .cut (r.sourceRun.getD []),
    .exact (orEmpty (Double.printFixed 3) r.audioOffsetS),
    .exact (orEmpty (Double.printFixed 4) r.azDeg), .exact (orEmpty (Double.printFixed 4) r.elDeg),
    .exact (orEmpty (Double.printFixed 3) r.rangeKm), .exact (orEmpty (Double.printFixed 4) r.rangeRateKmS),
    .exact (orEmpty (Double.printFixed 1) r.dopplerHzOffset),
    .exact (orEmpty decimalInt r.tleId),
    .cut (r.sessionDir.getD []), .cut (r.captureOrigin.getD []),
    .exact (r.payload.flatMap hexByte), .exact (r.decodedSummary.getD [])]

/-- One record for each row behind the header, with its 28 columns. -/
def CsvExport (localTime : Option LocalTime) (rows : List Stored) : Prop :=
  ∃ recs, Csv.read (exportCsv localTime rows) = some (csvHeader :: recs) ∧
    List.Forall₂ (fun r rec => rec.length = 28 ∧ List.Forall₂ Column.Reads (csvColumns localTime r) rec) rows recs

theorem exists_forall₂ {α β γ : Type} {P : α → γ → Prop} {Q : γ → β → Prop} {as : List α} {bs : List β}
    (h : List.Forall₂ (fun a b => ∃ c, P a c ∧ Q c b) as bs) :
    ∃ cs, List.Forall₂ P as cs ∧ List.Forall₂ Q cs bs := by
  induction h with
  | nil => exact ⟨[], .nil, .nil⟩
  | cons hab _ ih =>
      obtain ⟨c, hac, hcb⟩ := hab
      obtain ⟨cs, has, hbs⟩ := ih
      exact ⟨c :: cs, .cons hac has, .cons hcb hbs⟩

/-! ### Texts that need no quotes -/

/-- The bytes of printed numbers and hexadecimal digits. -/
def plainBytes : List UInt8 := text "0123456789abcdef-.in"

theorem field_of_plain {v : List UInt8} (h : ∀ c ∈ v, c ∈ plainBytes) : Csv.Field v v := by
  have hall : ∀ c ∈ plainBytes, isSpecial c = false := by decide
  exact .inl ⟨fun c hc => hall c (h c hc), rfl⟩

theorem plain_of_isDigit {c : UInt8} (h : isDigit c = true) : c ∈ plainBytes := by
  have hall : ∀ c ∈ text "0123456789", c ∈ plainBytes := by decide
  exact hall c (Json.mem_digits_of_isDigit h)

theorem plain_decimal (n : ℕ) : ∀ c ∈ decimal n, c ∈ plainBytes :=
  fun _ hc => plain_of_isDigit (isDigit_of_mem_decimal hc)

theorem plain_decimalInt (z : ℤ) : ∀ c ∈ decimalInt z, c ∈ plainBytes := by
  unfold decimalInt
  split_ifs
  · exact List.forall_mem_cons.mpr ⟨by decide, plain_decimal _⟩
  · exact plain_decimal _

theorem plain_printFixed (k : ℕ) (x : Double) : ∀ c ∈ x.printFixed k, c ∈ plainBytes := by
  have hdigits : ∀ n, ∀ c ∈ fixedDigits k n, c ∈ plainBytes := by
    intro n c hc
    rcases List.mem_append.mp hc with hc | hc
    · exact plain_decimal _ c hc
    · rcases List.mem_cons.mp hc with rfl | hc
      · decide
      · exact plain_of_isDigit (isDigit_of_mem_zeroPad hc)
  have hmag : ∀ c ∈ (if x.isNan then text "nan" else if !x.isFinite then text "inf"
      else fixedDigits k (roundEven (x.magnitude * 10 ^ k))), c ∈ plainBytes := by
    split_ifs
    · decide
    · decide
    · exact hdigits _
  unfold Double.printFixed
  dsimp only
  by_cases hneg : x.negative = true
  · rw [if_pos hneg]
    exact List.forall_mem_cons.mpr ⟨by decide, hmag⟩
  · rw [if_neg hneg]
    exact hmag

theorem plain_hexByte (b : UInt8) : ∀ c ∈ hexByte b, c ∈ plainBytes := by
  have hall : ∀ d < 16, hexDigit d ∈ plainBytes := by decide
  have hlt := UInt8.toNat_lt b
  have hhi : b.toNat / 16 < 16 := by omega
  have hlo : b.toNat % 16 < 16 := Nat.mod_lt _ (by decide)
  exact List.forall_mem_cons.mpr ⟨hall _ hhi, List.forall_mem_singleton.mpr (hall _ hlo)⟩

theorem field_int (z : ℤ) : Csv.Field (decimalInt z) (decimalInt z) := field_of_plain (plain_decimalInt z)

theorem field_orEmpty {α : Type} {print : α → List UInt8} (h : ∀ a, ∀ c ∈ print a, c ∈ plainBytes) (v : Option α) :
    Csv.Field (orEmpty print v) (orEmpty print v) := by
  apply field_of_plain
  cases v with
  | none => exact fun c hc => absurd hc List.not_mem_nil
  | some a => exact h a

theorem field_real (k : ℕ) (v : Option Double) :
    Csv.Field (orEmpty (Double.printFixed k) v) (orEmpty (Double.printFixed k) v) :=
  field_orEmpty (plain_printFixed k) v

theorem field_hexEncode (bytes : List UInt8) :
    Csv.Field (bytes.flatMap hexByte) (hexEncode bytes (2 * bytes.length + 1)) := by
  rw [hexEncode_complete]
  apply field_of_plain
  intro c hc
  obtain ⟨b, -, hc⟩ := List.mem_flatMap.mp hc
  exact plain_hexByte b c hc

/-! ### Quotes -/

theorem even_quotes_field {v f : List UInt8} (h : Csv.Field v f) : Even (f.count (byte '"')) := by
  rcases h with ⟨hv, rfl⟩ | rfl
  · rw [List.count_eq_zero_of_not_mem fun hmem => (not_special (hv _ hmem)).2.1 rfl]
    exact Even.zero
  · obtain ⟨n, hn⟩ := even_quotes_doubled v
    rw [List.count_cons_self, List.count_append, List.count_singleton_self]
    exact ⟨n + 1, by omega⟩

/-- An escaped field has an even number of quotes unless it is left open. -/
theorem quotes_csvEscape (s : List UInt8) {outn : ℕ} (h : 2 < outn) :
    (csvEscape s outn).count (byte '"') % 2 = if straddles outn s = true then 1 else 0 := by
  obtain ⟨p, -, hp⟩ := csvEscape_spec s h
  split_ifs at hp ⊢ with hopen
  · obtain ⟨n, hn⟩ := even_quotes_doubled p
    rw [hp, List.count_cons_self]
    omega
  · exact Nat.even_iff.mp (even_quotes_field hp)

theorem quotes_joined : ∀ fs : List (List UInt8),
    (joined fs).count (byte '"') = (fs.map fun f => f.count (byte '"')).sum
  | [] => rfl
  | [f] => by simp [joined_singleton]
  | f :: g :: fs => by
      have hcomma : [byte ','].count (byte '"') = 0 := by decide
      rw [joined_cons_cons, List.count_append, List.count_append, hcomma, quotes_joined (g :: fs), List.map_cons,
        List.sum_cons]
      rfl

theorem quotes_lines (fss : List (List (List UInt8))) :
    (lines fss).count (byte '"') = (fss.map fun fs => (joined fs).count (byte '"')).sum := by
  induction fss with
  | nil => rfl
  | cons fs fss ih =>
      have hcons : lines (fs :: fss) = joined fs ++ [byte '\n'] ++ lines fss := rfl
      have hend : [byte '\n'].count (byte '"') = 0 := by decide
      rw [hcons, List.count_append, List.count_append, hend, ih, List.map_cons, List.sum_cons]
      rfl

theorem quotes_mod_two {fs : List (List UInt8)} {opened : List Bool}
    (h : List.Forall₂ (fun f b => f.count (byte '"') % 2 = if b = true then 1 else 0) fs opened) :
    (joined fs).count (byte '"') % 2 = opened.countP id % 2 := by
  rw [quotes_joined]
  induction h with
  | nil => rfl
  | @cons f b fs opened hf _ ih =>
      rw [List.map_cons, List.sum_cons, List.countP_cons, Nat.add_mod, hf, ih, id, Nat.add_comm]
      split_ifs <;> omega

/-- The quotes of a row are as many as its open fields, modulo two. -/
theorem quotes_csvFields (localTime : Option LocalTime) (r : Stored) :
    (joined (csvFields localTime r)).count (byte '"') % 2 = openFields localTime r % 2 := by
  have hclosed : ∀ {v f : List UInt8}, Csv.Field v f → f.count (byte '"') % 2 = if false = true then 1 else 0 :=
    fun h => Nat.even_iff.mp (even_quotes_field h)
  have hint : ∀ v, (printInt v).count (byte '"') % 2 = if false = true then 1 else 0 := fun v => hclosed (field_int _)
  have hreal : ∀ k v, (orEmpty (Double.printFixed k) v).count (byte '"') % 2 = if false = true then 1 else 0 :=
    fun k v => hclosed (field_real k v)
  have hcut : ∀ (s : List UInt8) {n : ℕ}, 2 < n →
      (csvEscape s n).count (byte '"') % 2 = if straddles n s = true then 1 else 0 := fun s n => quotes_csvEscape s
  have hall : List.Forall₂ (fun f b => f.count (byte '"') % 2 = if b = true then 1 else 0) (csvFields localTime r)
      ([false, straddles 80 (formatDisplayTs localTime r.tsReceived), straddles 40 (r.satellite.getD []), false,
        straddles 40 r.packetTypeName] ++ List.replicate 10 false ++
        [straddles 40 r.sourceTool, straddles 40 (r.sourceRun.getD [])] ++ List.replicate 7 false ++
        [straddles 512 (r.sessionDir.getD []), straddles 64 (r.captureOrigin.getD []), false, false]) :=
    .cons (hclosed (field_int _)) <| .cons (hcut _ (by decide)) <| .cons (hcut _ (by decide)) <| .cons (hint _) <|
    .cons (hcut _ (by decide)) <| .cons (hint _) <| .cons (hint _) <| .cons (hint _) <| .cons (hint _) <|
    .cons (hint _) <| .cons (hint _) <| .cons (hint _) <| .cons (hint _) <| .cons (hint _) <| .cons (hint _) <|
    .cons (hcut _ (by decide)) <| .cons (hcut _ (by decide)) <| .cons (hreal _ _) <| .cons (hreal _ _) <|
    .cons (hreal _ _) <| .cons (hreal _ _) <| .cons (hreal _ _) <| .cons (hreal _ _) <|
    .cons (hclosed (field_orEmpty plain_decimalInt _)) <| .cons (hcut _ (by decide)) <| .cons (hcut _ (by decide)) <|
    .cons (hclosed (field_hexEncode _)) <| .cons (hclosed (csvEscape_complete le_rfl)) .nil
  rw [quotes_mod_two hall]
  simp [openFields, cuts, List.countP_cons]

theorem field_csvHeader : ∀ f ∈ csvHeader, Csv.Field f f := by
  have hall : ∀ f ∈ csvHeader, ∀ c ∈ f, isSpecial c = false := by decide
  exact fun f hf => .inl ⟨hall f hf, rfl⟩

theorem quotes_exportCsv (localTime : Option LocalTime) (rows : List Stored) :
    (exportCsv localTime rows).count (byte '"') % 2 = (rows.map (openFields localTime)).sum % 2 := by
  have hheader : (joined csvHeader).count (byte '"') % 2 = 0 := by
    have hclosed : List.Forall₂ (fun f b => f.count (byte '"') % 2 = if b = true then 1 else 0) csvHeader
        (csvHeader.map fun _ => false) :=
      List.forall₂_map_right_iff.mpr (List.forall₂_same.mpr fun f hf =>
        Nat.even_iff.mp (even_quotes_field (field_csvHeader f hf)))
    exact quotes_mod_two hclosed
  have hrows : ((rows.map (csvFields localTime)).map fun fs => (joined fs).count (byte '"')).sum % 2 =
      (rows.map (openFields localTime)).sum % 2 := by
    induction rows with
    | nil => rfl
    | cons r rows ih => simp only [List.map_cons, List.sum_cons, Nat.add_mod _ (List.sum _), ih, quotes_csvFields]
  unfold exportCsv
  rw [quotes_lines, List.map_cons, List.sum_cons, Nat.add_mod, hheader, hrows, Nat.zero_add, Nat.mod_mod]

/-- With an odd number of open fields the text is no CSV text at all. -/
theorem read_exportCsv_of_odd {localTime : Option LocalTime} {rows : List Stored}
    (h : Odd (rows.map (openFields localTime)).sum) : Csv.read (exportCsv localTime rows) = none := by
  cases hread : Csv.read (exportCsv localTime rows) with
  | none => rfl
  | some recs =>
      have heven := Nat.even_iff.mp (even_quotes_of_read hread)
      rw [quotes_exportCsv, Nat.odd_iff.mp h] at heven
      exact absurd heven (by decide)

/-! ### Closed fields -/

/-- A field is for the prefix that fits when it is closed. -/
theorem reads_cut {s v : List UInt8} {outn : ℕ} (hs : cstr s <+: v) (h : 2 < outn)
    (hclosed : straddles outn s = false) : ∃ w, (Column.cut v).Reads w ∧ Csv.Field w (csvEscape s outn) := by
  obtain ⟨p, hp, hfield⟩ := csvEscape_spec s h
  rw [if_neg (Bool.eq_false_iff.mp hclosed)] at hfield
  exact ⟨p, hp.trans hs, hfield⟩

theorem cstr_isPrefix (s : List UInt8) : cstr s <+: s := List.takeWhile_prefix _

/-- The time shown is cut, never changed. -/
theorem formatDisplayTs_isPrefix (localTime : Option LocalTime) (iso : List UInt8) :
    cstr (formatDisplayTs localTime iso) <+: shownTime localTime iso :=
  (cstr_isPrefix _).trans ((List.take_prefix _ _).trans (cstr_isPrefix _))

/-- The columns of a row without open fields. -/
theorem reads_csvFields {localTime : Option LocalTime} {r : Stored} (h : openFields localTime r = 0) :
    List.Forall₂ (fun c f => ∃ v, c.Reads v ∧ Csv.Field v f) (csvColumns localTime r) (csvFields localTime r) := by
  have hclosed : ∀ f ∈ cuts localTime r, straddles f.1 f.2 = false := by
    simpa [openFields, List.countP_eq_zero] using h
  simp only [cuts, List.forall_mem_cons] at hclosed
  obtain ⟨hts, hsat, hname, htool, hrun, hdir, horigin, -⟩ := hclosed
  have hself : ∀ {v f : List UInt8}, Csv.Field v f → ∃ w, (Column.exact v).Reads w ∧ Csv.Field w f :=
    fun hf => ⟨_, rfl, hf⟩
  have hint : ∀ v, ∃ w, (Column.exact (printInt v)).Reads w ∧ Csv.Field w (printInt v) := fun v => hself (field_int _)
  have hreal : ∀ k v, ∃ w, (Column.exact (orEmpty (Double.printFixed k) v)).Reads w ∧
      Csv.Field w (orEmpty (Double.printFixed k) v) := fun k v => hself (field_real k v)
  have hsummary : cstr (r.decodedSummary.getD []) = r.decodedSummary.getD [] := by
    apply cstr_of_not_mem
    cases hsum : r.decodedSummary with
    | none => exact List.not_mem_nil
    | some t => exact r.noNul t hsum
  have hfull := csvEscape_complete (le_refl (2 * (cstr (r.decodedSummary.getD [])).length + 8))
  rw [hsummary] at hfull
  exact .cons (hself (field_int _)) <| .cons (reads_cut (formatDisplayTs_isPrefix _ _) (by decide) hts) <|
    .cons (reads_cut (cstr_isPrefix _) (by decide) hsat) <| .cons (hint _) <|
    .cons (reads_cut (cstr_isPrefix _) (by decide) hname) <| .cons (hint _) <| .cons (hint _) <| .cons (hint _) <|
    .cons (hint _) <| .cons (hint _) <| .cons (hint _) <| .cons (hint _) <| .cons (hint _) <| .cons (hint _) <|
    .cons (hint _) <| .cons (reads_cut (cstr_isPrefix _) (by decide) htool) <|
    .cons (reads_cut (cstr_isPrefix _) (by decide) hrun) <| .cons (hreal _ _) <| .cons (hreal _ _) <|
    .cons (hreal _ _) <| .cons (hreal _ _) <| .cons (hreal _ _) <| .cons (hreal _ _) <|
    .cons (hself (field_orEmpty plain_decimalInt _)) <| .cons (reads_cut (cstr_isPrefix _) (by decide) hdir) <|
    .cons (reads_cut (cstr_isPrefix _) (by decide) horigin) <| .cons (hself (field_hexEncode _)) <|
    .cons ⟨_, rfl, by rw [hsummary]; exact hfull⟩ .nil

theorem length_csvColumns (localTime : Option LocalTime) (r : Stored) : (csvColumns localTime r).length = 28 := rfl

/-- **Without open fields every row is read back.** -/
theorem csvExport_of_closed {localTime : Option LocalTime} {rows : List Stored}
    (h : ∀ r ∈ rows, openFields localTime r = 0) : CsvExport localTime rows := by
  have hrow : ∀ r ∈ rows, ∃ rec, (rec.length = 28 ∧ List.Forall₂ Column.Reads (csvColumns localTime r) rec) ∧
      rec ≠ [] ∧ List.Forall₂ Csv.Field rec (csvFields localTime r) := by
    intro r hr
    obtain ⟨rec, hreads, hfields⟩ := exists_forall₂ (reads_csvFields (h r hr))
    have hlen : rec.length = 28 := hreads.length_eq.symm
    exact ⟨rec, ⟨hlen, hreads⟩, List.ne_nil_of_length_pos (by omega), hfields⟩
  obtain ⟨recs, hrecs, hlines⟩ := exists_forall₂ (List.forall₂_same.mpr hrow)
  have hheader : List.Forall₂ Csv.Field csvHeader csvHeader := List.forall₂_same.mpr field_csvHeader
  refine ⟨recs, read_lines (.cons ⟨List.cons_ne_nil _ _, hheader⟩ ?_), hrecs⟩
  exact List.forall₂_map_right_iff.mpr hlines

end SimpleSatOps.PacketQuery
