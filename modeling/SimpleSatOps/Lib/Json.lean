import SimpleSatOps.Lib.CText

/-!
# JSON texts

The grammar on bytes; a byte from `0x20` on stands for itself in a string, whatever character it is part of.

* `isWs`, `Blank` : white space;
* `Chars` : what stands between the quotes of a string;
* `Number` : a number;
* `Text` : values, and what stands between the brackets of an array or an object;
* `quoted`, `member` : a string with its quotes, a member of an object with its white space;
* `Members`, `Elements` : the texts of a list of members, of a list of values, whatever white space stands between them;
* `nul_not_mem_text` : no NUL stands in a text.
-/

namespace SimpleSatOps.Json

def isWs (c : UInt8) : Bool := c == byte ' ' || c == byte '\t' || c == byte '\n' || c == byte '\r'

/-- A run of white space. -/
def Blank (w : List UInt8) : Prop := ∀ c ∈ w, isWs c = true

/-- The text between the quotes of a string. -/
inductive Chars : List UInt8 → Prop
  | nil : Chars []
  | plain {c : UInt8} {s : List UInt8} (hc : 0x20 ≤ c) (hquote : c ≠ byte '"') (hback : c ≠ byte '\\')
      (h : Chars s) : Chars (c :: s)
  | escape {c : UInt8} {s : List UInt8} (hc : c ∈ text "\"\\/bfnrt") (h : Chars s) : Chars (byte '\\' :: c :: s)
  | unicode {x : List UInt8} {s : List UInt8} (hlen : x.length = 4) (hx : ∀ c ∈ x, isXdigit c = true)
      (h : Chars s) : Chars (byte '\\' :: byte 'u' :: (x ++ s))

/-- A string with its quotes. -/
def quoted (s : List UInt8) : List UInt8 := byte '"' :: (s ++ [byte '"'])

/-- One digit at least. -/
def Digits (s : List UInt8) : Prop := s ≠ [] ∧ ∀ c ∈ s, isDigit c = true

/-- No digit in front of a leading zero. -/
def Whole (s : List UInt8) : Prop := s = [byte '0'] ∨ Digits s ∧ s.head? ≠ some (byte '0')

def Fraction (s : List UInt8) : Prop := s = [] ∨ ∃ ds, Digits ds ∧ s = byte '.' :: ds

def Exponent (s : List UInt8) : Prop :=
  s = [] ∨ ∃ e sign ds, (e = byte 'e' ∨ e = byte 'E') ∧ sign ∈ [[], [byte '+'], [byte '-']] ∧ Digits ds ∧
    s = e :: (sign ++ ds)

inductive Number : List UInt8 → Prop
  | mk {sign whole frac exp : List UInt8} (hsign : sign ∈ [[], [byte '-']]) (hwhole : Whole whole)
      (hfrac : Fraction frac) (hexp : Exponent exp) : Number (sign ++ (whole ++ (frac ++ exp)))

/-- White space, a key, white space, a colon, white space, a value, white space. -/
def member (w₀ k w₁ w₂ v w₃ : List UInt8) : List UInt8 := w₀ ++ (quoted k ++ (w₁ ++ byte ':' :: (w₂ ++ (v ++ w₃))))

/-- What a text is a text of. -/
inductive Part
  | value | elements | members

/-- The grammar: `elements` and `members` are what stands in a bracket that is not empty. -/
inductive Text : Part → List UInt8 → Prop
  | string {s : List UInt8} (h : Chars s) : Text .value (quoted s)
  | number {s : List UInt8} (h : Number s) : Text .value s
  | literal {s : List UInt8} (h : s ∈ [text "true", text "false", text "null"]) : Text .value s
  | emptyArray {w : List UInt8} (hw : Blank w) : Text .value (byte '[' :: (w ++ [byte ']']))
  | array {es : List UInt8} (h : Text .elements es) : Text .value (byte '[' :: (es ++ [byte ']']))
  | emptyObject {w : List UInt8} (hw : Blank w) : Text .value (byte '{' :: (w ++ [byte '}']))
  | object {ms : List UInt8} (h : Text .members ms) : Text .value (byte '{' :: (ms ++ [byte '}']))
  | element {w v w' : List UInt8} (hw : Blank w) (h : Text .value v) (hw' : Blank w') :
      Text .elements (w ++ (v ++ w'))
  | elements {w v w' es : List UInt8} (hw : Blank w) (h : Text .value v) (hw' : Blank w')
      (hes : Text .elements es) : Text .elements (w ++ (v ++ w') ++ byte ',' :: es)
  | member {w₀ k w₁ w₂ v w₃ : List UInt8} (h₀ : Blank w₀) (hk : Chars k) (h₁ : Blank w₁) (h₂ : Blank w₂)
      (h : Text .value v) (h₃ : Blank w₃) : Text .members (member w₀ k w₁ w₂ v w₃)
  | members {w₀ k w₁ w₂ v w₃ ms : List UInt8} (h₀ : Blank w₀) (hk : Chars k) (h₁ : Blank w₁) (h₂ : Blank w₂)
      (h : Text .value v) (h₃ : Blank w₃) (hms : Text .members ms) :
      Text .members (Json.member w₀ k w₁ w₂ v w₃ ++ byte ',' :: ms)

/-- A complete value. -/
abbrev Value (s : List UInt8) : Prop := Text .value s

/-- An object with its white space, as one line of a stream. -/
def Document (s : List UInt8) : Prop :=
  ∃ w ms w', Blank w ∧ (Blank ms ∨ Text .members ms) ∧ Blank w' ∧ s = w ++ (byte '{' :: (ms ++ byte '}' :: w'))

theorem Blank.nil : Blank [] := nofun

theorem Blank.append {w w' : List UInt8} (h : Blank w) (h' : Blank w') : Blank (w ++ w') :=
  fun c hc => (List.mem_append.mp hc).elim (h c) (h' c)

/-! ## Lists of members -/

/-- A key and a value, as they are written. -/
abbrev Pair : Type := List UInt8 × List UInt8

/-- The members `ms` in their order, with white space around the separators. -/
inductive Members : List Pair → List UInt8 → Prop
  | nil {w : List UInt8} (hw : Blank w) : Members [] w
  | single {w₀ k w₁ w₂ v w₃ : List UInt8} (h₀ : Blank w₀) (h₁ : Blank w₁) (h₂ : Blank w₂) (h₃ : Blank w₃) :
      Members [(k, v)] (member w₀ k w₁ w₂ v w₃)
  | cons {w₀ k w₁ w₂ v w₃ t : List UInt8} {m : Pair} {ms : List Pair} (h₀ : Blank w₀) (h₁ : Blank w₁) (h₂ : Blank w₂)
      (h₃ : Blank w₃) (h : Members (m :: ms) t) : Members ((k, v) :: m :: ms) (member w₀ k w₁ w₂ v w₃ ++ byte ',' :: t)

/-- A list that is not empty has a quote. -/
theorem Members.not_blank {m : Pair} {ms : List Pair} {t : List UInt8} (h : Members (m :: ms) t) : ¬ Blank t := by
  have hquote : ∀ w₀ k w₁ w₂ v w₃ : List UInt8, byte '"' ∈ member w₀ k w₁ w₂ v w₃ :=
    fun w₀ k w₁ w₂ v w₃ => List.mem_append_right _ (List.mem_append_left _ List.mem_cons_self)
  intro hblank
  cases h with
  | single => exact absurd (hblank _ (hquote ..)) (by decide)
  | cons => exact absurd (hblank _ (List.mem_append_left _ (hquote ..))) (by decide)

/-- Members with proper keys and values are the inside of an object. -/
theorem Members.text {ms : List Pair} {t : List UInt8} (h : Members ms t) (hms : ∀ m ∈ ms, Chars m.1 ∧ Value m.2) :
    Blank t ∨ Text .members t := by
  induction h with
  | nil hw => exact .inl hw
  | single h₀ h₁ h₂ h₃ =>
      obtain ⟨hk, hv⟩ := hms _ List.mem_cons_self
      exact .inr (.member h₀ hk h₁ h₂ hv h₃)
  | cons h₀ h₁ h₂ h₃ h ih =>
      obtain ⟨hk, hv⟩ := hms _ List.mem_cons_self
      rcases ih fun m hm => hms m (List.mem_cons_of_mem _ hm) with hblank | htext
      · exact absurd hblank h.not_blank
      · exact .inr (.members h₀ hk h₁ h₂ hv h₃ htext)

/-- The inside of an object is a list of members. -/
theorem Text.exists_members {t : List UInt8} (h : Text .members t) :
    ∃ ms, Members ms t ∧ ms ≠ [] ∧ ∀ m ∈ ms, Chars m.1 ∧ Value m.2 := by
  generalize hpart : Part.members = part at h
  induction h with
  | @member w₀ k w₁ w₂ v w₃ h₀ hk h₁ h₂ hv h₃ _ =>
      exact ⟨[(k, v)], .single h₀ h₁ h₂ h₃, List.cons_ne_nil _ _, List.forall_mem_singleton.mpr ⟨hk, hv⟩⟩
  | @members w₀ k w₁ w₂ v w₃ t h₀ hk h₁ h₂ hv h₃ _ _ ih =>
      obtain ⟨ms, hms, hne, hall⟩ := ih rfl
      obtain ⟨m, ms, rfl⟩ := List.exists_cons_of_ne_nil hne
      exact ⟨(k, v) :: m :: ms, .cons h₀ h₁ h₂ h₃ hms, List.cons_ne_nil _ _,
        List.forall_mem_cons.mpr ⟨⟨hk, hv⟩, hall⟩⟩
  | _ => cases hpart

theorem Document.exists_members {s : List UInt8} (h : Document s) :
    ∃ w ms t w', Blank w ∧ Members ms t ∧ (∀ m ∈ ms, Chars m.1 ∧ Value m.2) ∧ Blank w' ∧
      s = w ++ (byte '{' :: (t ++ byte '}' :: w')) := by
  obtain ⟨w, t, w', hw, ht, hw', rfl⟩ := h
  rcases ht with hblank | htext
  · exact ⟨w, [], t, w', hw, .nil hblank, nofun, hw', rfl⟩
  · obtain ⟨ms, hms, -, hall⟩ := htext.exists_members
    exact ⟨w, ms, t, w', hw, hms, hall, hw', rfl⟩

/-! ## Lists of elements -/

/-- The values `es` in their order, with white space around the commas. -/
inductive Elements : List (List UInt8) → List UInt8 → Prop
  | nil {w : List UInt8} (hw : Blank w) : Elements [] w
  | single {w v w' : List UInt8} (hw : Blank w) (hw' : Blank w') : Elements [v] (w ++ (v ++ w'))
  | cons {w v w' t e : List UInt8} {es : List (List UInt8)} (hw : Blank w) (hw' : Blank w')
      (h : Elements (e :: es) t) : Elements (v :: e :: es) (w ++ (v ++ w') ++ byte ',' :: t)

/-- Values between brackets are an array. -/
theorem Elements.value {es : List (List UInt8)} {t : List UInt8} (h : Elements es t) (hes : ∀ e ∈ es, Value e) :
    Value (byte '[' :: (t ++ [byte ']'])) := by
  have hbody : es = [] ∧ Blank t ∨ Text .elements t := by
    induction h with
    | nil hw => exact .inl ⟨rfl, hw⟩
    | single hw hw' => exact .inr (.element hw (hes _ List.mem_cons_self) hw')
    | cons hw hw' _ ih =>
        rcases ih fun e he => hes e (List.mem_cons_of_mem _ he) with ⟨hnil, -⟩ | htext
        · exact absurd hnil (List.cons_ne_nil _ _)
        · exact .inr (.elements hw (hes _ List.mem_cons_self) hw' htext)
  rcases hbody with ⟨-, hblank⟩ | htext
  · exact .emptyArray hblank
  · exact .array htext

/-! ## No NUL -/

theorem nul_not_mem_blank {w : List UInt8} (h : Blank w) : 0 ∉ w := fun hmem => absurd (h 0 hmem) (by decide)

theorem nul_not_mem_chars {s : List UInt8} (h : Chars s) : 0 ∉ s := by
  induction h with
  | nil => exact List.not_mem_nil
  | plain hc _ _ _ ih =>
      rintro (_ | ⟨_, hmem⟩)
      · exact absurd hc (by decide)
      · exact ih hmem
  | escape hc _ ih =>
      rintro (_ | ⟨_, _ | ⟨_, hmem⟩⟩)
      · exact absurd hc (by decide)
      · exact ih hmem
  | unicode _ hx _ ih =>
      rintro (_ | ⟨_, _ | ⟨_, hmem⟩⟩)
      rcases List.mem_append.mp hmem with hmem | hmem
      · exact absurd (hx 0 hmem) (by decide)
      · exact ih hmem

theorem nul_not_mem_digits {s : List UInt8} (h : Digits s) : 0 ∉ s := fun hmem => absurd (h.2 0 hmem) (by decide)

theorem nul_not_mem_number {s : List UInt8} (h : Number s) : 0 ∉ s := by
  obtain ⟨hsign, hwhole, hfrac, hexp⟩ := h
  simp only [List.mem_append, not_or]
  refine ⟨?_, ?_, ?_, ?_⟩
  · rcases List.mem_pair.mp hsign with rfl | rfl <;> decide
  · rcases hwhole with rfl | ⟨hds, -⟩
    · decide
    · exact nul_not_mem_digits hds
  · rcases hfrac with rfl | ⟨ds, hds, rfl⟩
    · decide
    · exact List.not_mem_cons_of_ne_of_not_mem (by decide) (nul_not_mem_digits hds)
  · rcases hexp with rfl | ⟨e, sign, ds, he, hsign, hds, rfl⟩
    · decide
    · have hsign0 : (0 : UInt8) ∉ sign := by
        simp only [List.mem_cons, List.not_mem_nil, or_false] at hsign
        rcases hsign with rfl | rfl | rfl <;> decide
      apply List.not_mem_cons_of_ne_of_not_mem
      · rcases he with rfl | rfl <;> decide
      · rw [List.mem_append, not_or]
        exact ⟨hsign0, nul_not_mem_digits hds⟩

theorem nul_not_mem_quoted {s : List UInt8} (h : 0 ∉ s) : 0 ∉ quoted s := by
  unfold quoted
  simp only [List.mem_cons, List.mem_append, List.not_mem_nil, or_false, not_or]
  exact ⟨by decide, h, by decide⟩

theorem nul_not_mem_member {w₀ k w₁ w₂ v w₃ : List UInt8} (h₀ : Blank w₀) (hk : 0 ∉ k) (h₁ : Blank w₁) (h₂ : Blank w₂)
    (hv : 0 ∉ v) (h₃ : Blank w₃) : 0 ∉ member w₀ k w₁ w₂ v w₃ := by
  unfold member
  simp only [List.mem_cons, List.mem_append, not_or]
  exact ⟨nul_not_mem_blank h₀, nul_not_mem_quoted hk, nul_not_mem_blank h₁, by decide, nul_not_mem_blank h₂, hv,
    nul_not_mem_blank h₃⟩

theorem nul_not_mem_text {part : Part} {s : List UInt8} (h : Text part s) : 0 ∉ s := by
  have hbrackets : ∀ {o c : UInt8} {s : List UInt8}, o ≠ 0 → c ≠ 0 → 0 ∉ s → 0 ∉ o :: (s ++ [c]) := by
    intro o c s ho hc hs
    simp only [List.mem_cons, List.mem_append, List.not_mem_nil, or_false, not_or]
    exact ⟨ho.symm, hs, hc.symm⟩
  induction h with
  | string h => exact nul_not_mem_quoted (nul_not_mem_chars h)
  | number h => exact nul_not_mem_number h
  | literal h =>
      simp only [List.mem_cons, List.not_mem_nil, or_false] at h
      rcases h with rfl | rfl | rfl <;> decide
  | emptyArray hw => exact hbrackets (by decide) (by decide) (nul_not_mem_blank hw)
  | array _ ih => exact hbrackets (by decide) (by decide) ih
  | emptyObject hw => exact hbrackets (by decide) (by decide) (nul_not_mem_blank hw)
  | object _ ih => exact hbrackets (by decide) (by decide) ih
  | element hw _ hw' ih =>
      simp only [List.mem_append, not_or]
      exact ⟨nul_not_mem_blank hw, ih, nul_not_mem_blank hw'⟩
  | elements hw _ hw' _ ih ihs =>
      simp only [List.mem_append, List.mem_cons, not_or]
      exact ⟨⟨nul_not_mem_blank hw, ih, nul_not_mem_blank hw'⟩, by decide, ihs⟩
  | member h₀ hk h₁ h₂ _ h₃ ih => exact nul_not_mem_member h₀ (nul_not_mem_chars hk) h₁ h₂ ih h₃
  | members h₀ hk h₁ h₂ _ h₃ _ ih ihs =>
      simp only [List.mem_append, List.mem_cons, not_or]
      exact ⟨nul_not_mem_member h₀ (nul_not_mem_chars hk) h₁ h₂ ih h₃, by decide, ihs⟩

theorem Members.nul_not_mem {ms : List Pair} {t : List UInt8} (h : Members ms t) (hms : ∀ m ∈ ms, 0 ∉ m.1 ∧ 0 ∉ m.2) :
    0 ∉ t := by
  induction h with
  | nil hw => exact nul_not_mem_blank hw
  | single h₀ h₁ h₂ h₃ =>
      obtain ⟨hk, hv⟩ := hms _ List.mem_cons_self
      exact nul_not_mem_member h₀ hk h₁ h₂ hv h₃
  | cons h₀ h₁ h₂ h₃ _ ih =>
      obtain ⟨hk, hv⟩ := hms _ List.mem_cons_self
      simp only [List.mem_append, List.mem_cons, not_or]
      exact ⟨nul_not_mem_member h₀ hk h₁ h₂ hv h₃, by decide, ih fun m hm => hms m (List.mem_cons_of_mem _ hm)⟩

end SimpleSatOps.Json
