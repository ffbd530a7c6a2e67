import Mathlib.Tactic
import SimpleSatOps.Lib.Double
import SimpleSatOps.Lib.Json

/-!
# What a JSON string stands for, and what stands outside of strings

* `escaped`, `stringValue` : the bytes a string stands for, a `\u` escape in UTF-8; surrogates are not read;
* `Side`, `side` : inside or outside of a string, byte by byte;
* `Text.outer` : outside of its strings a text holds no byte but those of `outside`.
-/

namespace SimpleSatOps.Json

/-- What an escape of two bytes stands for. -/
def escaped (e : UInt8) : Option UInt8 :=
  if e = byte '"' ∨ e = byte '\\' ∨ e = byte '/' then some e
  else if e = byte 'b' then some 0x08
  else if e = byte 'f' then some 0x0c
  else if e = byte 'n' then some (byte '\n')
  else if e = byte 'r' then some (byte '\r')
  else if e = byte 't' then some (byte '\t')
  else none

/-- The character with four hexadecimal digits. -/
def unicode (x : List UInt8) : Option (List UInt8) :=
  let n := x.foldl (fun v c => 16 * v + Double.hexValue c) 0
  if x.all isXdigit ∧ n.isValidChar then some (String.utf8EncodeChar (Char.ofNat n)) else none

/-- The value of what stands between the quotes. -/
def stringValue : List UInt8 → Option (List UInt8)
  | [] => some []
  | c :: s =>
      if c = byte '\\' then
        match s with
        | [] => none
        | e :: s =>
            if e = byte 'u' then
              match s with
              | x₀ :: x₁ :: x₂ :: x₃ :: s => do some ((← unicode [x₀, x₁, x₂, x₃]) ++ (← stringValue s))
              | _ => none
            else do some ((← escaped e) :: (← stringValue s))
      else if c < 0x20 ∨ c = byte '"' then none
      else do some (c :: (← stringValue s))

theorem stringValue_plain {c : UInt8} (hge : 0x20 ≤ c) (hquote : c ≠ byte '"') (hback : c ≠ byte '\\')
    (s : List UInt8) : stringValue (c :: s) = (stringValue s).map (c :: ·) := by
  rw [stringValue.eq_def]
  dsimp only
  rw [if_neg hback, if_neg (not_or.mpr ⟨UInt8.not_lt.mpr hge, hquote⟩)]
  cases stringValue s <;> rfl

theorem stringValue_escaped {e c : UInt8} (h : escaped e = some c) (s : List UInt8) :
    stringValue (byte '\\' :: e :: s) = (stringValue s).map (c :: ·) := by
  have hu : e ≠ byte 'u' := by
    rintro rfl
    have hnone : escaped (byte 'u') = none := by decide
    exact absurd (h.symm.trans hnone) (Option.some_ne_none c)
  rw [stringValue.eq_def]
  dsimp only
  rw [if_pos rfl, if_neg hu, h]
  cases stringValue s <;> rfl

theorem stringValue_unicode {x₀ x₁ x₂ x₃ : UInt8} {v : List UInt8} (h : unicode [x₀, x₁, x₂, x₃] = some v)
    (s : List UInt8) :
    stringValue (byte '\\' :: byte 'u' :: x₀ :: x₁ :: x₂ :: x₃ :: s) = (stringValue s).map (v ++ ·) := by
  rw [stringValue.eq_def]
  dsimp only
  rw [if_pos rfl, if_pos rfl, h]
  cases stringValue s <;> rfl

/-! ## Outside of strings -/

/-- Where a byte stands: outside of a string, in one, behind a backslash in one. -/
inductive Side
  | out | str | esc
deriving DecidableEq

/-- The bytes of brackets, separators, numbers, literals and white space. -/
def outside : List UInt8 := text "[]{},:0123456789+-.eEtrufalsn \t\n\r"

/-- The side behind a byte; `none` when the byte cannot stand there. -/
def side : Side → UInt8 → Option Side
  | .out, c => if c = byte '"' then some .str else if c ∈ outside then some .out else none
  | .str, c => some (if c = byte '\\' then .esc else if c = byte '"' then .out else .str)
  | .esc, _ => some .str

/-- The text starts and ends outside of a string. -/
abbrev Outer (s : List UInt8) : Prop := s.foldlM side .out = some .out

theorem Outer.append {s t : List UInt8} (hs : Outer s) (ht : Outer t) : Outer (s ++ t) := by
  unfold Outer
  rw [List.foldlM_append, hs]
  exact ht

/-- The text ends outside of a string if it gets that far. -/
def Ends (s : List UInt8) : Prop := Outer s ∨ s.foldlM side .out = none

theorem Outer.ends {s : List UInt8} (h : Outer s) : Ends s := .inl h

theorem outer_append_iff {s : List UInt8} (hs : Ends s) (t : List UInt8) : Outer (s ++ t) ↔ Outer s ∧ Outer t := by
  constructor
  · intro h
    rcases hs with hs | hs
    · unfold Outer at h
      rw [List.foldlM_append, hs] at h
      exact ⟨hs, h⟩
    · unfold Outer at h
      rw [List.foldlM_append, hs] at h
      exact absurd h.symm (Option.some_ne_none _)
  · exact fun h => h.1.append h.2

theorem Ends.append {s t : List UInt8} (hs : Ends s) (ht : Ends t) : Ends (s ++ t) := by
  unfold Ends Outer
  rw [List.foldlM_append]
  rcases hs with hs | hs <;> rw [hs]
  · exact ht
  · exact .inr rfl

theorem outer_of_mem {s : List UInt8} (h : ∀ c ∈ s, c ∈ outside) : Outer s := by
  induction s with
  | nil => rfl
  | cons c s ih =>
      obtain ⟨hc, hs⟩ := List.forall_mem_cons.mp h
      have hquote : c ≠ byte '"' := by
        rintro rfl
        exact absurd hc (by decide)
      have hstep : side .out c = some .out := by rw [side, if_neg hquote, if_pos hc]
      unfold Outer
      rw [List.foldlM_cons, hstep]
      exact ih hs

theorem outer_cons {c : UInt8} {s : List UInt8} (hc : c ∈ outside) (hs : Outer s) : Outer (c :: s) :=
  Outer.append (s := [c]) (outer_of_mem (List.forall_mem_singleton.mpr hc)) hs

theorem mem_outside_of_isWs {c : UInt8} (h : isWs c = true) : c ∈ outside := by
  simp only [isWs, Bool.or_eq_true, beq_iff_eq] at h
  rcases h with ((rfl | rfl) | rfl) | rfl <;> decide

theorem Blank.outer {w : List UInt8} (h : Blank w) : Outer w := outer_of_mem fun c hc => mem_outside_of_isWs (h c hc)

theorem foldlM_side_chars {s : List UInt8} (h : Chars s) : s.foldlM side .str = some .str := by
  induction h with
  | nil => rfl
  | @plain c s _ hquote hback _ ih =>
      have hstep : side .str c = some .str := by rw [side, if_neg hback, if_neg hquote]
      rw [List.foldlM_cons, hstep]
      exact ih
  | escape _ _ ih => exact ih
  | @unicode x s hlen hx _ ih =>
      have hdigits : x.foldlM side .str = some .str := by
        clear hlen ih
        induction x with
        | nil => rfl
        | cons c x ihx =>
            obtain ⟨hc, hx⟩ := List.forall_mem_cons.mp hx
            have hback : c ≠ byte '\\' := by
              rintro rfl
              exact absurd hc (by decide)
            have hquote : c ≠ byte '"' := by
              rintro rfl
              exact absurd hc (by decide)
            have hstep : side .str c = some .str := by rw [side, if_neg hback, if_neg hquote]
            rw [List.foldlM_cons, hstep]
            exact ihx hx
      show (byte 'u' :: (x ++ s)).foldlM side .esc = _
      rw [List.foldlM_cons]
      show (x ++ s).foldlM side .str = _
      rw [List.foldlM_append, hdigits]
      exact ih

theorem outer_quoted {s : List UInt8} (h : Chars s) : Outer (quoted s) := by
  show (s ++ [byte '"']).foldlM side .str = _
  rw [List.foldlM_append, foldlM_side_chars h]
  rfl

theorem mem_digits_of_isDigit {c : UInt8} (h : isDigit c = true) : c ∈ text "0123456789" := by
  have hrange : byte '0' ≤ c ∧ c ≤ byte '9' := by simpa [isDigit] using h
  have hall : ∀ n : ℕ, 0x30 ≤ n → n ≤ 0x39 → UInt8.ofNat n ∈ text "0123456789" := by
    intro n hlo hhi
    interval_cases n <;> decide
  rw [← UInt8.ofNat_toNat (x := c)]
  exact hall c.toNat (UInt8.le_iff_toNat_le.mp hrange.1) (UInt8.le_iff_toNat_le.mp hrange.2)

theorem Digits.outer {s : List UInt8} (h : Digits s) : Outer s := by
  have hall : ∀ c ∈ text "0123456789", c ∈ outside := by decide
  exact outer_of_mem fun c hc => hall c (mem_digits_of_isDigit (h.2 c hc))

theorem Number.outer {s : List UInt8} (h : Number s) : Outer s := by
  obtain ⟨hsign, hwhole, hfrac, hexp⟩ := h
  refine .append ?_ (.append ?_ (.append ?_ ?_))
  · rcases List.mem_pair.mp hsign with rfl | rfl <;> decide
  · rcases hwhole with rfl | ⟨hds, -⟩
    · decide
    · exact hds.outer
  · rcases hfrac with rfl | ⟨ds, hds, rfl⟩
    · decide
    · exact outer_cons (by decide) hds.outer
  · rcases hexp with rfl | ⟨e, sign, ds, he, hsign, hds, rfl⟩
    · decide
    · refine outer_cons ?_ (.append ?_ hds.outer)
      · rcases he with rfl | rfl <;> decide
      · simp only [List.mem_cons, List.not_mem_nil, or_false] at hsign
        rcases hsign with rfl | rfl | rfl <;> decide

theorem outer_member {w₀ k w₁ w₂ v w₃ : List UInt8} (h₀ : Blank w₀) (hk : Chars k) (h₁ : Blank w₁) (h₂ : Blank w₂)
    (hv : Outer v) (h₃ : Blank w₃) : Outer (member w₀ k w₁ w₂ v w₃) :=
  h₀.outer.append ((outer_quoted hk).append (h₁.outer.append
    (outer_cons (by decide) (h₂.outer.append (hv.append h₃.outer)))))

/-- **Outside of its strings a text holds no other bytes.** -/
theorem Text.outer {part : Part} {s : List UInt8} (h : Text part s) : Outer s := by
  have hbrackets : ∀ {o c : UInt8} {s : List UInt8}, o ∈ outside → c ∈ outside → Outer s → Outer (o :: (s ++ [c])) :=
    fun ho hc hs => outer_cons ho (hs.append (outer_of_mem (List.forall_mem_singleton.mpr hc)))
  induction h with
  | string h => exact outer_quoted h
  | number h => exact h.outer
  | literal h =>
      simp only [List.mem_cons, List.not_mem_nil, or_false] at h
      rcases h with rfl | rfl | rfl <;> decide
  | emptyArray hw => exact hbrackets (by decide) (by decide) hw.outer
  | array _ ih => exact hbrackets (by decide) (by decide) ih
  | emptyObject hw => exact hbrackets (by decide) (by decide) hw.outer
  | object _ ih => exact hbrackets (by decide) (by decide) ih
  | element hw _ hw' ih => exact hw.outer.append (ih.append hw'.outer)
  | elements hw _ hw' _ ih ihs => exact (hw.outer.append (ih.append hw'.outer)).append (outer_cons (by decide) ihs)
  | member h₀ hk h₁ h₂ _ h₃ ih => exact outer_member h₀ hk h₁ h₂ ih h₃
  | members h₀ hk h₁ h₂ _ h₃ _ ih ihs => exact (outer_member h₀ hk h₁ h₂ ih h₃).append (outer_cons (by decide) ihs)

end SimpleSatOps.Json
