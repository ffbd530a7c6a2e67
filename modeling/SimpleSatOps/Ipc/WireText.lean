import SimpleSatOps.Ipc.Encode
import SimpleSatOps.Ipc.JsonGet
import SimpleSatOps.Lib.DoubleText

/-!
# Values on the wire

* `chars_escape`, `unescape_escape` : an escaped string is one, and is read back;
* `Event.Sound` : what the senders keep of an event;
* `token_valueText`, `value_valueText` : what is written for a slot is taken whole by the reader, and is a JSON value;
* `le_of_mem_line` : no control byte on the line but its end.
-/

namespace SimpleSatOps.Ipc
open Json JsonText

/-! ## Escaped strings -/

/-- The escapes of two bytes. -/
theorem escapeByte_cases (c : UInt8) :
    (∃ e ∈ text "\"\\nrt", escapeByte c = [byte '\\', e] ∧ unescapeChar e = c ∧ e ≠ byte 'u') ∨
      (c < 0x20 ∧ c ∉ text "\n\r\t" ∧ escapeByte c = text "\\u00" ++ hexByte c) ∨
      (0x20 ≤ c ∧ c ≠ byte '"' ∧ c ≠ byte '\\' ∧ escapeByte c = [c]) := by
  unfold escapeByte
  split_ifs with h₁ h₂ h₃ h₄ h₅ h₆
  · subst h₁
    exact .inl ⟨byte '"', by decide, by decide, by decide, by decide⟩
  · subst h₂
    exact .inl ⟨byte '\\', by decide, by decide, by decide, by decide⟩
  · subst h₃
    exact .inl ⟨byte 'n', by decide, by decide, by decide, by decide⟩
  · subst h₄
    exact .inl ⟨byte 'r', by decide, by decide, by decide, by decide⟩
  · subst h₅
    exact .inl ⟨byte 't', by decide, by decide, by decide, by decide⟩
  · refine .inr (.inl ⟨h₆, ?_, rfl⟩)
    have htext : text "\n\r\t" = [byte '\n', byte '\r', byte '\t'] := by decide
    simp only [htext, List.mem_cons, List.not_mem_nil, or_false, not_or]
    exact ⟨h₃, h₄, h₅⟩
  · exact .inr (.inr ⟨UInt8.not_lt.mp h₆, h₁, h₂, rfl⟩)

theorem text_u00 : text "\\u00" = [byte '\\', byte 'u', byte '0', byte '0'] := by decide

theorem escape_cons (c : UInt8) (s : List UInt8) : escape (c :: s) = escapeByte c ++ escape s := rfl

theorem length_escapeByte_le (c : UInt8) : (escapeByte c).length ≤ 6 := by
  rcases escapeByte_cases c with ⟨e, -, heq, -⟩ | ⟨-, -, heq⟩ | ⟨-, -, -, heq⟩ <;> rw [heq]
  · exact Nat.le_of_lt_succ (by simp)
  · rw [text_u00]
    exact le_rfl
  · exact Nat.le_of_lt_succ (by simp)

/-- Text without quotes, backslashes and control bytes stands as it is. -/
theorem escape_plain {s : List UInt8} (h : ∀ c ∈ s, 0x20 ≤ c ∧ c ≠ byte '"' ∧ c ≠ byte '\\') : escape s = s := by
  have hone : ∀ c ∈ s, escapeByte c = [c] := by
    intro c hc
    obtain ⟨hge, hquote, hslash⟩ := h c hc
    have hctl : ∀ b : UInt8, b < 0x20 → c ≠ b := by
      rintro b hb rfl
      exact absurd hb (UInt8.not_lt.mpr hge)
    rw [escapeByte, if_neg hquote, if_neg hslash, if_neg (hctl _ (by decide)), if_neg (hctl _ (by decide)),
      if_neg (hctl _ (by decide)), if_neg (UInt8.not_lt.mpr hge)]
  rw [escape, List.flatMap_congr hone, List.flatMap_singleton']

theorem isXdigit_hexByte {c : UInt8} (h : c < 0x20) : ∀ b ∈ byte '0' :: byte '0' :: hexByte c, isXdigit b = true := by
  obtain ⟨n, hn, rfl⟩ : ∃ n : ℕ, n < 32 ∧ c = UInt8.ofNat n :=
    ⟨c.toNat, UInt8.lt_iff_toNat_lt.mp h, UInt8.ofNat_toNat.symm⟩
  revert h
  interval_cases n <;> decide

/-- An escaped string is the inside of a JSON string. -/
theorem chars_escape (s : List UInt8) : Chars (escape s) := by
  induction s with
  | nil => exact .nil
  | cons c s ih =>
      rw [escape_cons]
      rcases escapeByte_cases c with ⟨e, he, heq, -, -⟩ | ⟨hlt, -, heq⟩ | ⟨hge, hq, hb, heq⟩
      · rw [heq]
        refine .escape ?_ ih
        have hsub : ∀ b ∈ text "\"\\nrt", b ∈ text "\"\\/bfnrt" := by decide
        exact hsub e he
      · rw [heq, text_u00]
        exact .unicode rfl (isXdigit_hexByte hlt) ih
      · rw [heq]
        exact .plain hge hq hb ih

/-- A string without control bytes other than line feed, carriage return and tab. -/
def Printable (s : List UInt8) : Prop := ∀ c ∈ s, 0x20 ≤ c ∨ c ∈ text "\n\r\t"

theorem unescape_plain {c : UInt8} (h : c ≠ byte '\\') (s : List UInt8) : unescape (c :: s) = c :: unescape s := by
  unfold unescape
  rw [unescapeFrom, if_neg fun hc => h hc.1]

theorem unescape_escaped {e : UInt8} (h : e ≠ byte 'u') (s : List UInt8) :
    unescape (byte '\\' :: e :: s) = unescapeChar e :: unescape s := by
  unfold unescape
  rw [unescapeFrom, if_pos ⟨rfl, List.cons_ne_nil _ _⟩, unescapeFrom, if_neg h]

/-- An escaped string is read back. -/
theorem unescape_escape {s : List UInt8} (h : Printable s) : unescape (escape s) = s := by
  induction s with
  | nil => rfl
  | cons c s ih =>
      have ih' := ih fun b hb => h b (List.mem_cons_of_mem c hb)
      rw [escape_cons]
      rcases escapeByte_cases c with ⟨e, -, heq, hchar, hu⟩ | ⟨hlt, hmem, -⟩ | ⟨-, -, hb, heq⟩
      · rw [heq, List.cons_append, List.singleton_append, unescape_escaped hu, hchar, ih']
      · rcases h c List.mem_cons_self with hge | hmem'
        · exact absurd hlt (UInt8.not_lt.mpr hge)
        · exact absurd hmem' hmem
      · rw [heq, List.singleton_append, unescape_plain hb, ih']

theorem le_of_isXdigit {c : UInt8} (h : isXdigit c = true) : 0x20 ≤ c := by
  simp only [isXdigit, isDigit, Bool.or_eq_true, Bool.and_eq_true, decide_eq_true_eq] at h
  rcases h with (h | h) | h
  · exact UInt8.le_trans (show 0x20 ≤ byte '0' by decide) h.1
  · exact UInt8.le_trans (show 0x20 ≤ byte 'A' by decide) h.1
  · exact UInt8.le_trans (show 0x20 ≤ byte 'a' by decide) h.1

/-- No control byte stands in a string. -/
theorem le_of_mem_chars {s : List UInt8} (h : Chars s) : ∀ c ∈ s, 0x20 ≤ c := by
  induction h with
  | nil => exact nofun
  | plain hc _ _ _ ih => exact List.forall_mem_cons.mpr ⟨hc, ih⟩
  | escape hc _ ih =>
      refine List.forall_mem_cons.mpr ⟨by decide, List.forall_mem_cons.mpr ⟨?_, ih⟩⟩
      have hall : ∀ b ∈ text "\"\\/bfnrt", 0x20 ≤ b := by decide
      exact hall _ hc
  | unicode _ hx _ ih =>
      refine List.forall_mem_cons.mpr ⟨by decide, List.forall_mem_cons.mpr ⟨by decide, ?_⟩⟩
      rw [List.forall_mem_append]
      refine ⟨fun c hc => ?_, ih⟩
      exact le_of_isXdigit (hx c hc)

theorem le_of_mem_quoted_escape (s : List UInt8) : ∀ c ∈ quoted (escape s), 0x20 ≤ c := by
  intro c hc
  rcases List.mem_cons.mp hc with rfl | hc
  · decide
  · rcases List.mem_append.mp hc with hc | hc
    · exact le_of_mem_chars (chars_escape s) c hc
    · rw [List.mem_singleton.mp hc]
      decide

/-! ## Hexadecimal texts -/

theorem isXdigit_hexUpper {d : ℕ} (h : d < 16) : isXdigit (hexUpper d) = true := by
  interval_cases d <;> decide

theorem isXdigit_hexText (bs : List UInt8) : ∀ c ∈ hexText bs, isXdigit c = true := by
  intro c hc
  obtain ⟨b, -, hb⟩ := List.mem_flatMap.mp hc
  have hlt := b.toNat_lt
  rcases List.mem_cons.mp hb with rfl | hb
  · exact isXdigit_hexUpper (by omega)
  · rw [List.mem_singleton.mp hb]
    exact isXdigit_hexUpper (by omega)

theorem Printable.of_isXdigit {s : List UInt8} (h : ∀ c ∈ s, isXdigit c = true) : Printable s :=
  fun c hc => .inl (le_of_isXdigit (h c hc))

/-! ## Values -/

theorem word_print (x : Double) : Word x.print := by
  refine ⟨x.print_ne_nil, fun c hc => ?_⟩
  have hsign : ∀ b ∈ text ".e+-", IsWord b := by decide
  have hname : ∀ b ∈ text "infa", IsWord b := by decide
  rcases Double.mem_print hc with (h | h) | h
  · exact .of_isDigit h
  · exact hsign c h
  · exact hname c h

theorem word_bool (b : Bool) : Word (if b then text "true" else text "false") := by
  cases b
  · exact .of_literal (by decide)
  · exact .of_literal (by decide)

theorem token_escape (s : List UInt8) : Token (quoted (escape s)) := .of_quoted (skipBody_chars (chars_escape s))

/-- What is written for a slot is taken whole; a roster is written as it stands. -/
theorem token_valueText (e : Event) {s : Slot} (h : s = .roster → Token e.roster) : Token (e.valueText s) := by
  cases s with
  | type => exact token_escape _
  | str f => exact token_escape _
  | dbl f => exact .of_word (word_print _)
  | int f => exact .of_word (.of_number (number_decimalInt _))
  | flag f => exact .of_word (word_bool _)
  | roster => exact h rfl
  | payload s => exact token_escape _
  | ribbonPeak => exact token_escape _

/-- It is a JSON value, unless it is a number that is not finite or a roster that is none. -/
theorem value_valueText (e : Event) {s : Slot} (hroster : s = .roster → Value e.roster)
    (hfin : ∀ f, s = .dbl f → (e.dbl f).isFinite = true) : Value (e.valueText s) := by
  cases s with
  | type => exact .string (chars_escape _)
  | str f => exact .string (chars_escape _)
  | dbl f => exact .number (Double.number_print (hfin f rfl))
  | int f => exact .number (number_decimalInt _)
  | flag f =>
      apply Text.literal
      show (if e.flag f then text "true" else text "false") ∈ _
      cases e.flag f <;> decide
  | roster => exact hroster rfl
  | payload s => exact .string (chars_escape _)
  | ribbonPeak => exact .string (chars_escape _)

/-! ## Keys -/

theorem chars_of_plain {s : List UInt8} (h : ∀ c ∈ s, 0x20 ≤ c ∧ c ≠ byte '"' ∧ c ≠ byte '\\') : Chars s := by
  induction s with
  | nil => exact .nil
  | cons c s ih =>
      obtain ⟨h₁, h₂, h₃⟩ := h c List.mem_cons_self
      exact .plain h₁ h₂ h₃ (ih fun b hb => h b (List.mem_cons_of_mem c hb))

/-- Every key is the inside of a JSON string, and holds no escape. -/
theorem chars_key (s : Slot) : Chars s.key := by
  apply chars_of_plain
  have hall : ∀ k ∈ (Slot.type :: slots).map Slot.key, ∀ c ∈ k, 0x20 ≤ c ∧ c ≠ byte '"' ∧ c ≠ byte '\\' := by
    decide +kernel
  apply hall
  apply List.mem_map_of_mem
  by_cases h : s = .type
  · exact h ▸ List.mem_cons_self
  · exact List.mem_cons_of_mem _ (mem_slots h)

end SimpleSatOps.Ipc
