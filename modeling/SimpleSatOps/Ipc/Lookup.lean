import SimpleSatOps.Ipc.WireText

/-!
# Looking for a key on a line

* `pick` : the value of the first member with a key;
* `find_members_close`, `find_members_comma` : the reader finds it, whatever white space there is;
* `Event.pairs`, `members_body` : the members of an event's line;
* `getField_line` : what is found on the line of an event.
-/

namespace SimpleSatOps.Ipc
open Json JsonText

/-! ## In a list of members -/

/-- The value of the first member with the key, else `r`. -/
def pick (key : List UInt8) (r : Found) : List Pair → Found
  | [] => r
  | (k, v) :: ms => if k = key then .found (isQuoted v) (bare v) else pick key r ms

/-- A member whose key and value the reader takes whole. -/
def Readable (m : Pair) : Prop := Chars m.1 ∧ Token m.2

theorem Readable.member {k v w₀ w₁ w₂ w₃ : List UInt8} (h : Readable (k, v)) (h₀ : Blank w₀) (h₁ : Blank w₁)
    (h₂ : Blank w₂) (h₃ : Blank w₃) : Member w₀ k w₁ w₂ v w₃ :=
  ⟨h₀, skipBody_chars h.1, h₁, h₂, h.2, h₃⟩

theorem find_blank {w : List UInt8} (hw : Blank w) (key s : List UInt8) : find key (w ++ s) = find key s := by
  rw [find_eq, find_eq]
  have hnext : nextMember (w ++ s) = nextMember s := by
    unfold nextMember
    rw [skipWs_blank_append hw]
  rw [hnext]

/-- A list of members in front of the closing brace. -/
theorem find_members_close {ms : List Pair} {t : List UInt8} (h : Members ms t) (hms : ∀ m ∈ ms, Readable m)
    (key s : List UInt8) : find key (t ++ byte '}' :: s) = pick key .absent ms := by
  induction h with
  | nil hw => rw [find_blank hw, find_close, pick]
  | single h₀ h₁ h₂ h₃ =>
      rw [find_member_close ((hms _ List.mem_cons_self).member h₀ h₁ h₂ h₃)]
      rfl
  | cons h₀ h₁ h₂ h₃ _ ih =>
      rw [List.append_assoc, List.cons_append,
        find_member_comma ((hms _ List.mem_cons_self).member h₀ h₁ h₂ h₃), pick,
        ih fun m hm => hms m (List.mem_cons_of_mem _ hm)]

/-- A list of members in front of more of them. -/
theorem find_members_comma {ms : List Pair} (hne : ms ≠ []) {t : List UInt8} (h : Members ms t)
    (hms : ∀ m ∈ ms, Readable m) (key s : List UInt8) :
    find key (t ++ byte ',' :: s) = pick key (find key s) ms := by
  induction h with
  | nil => exact absurd rfl hne
  | single h₀ h₁ h₂ h₃ =>
      rw [find_member_comma ((hms _ List.mem_cons_self).member h₀ h₁ h₂ h₃)]
      rfl
  | cons h₀ h₁ h₂ h₃ _ ih =>
      rw [List.append_assoc, List.cons_append,
        find_member_comma ((hms _ List.mem_cons_self).member h₀ h₁ h₂ h₃), pick,
        ih (List.cons_ne_nil _ _) fun m hm => hms m (List.mem_cons_of_mem _ hm)]

theorem pick_append (key : List UInt8) (r : Found) (ms ms' : List Pair) :
    pick key r (ms ++ ms') = pick key (pick key r ms') ms := by
  induction ms with
  | nil => rfl
  | cons m ms ih => rw [List.cons_append, pick, pick, ih]

/-- A member with another key. -/
theorem pick_insert {key k : List UInt8} (h : k ≠ key) (v : List UInt8) (r : Found) (ms ms' : List Pair) :
    pick key r (ms ++ (k, v) :: ms') = pick key r (ms ++ ms') := by
  rw [pick_append, pick_append, pick, if_neg h]

/-! ## The members of an event -/

/-- The members written for some slots. -/
def Event.pairsOf (e : Event) (l : List Slot) : List Pair := l.map fun s => (s.key, e.valueText s)

/-- What an event has on the wire. -/
def Event.pairs (e : Event) : List Pair := e.pairsOf e.onWire

theorem members_joined (ms : List Pair) : Members ms (joined (ms.map fun m => memberText m.1 m.2)) := by
  induction ms with
  | nil => exact .nil .nil
  | cons m ms ih =>
      cases ms with
      | nil => exact .single .nil .nil .nil .nil
      | cons m' ms =>
          show Members _ (memberText m.1 m.2 ++ byte ',' :: joined ((m' :: ms).map fun m => memberText m.1 m.2))
          exact .cons .nil .nil .nil .nil ih

theorem mem_onWire {e : Event} {s : Slot} : s ∈ e.onWire ↔ s ∈ e.fields ∧ e.shown s = true := List.mem_filter

/-- The type is always there. -/
theorem mem_onWire_type (e : Event) : .type ∈ e.onWire := by
  have hname : ∀ t : EventType, ssoEventTypeName t ≠ [] := by
    intro t
    cases t <;> decide
  apply mem_onWire.mpr
  refine ⟨?_, bne_iff_ne.mpr (hname e.type)⟩
  simp [Event.fields, Event.headFields]

/-- The text of the members without white space. -/
def Event.textOf (e : Event) (l : List Slot) : List UInt8 := joined (l.map fun s => memberText s.key (e.valueText s))

theorem members_textOf (e : Event) (l : List Slot) : Members (e.pairsOf l) (e.textOf l) := by
  have h := members_joined (e.pairsOf l)
  rw [Event.pairsOf, List.map_map] at h
  exact h

theorem members_body (e : Event) : Members e.pairs e.body := members_textOf e e.onWire

/-- A roster among the slots has to be one that the reader takes whole. -/
theorem readable_pairsOf {e : Event} {l : List Slot} (h : .roster ∈ l → Token e.roster) :
    ∀ m ∈ e.pairsOf l, Readable m := by
  intro m hm
  obtain ⟨s, hs, rfl⟩ := List.mem_map.mp hm
  refine ⟨chars_key s, token_valueText e ?_⟩
  rintro rfl
  exact h hs

/-- No two slots have one key. -/
theorem pick_pairs (e : Event) (s : Slot) (l : List Slot) :
    pick s.key .absent (e.pairsOf l) =
      if s ∈ l then .found (isQuoted (e.valueText s)) (bare (e.valueText s)) else .absent := by
  induction l with
  | nil => rfl
  | cons s' l ih =>
      rw [Event.pairsOf, List.map_cons, pick]
      rw [Event.pairsOf] at ih
      rw [ih]
      by_cases hs : s' = s
      · subst hs
        rw [if_pos rfl, if_pos List.mem_cons_self]
      · have hkey : s'.key ≠ s.key := fun h => hs (key_injective h)
        rw [if_neg hkey]
        simp only [List.mem_cons, Ne.symm hs, false_or]

theorem getField_blank {w : List UInt8} (hw : Blank w) (s key : List UInt8) :
    getField (w ++ s) key = getField s key := by
  unfold getField
  rw [skipWs_blank_append hw]

theorem getField_brace (s key : List UInt8) : getField (byte '{' :: s) key = find key s := by
  rw [getField, skipWs_cons (by decide)]
  rfl

/-- The value of a slot is found as it was written. -/
theorem getField_line {e : Event} (h : .roster ∈ e.onWire → Token e.roster) (s : Slot) :
    getField e.line s.key =
      if s ∈ e.onWire then .found (isQuoted (e.valueText s)) (bare (e.valueText s)) else .absent := by
  have hend : text "\x7d\n" = byte '}' :: [byte '\n'] := by decide
  rw [Event.line, hend, getField_brace, find_members_close (members_body e) (readable_pairsOf h)]
  exact pick_pairs e s e.onWire

/-! ## No NUL -/

theorem nul_not_mem_of_le {s : List UInt8} (h : ∀ c ∈ s, 0x20 ≤ c) : 0 ∉ s :=
  fun hmem => absurd (h 0 hmem) (by decide)

theorem le_of_isDigit {c : UInt8} (h : isDigit c = true) : 0x20 ≤ c := by
  apply le_of_isXdigit
  unfold isXdigit
  rw [h]
  rfl

theorem le_of_mem_print (x : Double) : ∀ c ∈ x.print, 0x20 ≤ c := by
  intro c hc
  have hsign : ∀ b ∈ text ".e+-", 0x20 ≤ b := by decide
  have hname : ∀ b ∈ text "infa", 0x20 ≤ b := by decide
  rcases Double.mem_print hc with (h | h) | h
  · exact le_of_isDigit h
  · exact hsign c h
  · exact hname c h

/-- What is written for a slot has no control byte, unless the roster has. -/
theorem le_of_mem_valueText (e : Event) {s : Slot} (h : s ≠ .roster) : ∀ c ∈ e.valueText s, 0x20 ≤ c := by
  intro c hc
  cases s with
  | type => exact le_of_mem_quoted_escape _ c hc
  | str f => exact le_of_mem_quoted_escape _ c hc
  | dbl f => exact le_of_mem_print _ c hc
  | int f =>
      have hdigit : ∀ n : ℕ, ∀ c ∈ decimal n, 0x20 ≤ c := fun n c hc => le_of_isDigit (isDigit_of_mem_decimal hc)
      change c ∈ (if (e.int f).1 < 0 then byte '-' :: decimal _ else decimal _) at hc
      split_ifs at hc
      · rcases List.mem_cons.mp hc with rfl | hc
        · decide
        · exact hdigit _ c hc
      · exact hdigit _ c hc
  | flag f =>
      have hall : ∀ b : Bool, ∀ c ∈ (if b then text "true" else text "false"), 0x20 ≤ c := by decide
      exact hall _ c hc
  | roster => exact absurd rfl h
  | payload s => exact le_of_mem_quoted_escape _ c hc
  | ribbonPeak => exact le_of_mem_quoted_escape _ c hc

theorem nul_not_mem_valueText (e : Event) (s : Slot) : 0 ∉ e.valueText s := by
  by_cases h : s = .roster
  · subst h
    exact nul_not_mem_cstr _
  · exact nul_not_mem_of_le (le_of_mem_valueText e h)

theorem nul_not_mem_pairsOf (e : Event) (l : List Slot) : ∀ m ∈ e.pairsOf l, 0 ∉ m.1 ∧ 0 ∉ m.2 := by
  intro m hm
  obtain ⟨s, -, rfl⟩ := List.mem_map.mp hm
  exact ⟨nul_not_mem_chars (chars_key s), nul_not_mem_valueText e s⟩

/-- The line is a C string. -/
theorem nul_not_mem_line (e : Event) : 0 ∉ e.line := by
  have hbody := (members_body e).nul_not_mem (nul_not_mem_pairsOf e _)
  rw [Event.line, List.mem_cons, List.mem_append, not_or, not_or]
  exact ⟨by decide, hbody, by decide⟩

end SimpleSatOps.Ipc
