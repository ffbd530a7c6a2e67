import SimpleSatOps.Ipc.Roster

/-!
# One bounded line

* `Event.size` : the length of the line of an event, from the lengths of its keys and values;
* `OneLine` : bytes that fit and hold one line feed, at the end of the text;
* `le_of_mem_body` : no control byte stands between the braces;
* `encode_oneLine_iff` : what the encoder writes fits, unless the line has exactly the size of the buffer.
-/

namespace SimpleSatOps.Ipc
open Json JsonText

/-- Braces and line feed, and for every member its quotes, its colon and a comma, less the first one's comma. -/
def Event.size (e : Event) : ℕ := 2 + (e.onWire.map fun s => s.key.length + (e.valueText s).length + 4).sum

/-- Bytes in a buffer of `outSize`: one line and a NUL. -/
def OneLine (outSize : ℕ) (bytes : List UInt8) : Prop :=
  bytes.length ≤ outSize ∧ ∃ body, byte '\n' ∉ body ∧ cstr bytes = body ++ [byte '\n'] ∧ bytes = cstr bytes ++ [0]

/-! ## Length -/

theorem length_joined {ms : List (List UInt8)} (h : ms ≠ []) :
    (joined ms).length + 1 = (ms.map fun m => m.length + 1).sum := by
  induction ms with
  | nil => exact absurd rfl h
  | cons m ms ih =>
      by_cases hms : ms = []
      · subst hms
        rw [List.map_singleton, List.sum_singleton]
        rfl
      · rw [joined_cons m hms, List.length_append, List.length_cons, List.map_cons, List.sum_cons, ← ih hms]
        omega

theorem length_memberText (k v : List UInt8) : (memberText k v).length = k.length + v.length + 3 := by
  simp only [memberText, member, quoted, List.length_append, List.length_cons, List.length_nil]
  omega

theorem length_line (e : Event) : e.line.length = e.size := by
  have hend : (text "\x7d\n").length = 2 := by decide
  have hne : (e.onWire.map fun s => memberText s.key (e.valueText s)) ≠ [] :=
    mt List.map_eq_nil_iff.mp (List.ne_nil_of_mem (mem_onWire_type e))
  have hlen := length_joined hne
  rw [List.map_map] at hlen
  have hsum : (fun m : List UInt8 => m.length + 1) ∘ (fun s : Slot => memberText s.key (e.valueText s)) =
      fun s => s.key.length + (e.valueText s).length + 4 := by
    funext s
    show (memberText s.key (e.valueText s)).length + 1 = _
    rw [length_memberText]
  rw [hsum] at hlen
  rw [Event.line, List.length_cons, List.length_append, hend, Event.size, ← hlen]
  show (joined _).length + 2 + 1 = 2 + _
  omega

/-- The type is always there, so the line is never as short as the smallest buffer. -/
theorem eight_le_size (e : Event) : 8 ≤ e.size := by
  have hquoted : 2 ≤ (e.valueText .type).length := by
    show 2 ≤ (quoted _).length
    rw [quoted, List.length_cons, List.length_append, List.length_singleton]
    omega
  have hmem : (Slot.type.key.length + (e.valueText .type).length + 4) ∈
      e.onWire.map fun s => s.key.length + (e.valueText s).length + 4 :=
    List.mem_map_of_mem (mem_onWire_type e)
  have hle := List.le_sum_of_mem hmem
  unfold Event.size
  omega

/-! ## Line feeds -/

theorem mem_joined {c : UInt8} {ms : List (List UInt8)} (h : c ∈ joined ms) : c = byte ',' ∨ ∃ m ∈ ms, c ∈ m := by
  induction ms with
  | nil => exact absurd h List.not_mem_nil
  | cons m ms ih =>
      by_cases hms : ms = []
      · subst hms
        exact .inr ⟨m, List.mem_cons_self, h⟩
      · rw [joined_cons m hms] at h
        rcases List.mem_append.mp h with h | h
        · exact .inr ⟨m, List.mem_cons_self, h⟩
        · rcases List.mem_cons.mp h with rfl | h
          · exact .inl rfl
          · rcases ih h with rfl | ⟨m', hm', hc⟩
            · exact .inl rfl
            · exact .inr ⟨m', List.mem_cons_of_mem _ hm', hc⟩

theorem le_of_mem_roster {e : Event} (h : FromSetRoster e.rosterJson) : ∀ c ∈ e.roster, 0x20 ≤ c := by
  intro c hc
  have hne : c ≠ 0 := by
    rintro rfl
    exact nul_not_mem_cstr _ hc
  rcases h.le_of_mem c ((List.takeWhile_sublist _).subset hc) with h0 | hle
  · exact absurd h0 hne
  · exact hle

theorem le_of_mem_memberText {k v : List UInt8} (hk : ∀ c ∈ k, 0x20 ≤ c) (hv : ∀ c ∈ v, 0x20 ≤ c) :
    ∀ c ∈ memberText k v, 0x20 ≤ c := by
  simp only [memberText, member, quoted, List.nil_append, List.append_nil, List.cons_append, List.forall_mem_cons,
    List.forall_mem_append]
  exact ⟨by decide, ⟨hk, by decide⟩, by decide, hv⟩

/-- Nothing between the braces is a control byte. -/
theorem le_of_mem_body {e : Event} (h : FromSetRoster e.rosterJson) : ∀ c ∈ e.body, 0x20 ≤ c := by
  intro c hc
  rcases mem_joined hc with rfl | ⟨m, hm, hcm⟩
  · decide
  · obtain ⟨s, -, rfl⟩ := List.mem_map.mp hm
    refine le_of_mem_memberText (le_of_mem_chars (chars_key s)) ?_ c hcm
    by_cases hs : s = .roster
    · subst hs
      exact le_of_mem_roster h
    · exact le_of_mem_valueText e hs

/-- The line of an event is one line. -/
theorem line_eq {e : Event} (h : FromSetRoster e.rosterJson) :
    ∃ body, byte '\n' ∉ body ∧ e.line = body ++ [byte '\n'] := by
  have hend : text "\x7d\n" = [byte '}', byte '\n'] := by decide
  refine ⟨byte '{' :: (e.body ++ [byte '}']), ?_, ?_⟩
  · simp only [List.mem_cons, List.mem_append, List.not_mem_nil, or_false, not_or]
    refine ⟨by decide, fun hmem => ?_, by decide⟩
    exact absurd (le_of_mem_body h _ hmem) (by decide)
  · rw [Event.line, hend, List.cons_append, List.append_assoc]
    rfl

/-- The last check is against the end of the buffer, and the NUL goes behind what was checked: the bytes of a line that
fills the buffer are one too many. Every other line that is encoded is one line and fits. -/
theorem encode_oneLine_iff {e : Event} (h : FromSetRoster e.rosterJson) (outSize : ℕ) :
    (∀ bytes, ssoEventEncode e outSize = some bytes → OneLine outSize bytes) ↔ e.size ≠ outSize := by
  have h8 := eight_le_size e
  have hcstr : cstr (e.line ++ [0]) = e.line := cstr_append_nul (nul_not_mem_line e) []
  rw [ssoEventEncode_eq, length_line]
  constructor
  · rintro hone rfl
    obtain ⟨hlen, -⟩ := hone (e.line ++ [0]) (if_pos ⟨h8, le_rfl⟩)
    rw [List.length_append, length_line] at hlen
    exact absurd hlen (Nat.not_succ_le_self _)
  · intro hne bytes hbytes
    split_ifs at hbytes with hfit
    obtain rfl := Option.some.inj hbytes
    obtain ⟨body, hbody, hline⟩ := line_eq h
    refine ⟨?_, body, hbody, ?_, ?_⟩
    · rw [List.length_append, length_line, List.length_singleton]
      omega
    · rw [hcstr, hline]
    · rw [hcstr]

/-- A `hello` of 14 bytes. -/
theorem encode_oneLine_hello :
    (∀ bytes, ssoEventEncode { Event.zero with type := .hello } 15 = some bytes → OneLine 15 bytes) ↔
      Event.size { Event.zero with type := .hello } ≠ 15 :=
  encode_oneLine_iff .cleared 15

/-- Into 14 bytes it is written with 15. -/
theorem encode_overruns :
    ¬ ∀ (e : Event) (outSize : ℕ), (∀ f, 0 ∈ (e.str f).1) → FromSetRoster e.rosterJson → 0 ≤ e.rxRibbonN.1 →
      e.rxRibbonN.1 ≤ ribbonMax → ∀ bytes, ssoEventEncode e outSize = some bytes → OneLine outSize bytes := by
  intro h
  have henc : ssoEventEncode { Event.zero with type := .hello } 14 =
      some (text "\x7b\"t\":\"hello\"\x7d\n" ++ [0]) := by decide +kernel
  obtain ⟨hlen, -⟩ := h { Event.zero with type := .hello } 14
    (fun f => List.mem_replicate.mpr ⟨(size_pos f).ne', rfl⟩) .cleared (by decide) (by decide) _ henc
  exact absurd hlen (by decide)

end SimpleSatOps.Ipc
