import SimpleSatOps.Ipc.Decoded
import SimpleSatOps.Ipc.Lookup

/-!
# Members a decoder does not know

* `Foreign` : a member whose key the decoder does not ask for;
* `Extended` : the line of an event with one more member, and any white space;
* `decode_extended` : the event is decoded as before.
-/

namespace SimpleSatOps.Ipc
open Json JsonText

/-- A member whose key is none of those the decoder asks for. -/
structure Foreign (m : Pair) : Prop where
  key : Chars m.1
  value : Value m.2
  unasked : ∀ s : Slot, m.1 ≠ s.key

/-- The line of `e` with the member `m` in between. -/
inductive Extended (e : Event) (m : Pair) : List UInt8 → Prop
  | whole {pre post : List Slot} {w t w' : List UInt8} (hwire : e.onWire = pre ++ post)
      (hroster : .roster ∈ e.onWire → Value e.roster) (hw : Blank w)
      (ht : Members (e.pairsOf pre ++ m :: e.pairsOf post) t) (hw' : Blank w') :
      Extended e m (w ++ byte '{' :: (t ++ byte '}' :: w'))
  /-- A roster that is no value leaves the object open: the member stands in front of it, the rest as it was. -/
  | front {pre post : List Slot} {w t : List UInt8} (hwire : e.onWire = pre ++ post) (hpre : .roster ∉ pre)
      (hpost : .roster ∈ post) (hw : Blank w) (ht : Members (e.pairsOf pre ++ [m]) t) :
      Extended e m (w ++ byte '{' :: (t ++ byte ',' :: (e.textOf post ++ text "\x7d\n")))

theorem joined_append {ms ms' : List (List UInt8)} (h : ms ≠ []) (h' : ms' ≠ []) :
    joined (ms ++ ms') = joined ms ++ byte ',' :: joined ms' := by
  induction ms with
  | nil => exact absurd rfl h
  | cons m ms ih =>
      cases ms with
      | nil =>
          rw [List.singleton_append, joined_cons m h']
          rfl
      | cons m' ms =>
          rw [List.cons_append, joined_cons m (by simp), ih (List.cons_ne_nil _ _),
            joined_cons m (List.cons_ne_nil _ _), List.append_assoc, List.cons_append]

section
variable {e : Event} {m : Pair}

/-- The members of a line up to some slot, and what is behind them. -/
theorem find_textOf {pre post : List Slot} (hpre : ∀ m ∈ e.pairsOf pre, Readable m) (hpost : post ≠ [])
    (key s : List UInt8) :
    find key (e.textOf (pre ++ post) ++ s) = pick key (find key (e.textOf post ++ s)) (e.pairsOf pre) := by
  by_cases hnil : pre = []
  · subst hnil
    rfl
  · have htexts : ∀ {l : List Slot}, l ≠ [] → (l.map fun s => memberText s.key (e.valueText s)) ≠ [] :=
      fun h => mt List.map_eq_nil_iff.mp h
    have happend : e.textOf (pre ++ post) = e.textOf pre ++ byte ',' :: e.textOf post := by
      rw [Event.textOf, List.map_append, joined_append (htexts hnil) (htexts hpost)]
      rfl
    rw [happend, List.append_assoc, List.cons_append]
    exact find_members_comma (mt List.map_eq_nil_iff.mp hnil) (members_textOf e pre) hpre key _

theorem readable_foreign (h : Foreign m) : Readable m := ⟨h.key, .of_value h.value⟩

/-- A key the decoder asks for is found as before. -/
theorem getField_extended (hm : Foreign m) {line : List UInt8} (h : Extended e m line) (s : Slot) :
    getField line s.key = getField e.line s.key := by
  obtain ⟨k, v⟩ := m
  have hend : text "\x7d\n" = byte '}' :: [byte '\n'] := by decide
  cases h with
  | @whole pre post w t w' hwire hroster hw ht hw' =>
      have htoken : .roster ∈ pre ++ post → Token e.roster := fun h => .of_value (hroster (hwire ▸ h))
      have hread := readable_pairsOf htoken
      have happend : e.pairsOf (pre ++ post) = e.pairsOf pre ++ e.pairsOf post := List.map_append
      rw [happend] at hread
      have hmem : ∀ m' ∈ e.pairsOf pre ++ (k, v) :: e.pairsOf post, Readable m' := by
        intro m' hm'
        rcases List.mem_append.mp hm' with h | h
        · exact hread m' (List.mem_append_left _ h)
        · rcases List.mem_cons.mp h with rfl | h
          · exact readable_foreign hm
          · exact hread m' (List.mem_append_right _ h)
      rw [getField_blank hw, getField_brace, find_members_close ht hmem, pick_insert (hm.unasked s), Event.line, hend,
        getField_brace, find_members_close (members_body e) (by rw [Event.pairs, hwire, happend]; exact hread),
        Event.pairs, hwire, happend]
  | @front pre post w t hwire hpre hpost hw ht =>
      have hread : ∀ m' ∈ e.pairsOf pre, Readable m' := readable_pairsOf fun h => absurd h hpre
      have hmem : ∀ m' ∈ e.pairsOf pre ++ [(k, v)], Readable m' := by
        intro m' hm'
        rcases List.mem_append.mp hm' with h | h
        · exact hread m' h
        · rw [List.mem_singleton.mp h]
          exact readable_foreign hm
      have hline : e.line = byte '{' :: (e.textOf (pre ++ post) ++ text "\x7d\n") := by
        rw [← hwire]
        rfl
      rw [getField_blank hw, getField_brace, find_members_comma (by simp) ht hmem, pick_insert (hm.unasked s),
        List.append_nil, hline, getField_brace, find_textOf hread (List.ne_nil_of_mem hpost)]

theorem nul_not_mem_extended (hm : Foreign m) {line : List UInt8} (h : Extended e m line) : 0 ∉ line := by
  have hnew : 0 ∉ m.1 ∧ 0 ∉ m.2 := ⟨nul_not_mem_chars hm.key, nul_not_mem_text hm.value⟩
  cases h with
  | @whole pre post w t w' _ _ hw ht hw' =>
      have hmem : ∀ m' ∈ e.pairsOf pre ++ m :: e.pairsOf post, 0 ∉ m'.1 ∧ 0 ∉ m'.2 := by
        rw [List.forall_mem_append, List.forall_mem_cons]
        exact ⟨nul_not_mem_pairsOf e pre, hnew, nul_not_mem_pairsOf e post⟩
      simp only [List.mem_append, List.mem_cons, not_or]
      exact ⟨nul_not_mem_blank hw, by decide, ht.nul_not_mem hmem, by decide, nul_not_mem_blank hw'⟩
  | @front pre post w t _ _ _ hw ht =>
      have hmem : ∀ m' ∈ e.pairsOf pre ++ [m], 0 ∉ m'.1 ∧ 0 ∉ m'.2 := by
        rw [List.forall_mem_append, List.forall_mem_singleton]
        exact ⟨nul_not_mem_pairsOf e pre, hnew⟩
      have hpost := (members_textOf e post).nul_not_mem (nul_not_mem_pairsOf e post)
      simp only [List.mem_append, List.mem_cons, not_or]
      exact ⟨nul_not_mem_blank hw, by decide, ht.nul_not_mem hmem, by decide, hpost, by decide⟩

/-- One more member, wherever it stands and whatever value it has, changes nothing. -/
theorem decode_extended (hm : Foreign m) {outSize : ℕ} {bytes line : List UInt8}
    (henc : ssoEventEncode e outSize = some bytes) (h : Extended e m line) :
    ssoEventDecode line = ssoEventDecode bytes := by
  rw [ssoEventEncode_eq] at henc
  split_ifs at henc
  rw [← Option.some.inj henc, ssoEventDecode_eq, ssoEventDecode_eq, cstr_of_not_mem (nul_not_mem_extended hm h),
    cstr_append_nul (nul_not_mem_line e)]
  congr 1
  apply decode_congr
  · exact getField_extended hm h .type
  · exact fun s _ => getField_extended hm h s

end

/-- A `bye` with an object behind it that looks like a `hello`. -/
theorem decode_extended_bye :
    ssoEventDecode (text "\x7b\"t\":\"bye\" , \"x\":\x7b\"t\":\"hello\"\x7d\x7d\n") =
      ssoEventDecode (text "\x7b\"t\":\"bye\"\x7d\n" ++ [0]) := by
  have hspace : Blank (text " ") := by
    show ∀ c ∈ text " ", isWs c = true
    decide
  have hend : Blank (text "\n") := by
    show ∀ c ∈ text "\n", isWs c = true
    decide
  have hkey : Chars (text "t") := chars_of_plain (by decide)
  have hhello : Chars (text "hello") := chars_of_plain (by decide)
  have hinner : Value (text "\x7b\"t\":\"hello\"\x7d") :=
    .object (.member .nil hkey .nil .nil (.string hhello) .nil)
  have hm : Foreign (text "x", text "\x7b\"t\":\"hello\"\x7d") := by
    refine ⟨chars_of_plain (by decide), hinner, fun s h => ?_⟩
    have hne : ∀ s ∈ Slot.type :: slots, text "x" ≠ s.key := by decide +kernel
    by_cases hs : s = .type
    · exact hne s (hs ▸ List.mem_cons_self) h
    · exact hne s (List.mem_cons_of_mem _ (mem_slots hs)) h
  have henc : ssoEventEncode { Event.zero with type := .bye } 64 = some (text "\x7b\"t\":\"bye\"\x7d\n" ++ [0]) := by
    decide +kernel
  have hwire : Event.onWire { Event.zero with type := .bye } = [.type] ++ [] := by decide +kernel
  have hmembers : Members [(text "t", quoted (text "bye")), (text "x", text "\x7b\"t\":\"hello\"\x7d")]
      (member [] (text "t") [] [] (quoted (text "bye")) (text " ") ++
        byte ',' :: member (text " ") (text "x") [] [] (text "\x7b\"t\":\"hello\"\x7d") []) :=
    .cons .nil .nil .nil hspace (.single hspace .nil .nil .nil)
  have hroster : Slot.roster ∈ Event.onWire { Event.zero with type := .bye } →
      Value (Event.roster { Event.zero with type := .bye }) := by
    rw [hwire]
    exact fun h => absurd h (by decide)
  exact decode_extended hm henc (.whole hwire hroster .nil hmembers hend)

end SimpleSatOps.Ipc
