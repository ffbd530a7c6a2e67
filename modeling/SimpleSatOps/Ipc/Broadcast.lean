import SimpleSatOps.Ipc.OneLine
import SimpleSatOps.Ipc.RoundTrip

/-!
# Broadcasting a state

* `stateEvent` : the event of a broadcast or of a WELCOME, with the roster of the connected clients;
* `BroadcastSound` : its line is JSON, and is decoded as with an empty roster;
* `document_line`, `isFinite_of_document` : when the line of an event is JSON;
* `fill_withoutRoster` : the roster's key has no part in any other field;
* `broadcast_sound_iff` : the roster has to fit its array, and the numbers have to be finite.
-/

namespace SimpleSatOps.Ipc
open Json JsonText JsonReader

/-- `SSO_IPC_LINE_MAX`. -/
def lineMax : ℕ := 8000

/-- The event with an empty roster. -/
def Event.withoutRoster (e : Event) : Event := { e with rosterJson := zeros rosterMax }

/-- What `ipc_broadcast_state` sends, and the WELCOME once there is a state: `e` holds the other fields, and the result
of `sso_event_set_roster` is not looked at. -/
def stateEvent (e : Event) (operatorUser : List UInt8) (clients : List Client) : Event :=
  { e with
    hasState := true
    rosterJson := (ssoEventSetRoster (rosterEntries operatorUser clients) (zeros rosterMax)).2 }

/-- A whole JSON array. -/
def CompleteArray (r : List UInt8) : Prop := r.head? = some (byte '[') ∧ Value r

/-- The line of the event, if it is encoded, is JSON, and every field but the roster is decoded as with an empty
roster. -/
structure BroadcastSound (b : Event) : Prop where
  document : ∀ bytes, ssoEventEncode b lineMax = some bytes → Document (cstr bytes)
  decoded : ∀ bytes, ssoEventEncode b lineMax = some bytes → ∃ bytes₀ d d₀,
    ssoEventEncode b.withoutRoster lineMax = some bytes₀ ∧ ssoEventDecode bytes = .ok (some d) ∧
      ssoEventDecode bytes₀ = .ok (some d₀) ∧ d.withoutRoster = d₀.withoutRoster
  roster : b.roster = [] ∨ CompleteArray b.roster

/-! ## JSON lines -/

/-- A line is JSON when the roster and the numbers on it are. -/
theorem document_line {e : Event} (hroster : .roster ∈ e.onWire → Value e.roster)
    (hfin : ∀ f, .dbl f ∈ e.onWire → (e.dbl f).isFinite = true) : Document e.line := by
  have hpairs : ∀ m ∈ e.pairs, Chars m.1 ∧ Value m.2 := by
    intro m hm
    obtain ⟨s, hs, rfl⟩ := List.mem_map.mp hm
    refine ⟨chars_key s, value_valueText e ?_ ?_⟩
    · rintro rfl
      exact hroster hs
    · rintro f rfl
      exact hfin f hs
  have hend : text "\x7d\n" = byte '}' :: [byte '\n'] := by decide
  have hblank : Blank [byte '\n'] := by
    show ∀ c ∈ [byte '\n'], isWs c = true
    decide
  refine ⟨[], e.body, [byte '\n'], .nil, (members_body e).text hpairs, hblank, ?_⟩
  rw [Event.line, hend]
  rfl

theorem pick_value {key : List UInt8} {ms : List Pair} (hms : ∀ m ∈ ms, Chars m.1 ∧ Value m.2) {i : Bool}
    {v : List UInt8} (h : pick key .absent ms = .found i v) : ∃ u, Value u ∧ i = isQuoted u ∧ v = bare u := by
  induction ms with
  | nil => cases h
  | cons m ms ih =>
      rw [pick] at h
      split_ifs at h
      · cases h
        exact ⟨m.2, (hms m List.mem_cons_self).2, rfl, rfl⟩
      · exact ih (fun m' hm => hms m' (List.mem_cons_of_mem _ hm)) h

/-- What is found on a line of JSON is a JSON value. -/
theorem value_of_getField {line key : List UInt8} (h : Document line) {i : Bool} {v : List UInt8}
    (hf : getField line key = .found i v) : ∃ u, Value u ∧ i = isQuoted u ∧ v = bare u := by
  obtain ⟨w, ms, t, w', hw, hms, hall, -, rfl⟩ := h.exists_members
  rw [getField_blank hw, getField_brace,
    find_members_close hms fun m hm => ⟨(hall m hm).1, .of_value (hall m hm).2⟩] at hf
  exact pick_value hall hf

theorem isFinite_of_document {e : Event} (hroster : .roster ∈ e.onWire → Token e.roster) (h : Document e.line)
    {f : DblField} (hf : .dbl f ∈ e.onWire) : (e.dbl f).isFinite = true := by
  have hfound : e.foundOf (.dbl f) = .found false (e.dbl f).print := foundOf_word (word_print _)
  have hget := getField_line hroster (.dbl f)
  rw [if_pos hf] at hget
  obtain ⟨u, hu, hq, hbare⟩ := value_of_getField h (hget.trans hfound)
  rw [bare, ← hq] at hbare
  apply (Double.value_print_iff _).mp
  rw [hbare]
  exact hu

/-! ## The roster and the other fields -/

section
variable {e : Event} {s : Slot}

theorem mem_fields_withoutRoster (h : s ≠ .roster) : s ∈ e.withoutRoster.fields ↔ s ∈ e.fields := by
  have hroster : ∀ c, s ∉ when c [.roster] := fun c hmem => h (List.mem_singleton.mp (mem_when.mp hmem).2)
  have hstate : s ∈ e.withoutRoster.stateFields ↔ s ∈ e.stateFields := by
    simp only [Event.stateFields, List.flatten_cons, List.mem_append, hroster, false_or]
    exact Iff.rfl
  rw [mem_fields, mem_fields, hstate]
  exact Iff.rfl

theorem shown_withoutRoster (h : s ≠ .roster) : e.withoutRoster.shown s = e.shown s := by
  cases s with
  | roster => exact absurd rfl h
  | _ => rfl

theorem mem_onWire_withoutRoster (h : s ≠ .roster) : s ∈ e.withoutRoster.onWire ↔ s ∈ e.onWire := by
  rw [mem_onWire, mem_onWire, mem_fields_withoutRoster h, shown_withoutRoster h]

theorem valueText_withoutRoster (h : s ≠ .roster) : e.withoutRoster.valueText s = e.valueText s := by
  cases s with
  | roster => exact absurd rfl h
  | _ => rfl

theorem foundOf_withoutRoster (h : s ≠ .roster) : e.withoutRoster.foundOf s = e.foundOf s := by
  rw [Event.foundOf, Event.foundOf, valueText_withoutRoster h]

theorem roster_not_mem_withoutRoster : .roster ∉ e.withoutRoster.onWire :=
  fun h => roster_ne_nil h (cstr_zeros rosterMax)

/-- Every key but the roster's is found as on the line without a roster. -/
theorem getField_withoutRoster (hroster : .roster ∈ e.onWire → Token e.roster) (h : s ≠ .roster) :
    getField e.line s.key = getField e.withoutRoster.line s.key := by
  rw [getField_line hroster, getField_line fun hmem => absurd hmem roster_not_mem_withoutRoster]
  show (if s ∈ e.onWire then e.foundOf s else .absent) =
    if s ∈ e.withoutRoster.onWire then e.withoutRoster.foundOf s else .absent
  rw [foundOf_withoutRoster h]
  simp only [mem_onWire_withoutRoster h]

end

theorem Event.withoutRoster_ext {a b : Event} (type : a.type = b.type) (str : ∀ f, a.str f = b.str f)
    (dbl : ∀ f, a.dbl f = b.dbl f) (int : ∀ f, a.int f = b.int f) (flag : ∀ f, a.flag f = b.flag f)
    (hasState : a.hasState = b.hasState) (payload : ∀ i, a.rxPtPayload i = b.rxPtPayload i)
    (ribbonN : a.rxRibbonN = b.rxRibbonN) (ribbonPeak : a.rxRibbonPeak = b.rxRibbonPeak) :
    a.withoutRoster = b.withoutRoster := by
  apply Event.ext
  · exact type
  · exact funext str
  · exact funext dbl
  · exact funext int
  · exact funext flag
  · exact hasState
  · rfl
  · exact funext payload
  · exact ribbonN
  · exact ribbonPeak

/-- The roster's key has no part in any other field, once another one has set `has_state`. -/
theorem fill_withoutRoster {get get' : List UInt8 → Found}
    (h : ∀ s : Slot, s ≠ .roster → get s.key = get' s.key)
    (haz : setsState (get (Slot.dbl .az).key) (.dbl .az) = true) (e : Event) :
    (fill get e).withoutRoster = (fill get' e).withoutRoster := by
  have hstate : ∀ g : List UInt8 → Found, setsState (g (Slot.dbl .az).key) (.dbl .az) = true →
      (fill g e).hasState = true := by
    intro g hg
    have hany : (slots.any fun s => setsState (g s.key) s) = true :=
      List.any_eq_true.mpr ⟨.dbl .az, mem_slots (by simp), hg⟩
    rw [fill_hasState, hany, Bool.or_true]
  apply Event.withoutRoster_ext
  · rw [fill_type, fill_type]
  · intro f
    rw [fill_str, fill_str, h (.str f) (by simp)]
  · intro f
    rw [fill_dbl, fill_dbl, h (.dbl f) (by simp)]
  · intro f
    rw [fill_int, fill_int, h (.int f) (by simp)]
  · intro f
    rw [fill_flag, fill_flag, h (.flag f) (by simp)]
  · rw [hstate get haz, hstate get' (h (.dbl .az) (by simp) ▸ haz)]
  · intro i
    rw [fill_payload, fill_payload, h (.payload i) (by simp)]
  · rw [fill_ribbonN, fill_ribbonN, h (.str .rxRibbon) (by simp)]
  · rw [fill_ribbonPeak, fill_ribbonPeak, h .ribbonPeak (by simp)]

/-! ## The roster in the event -/

section
variable (e : Event) {operatorUser : List UInt8} {clients : List Client}

theorem roster_stateEvent_of_le (h : (rosterText (rosterEntries operatorUser clients)).length ≤ rosterMax - 1) :
    (stateEvent e operatorUser clients).roster = rosterText (rosterEntries operatorUser clients) := by
  show cstr (ssoEventSetRoster _ _).2.1 = _
  rw [(setRoster_of_le h _).2]
  exact cstr_overlay_nul (nul_not_mem_rosterText _) _

theorem roster_stateEvent_of_lt (h : rosterMax - 1 < (rosterText (rosterEntries operatorUser clients)).length) :
    Truncated (rosterEntries operatorUser clients) (stateEvent e operatorUser clients).roster := by
  obtain ⟨-, t, ht, heq⟩ := setRoster_of_lt h (zeros rosterMax)
  have hlen : t.length < rosterMax := by
    obtain ⟨-, -, -, -, -, hle⟩ := ht
    exact hle.trans_lt (by decide)
  have h0 : 0 ∉ t := nul_not_mem_of_le (le_of_mem_truncated ht)
  have hroster : (stateEvent e operatorUser clients).roster = t := by
    show cstr (ssoEventSetRoster _ _).2.1 = _
    obtain ⟨k, hk⟩ : ∃ k, rosterMax - t.length = k + 1 := Nat.exists_eq_add_one.mpr (by omega)
    rw [heq, overlay, show (zeros rosterMax).1 = List.replicate rosterMax 0 from rfl, List.drop_replicate, hk,
      List.replicate_succ, cstr_append_nul h0]
  rw [hroster]
  exact ht

theorem completeArray_rosterText (entries : List RosterEntry) : CompleteArray (rosterText entries) := by
  refine ⟨?_, value_rosterText entries⟩
  rw [flatten_rosterPieces]
  rfl

/-- A roster that does not fit is neither empty nor whole. -/
theorem complete_iff (operatorUser : List UInt8) (clients : List Client) :
    (stateEvent e operatorUser clients).roster = [] ∨
    CompleteArray (stateEvent e operatorUser clients).roster ↔
      (rosterText (rosterEntries operatorUser clients)).length ≤ rosterMax - 1 := by
  constructor
  · intro h
    by_contra hlt
    have htr := roster_stateEvent_of_lt e (Nat.lt_of_not_le hlt)
    rcases h with hnil | hcomplete
    · exact htr.ne_nil hnil
    · exact htr.not_value hcomplete.2
  · intro h
    rw [roster_stateEvent_of_le e h]
    exact .inr (completeArray_rosterText _)

end

/-- The line with a whole roster is decoded as the one without. -/
theorem decode_withoutRoster {e : Event} (hroster : .roster ∈ e.onWire → Token e.roster) (hstate : e.hasState = true) :
    ∃ d d₀, ssoEventDecode (e.line ++ [0]) = .ok (some d) ∧
      ssoEventDecode (e.withoutRoster.line ++ [0]) = .ok (some d₀) ∧ d.withoutRoster = d₀.withoutRoster := by
  have hget : ∀ s : Slot, s ≠ .roster → getField e.line s.key = getField e.withoutRoster.line s.key :=
    fun s hs => getField_withoutRoster hroster hs
  have htype : getField e.line Slot.type.key = e.foundOf .type := by
    rw [getField_line hroster, if_pos (mem_onWire_type e)]
    rfl
  have haz : setsState (getField e.line (Slot.dbl .az).key) (.dbl .az) = true := by
    rw [getField_line hroster, if_pos (mem_onWire.mpr ⟨mem_fields_az.mpr hstate, rfl⟩)]
    exact setsState_az
  have htype₀ : getField e.withoutRoster.line Slot.type.key = e.withoutRoster.foundOf .type :=
    (hget .type (by simp)).symm.trans htype
  refine ⟨_, _, ?_, ?_, fill_withoutRoster hget haz { Event.zero with type := e.type }⟩
  · rw [ssoEventDecode_eq, cstr_append_nul (nul_not_mem_line e), decode_get e htype]
  · rw [ssoEventDecode_eq, cstr_append_nul (nul_not_mem_line _), decode_get e.withoutRoster htype₀]
    rfl

theorem fields_withoutRoster_sublist (e : Event) : e.withoutRoster.fields.Sublist e.fields := by
  have hroster : (when (e.withoutRoster.roster != []) [.roster]).Sublist (when (e.roster != []) [.roster]) := by
    have hnil : e.withoutRoster.roster = [] := cstr_zeros rosterMax
    rw [hnil]
    exact List.nil_sublist _
  have hstate : e.withoutRoster.stateFields.Sublist e.stateFields := by
    simp only [Event.stateFields, List.flatten_cons]
    -- the twelve parts in front of the roster do not depend on it
    iterate 12 apply List.Sublist.append (List.Sublist.refl _)
    exact hroster.append (List.Sublist.refl _)
  have hwhen : (when e.hasState e.withoutRoster.stateFields).Sublist (when e.hasState e.stateFields) := by
    cases e.hasState
    · exact .refl _
    · exact hstate
  simp only [Event.fields, List.flatten_cons]
  exact (List.Sublist.refl _).append (hwhen.append (List.Sublist.refl _))

/-- Without its roster a line is not longer. -/
theorem size_withoutRoster_le (e : Event) : e.withoutRoster.size ≤ e.size := by
  have hne : ∀ s ∈ e.withoutRoster.onWire, s ≠ .roster := by
    rintro s hs rfl
    exact roster_not_mem_withoutRoster hs
  have hshown : ∀ s, e.withoutRoster.shown s = true → e.shown s = true := by
    intro s hs
    by_cases h : s = .roster
    · subst h
      exact absurd (cstr_zeros rosterMax) (bne_iff_ne.mp hs)
    · rw [← shown_withoutRoster h]
      exact hs
  have hsub : e.withoutRoster.onWire.Sublist e.onWire :=
    ((fields_withoutRoster_sublist e).filter _).trans (List.monotone_filter_right _ hshown)
  have hmap : (e.withoutRoster.onWire.map fun s => s.key.length + (e.withoutRoster.valueText s).length + 4) =
      e.withoutRoster.onWire.map fun s => s.key.length + (e.valueText s).length + 4 := by
    apply List.map_congr_left
    intro s hs
    rw [valueText_withoutRoster (hne s hs)]
  rw [Event.size, Event.size, hmap]
  exact Nat.add_le_add_left ((hsub.map _).sum_le_sum fun _ _ => Nat.zero_le _) 2

/-- The broadcast is sound where the roster fits into its array, and either the line is too long to be sent at all or
every number on it is finite. -/
theorem broadcast_sound_iff (e : Event) (operatorUser : List UInt8) (clients : List Client) :
    BroadcastSound (stateEvent e operatorUser clients) ↔
      (rosterText (rosterEntries operatorUser clients)).length ≤ rosterMax - 1 ∧
        (lineMax < (stateEvent e operatorUser clients).size ∨
          ∀ f, .dbl f ∈ (stateEvent e operatorUser clients).fields → (e.dbl f).isFinite = true) := by
  have hcomplete := complete_iff e operatorUser clients
  have hstate : (stateEvent e operatorUser clients).hasState = true := rfl
  have hdbl : ∀ f, (stateEvent e operatorUser clients).dbl f = e.dbl f := fun _ => rfl
  generalize stateEvent e operatorUser clients = b at hcomplete hstate hdbl ⊢
  have h8 := eight_le_size b
  have hwire : ∀ f, .dbl f ∈ b.onWire ↔ .dbl f ∈ b.fields := fun f => by simp [mem_onWire, Event.shown]
  have hcstr : cstr (b.line ++ [0]) = b.line := cstr_append_nul (nul_not_mem_line b) []
  have htoken : CompleteArray b.roster ∨ b.roster = [] → .roster ∈ b.onWire → Token b.roster := by
    rintro (h | h) hmem
    · exact .of_value h.2
    · exact absurd h (roster_ne_nil hmem)
  constructor
  · intro h
    refine ⟨hcomplete.mp h.roster, ?_⟩
    by_contra hcon
    rw [not_or, not_lt] at hcon
    apply hcon.2
    intro f hf
    have henc : ssoEventEncode b lineMax = some (b.line ++ [0]) := by
      rw [ssoEventEncode_eq, length_line, if_pos ⟨by decide, hcon.1⟩]
    have hdoc := h.document _ henc
    rw [hcstr] at hdoc
    rw [← hdbl]
    exact isFinite_of_document (htoken h.roster.symm) hdoc ((hwire f).mpr hf)
  · rintro ⟨hfit, hfin⟩
    have hroster := hcomplete.mpr hfit
    have hline : ∀ bytes, ssoEventEncode b lineMax = some bytes → b.size ≤ lineMax ∧ bytes = b.line ++ [0] := by
      intro bytes henc
      rw [ssoEventEncode_eq, length_line] at henc
      split_ifs at henc with hle
      exact ⟨hle.2, (Option.some.inj henc).symm⟩
    refine ⟨fun bytes henc => ?_, fun bytes henc => ?_, hroster⟩
    · obtain ⟨hle, rfl⟩ := hline bytes henc
      rw [hcstr]
      refine document_line (fun hmem => ?_) fun f hf => ?_
      · rcases hroster with h | h
        · exact absurd h (roster_ne_nil hmem)
        · exact h.2
      · rw [hdbl]
        exact hfin.resolve_left (Nat.not_lt.mpr hle) f ((hwire f).mp hf)
    · obtain ⟨hle, rfl⟩ := hline bytes henc
      obtain ⟨d, d₀, hd, hd₀, heq⟩ := decode_withoutRoster (htoken hroster.symm) hstate
      refine ⟨_, d, d₀, ?_, hd, hd₀, heq⟩
      rw [ssoEventEncode_eq, length_line, if_pos ⟨by decide, (size_withoutRoster_le b).trans hle⟩]

/-- Fifteen viewers with names of 63 bytes. -/
theorem broadcast_breaks :
    ¬ ∀ (e : Event) (operatorUser : List UInt8) (clients : List Client), e.type = .state ∨ e.type = .welcome →
      BroadcastSound (stateEvent e operatorUser clients) := by
  intro h
  have hlong : rosterMax - 1 < (rosterText (rosterEntries (text "op")
      (List.replicate 15 ⟨List.replicate 63 (byte 'a'), text "viewer", []⟩))).length := by decide +kernel
  have hsound := h { Event.zero with type := .state } (text "op")
    (List.replicate 15 ⟨List.replicate 63 (byte 'a'), text "viewer", []⟩) (.inl rfl)
  exact absurd ((complete_iff _ _ _).mp hsound.roster) (Nat.not_le.mpr hlong)

end SimpleSatOps.Ipc
