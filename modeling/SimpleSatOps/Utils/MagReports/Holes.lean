import Mathlib.Data.List.ReduceOption
import SimpleSatOps.Utils.MagReports.Entries

/-!
# Logs with holes

* `Stretch`, `received` : an entry of a log as it was received;
* `scan_entry` : the loop over one entry;
* `Own` : what a reading has of its entry;
* `scan_holes` : each entry gives one reading at most, in the order of the log, and what was received is its own;
* `Truthful`, `borrowed`, `clipped` : a lost time is read from the entry before, a lost digit gives other counts.
-/

namespace SimpleSatOps.MagReports
open AdcsMag Search

/-- An entry as it was received. -/
structure Stretch where
  entry : Entry
  received : List UInt8
  damaged : Damaged entry.text received

/-- The loop over an entry with holes. -/
theorem scan_entry (sinceMs untilMs : ℤ) (st : Stretch) (buf t : List UInt8) : ∃ o : Option Reading,
    scanFrom sinceMs untilMs buf 0 (st.received ++ t) = o.toList ++ scanFrom sinceMs untilMs buf 0 t ∧
      (¬ tcmdKey <:+: st.received → o = none) ∧
      ∀ p, st.received = st.entry.render p →
        o = (readAt buf (st.entry.tcmd ++ (st.entry.back p ++ t)) (st.entry.back p ++ t)).filter
          (inWindow sinceMs untilMs) := by
  have hkey : tcmdKey ∈ keys := by decide
  by_cases hocc : ∃ i < st.received.length, Occurs tcmdKey (st.received ++ t) i
  · obtain ⟨i, hi, hocc⟩ := hocc
    obtain ⟨hin, -⟩ := occurs_entry st.entry st.damaged hkey hi hocc
    have hsplit : st.received ++ t = st.received.take i ++ (st.received.drop i ++ t) := by
      rw [← List.append_assoc, List.take_append_drop]
    have hother : ∀ j < st.received.length, Occurs tcmdKey (st.received ++ t) j → j = i := fun j hj hocc' =>
      entry_unique st.entry st.damaged hkey hj hi hocc' hocc
    have hskip : scanFrom sinceMs untilMs buf 0 (st.received ++ t) =
        scanFrom sinceMs untilMs buf 0 (st.received.drop i ++ t) := by
      conv_lhs => rw [hsplit]
      refine scanFrom_skip (Nat.zero_le _) fun j _ hj hoccj => ?_
      rw [List.length_take] at hj
      rw [← hsplit] at hoccj
      have := hother j (by omega) hoccj
      omega
    have hhere : tcmdKey <+: st.received.drop i ++ t := by
      rwa [Occurs, List.drop_append_of_le_length hi.le] at hocc
    have hlater : ∀ j, 0 < j → j < (st.received.drop i).length → ¬ Occurs tcmdKey (st.received.drop i ++ t) j := by
      intro j hpos hj hoccj
      rw [List.length_drop] at hj
      have hocc' : Occurs tcmdKey (st.received ++ t) (i + j) := by
        unfold Occurs at hoccj ⊢
        rwa [← List.drop_append_of_le_length hi.le, List.drop_drop] at hoccj
      have := hother (i + j) (by omega) hocc'
      omega
    obtain ⟨o, hscan, hread⟩ := scanFrom_at hhere (by rw [List.length_drop]; omega) hlater
    refine ⟨o, hskip.trans hscan, ?_, ?_⟩
    · intro hno
      refine absurd ?_ hno
      have hpre := (occurs_append_iff hin t).mp hocc
      exact (hpre.isInfix).trans (List.drop_suffix i _).isInfix
    · intro p hp
      have hfront : i = p.front.length := by
        refine (hother p.front.length ?_ ?_).symm
        · rw [hp, Fields.render, List.length_append, List.length_append]
          have hpos : 0 < tcmdKey.length := by decide
          omega
        · rw [hp, Fields.render, List.append_assoc, List.append_assoc]
          exact occurs_length p.front tcmdKey _
      have hname : (st.received.drop i ++ t).drop tcmdKey.length = st.entry.tcmd ++ (st.entry.back p ++ t) := by
        rw [hp, hfront, Fields.render, List.drop_left, List.append_assoc, List.drop_left, List.append_assoc]
      have hquote : strchr (byte '"') (st.entry.tcmd ++ (st.entry.back p ++ t)) = some (st.entry.back p ++ t) :=
        strchr_append st.entry.tcmd_quote _
      rw [hname] at hread
      exact hread _ hquote
  · have hno : ∀ i < st.received.length, ¬ Occurs tcmdKey (st.received ++ t) i := fun i hi h => hocc ⟨i, hi, h⟩
    refine ⟨none, scanFrom_skip (Nat.zero_le _) fun i _ hi => hno i hi, fun _ => rfl, ?_⟩
    intro p hp
    refine absurd ?_ (hno p.front.length ?_)
    · rw [hp, Fields.render, List.append_assoc, List.append_assoc]
      exact occurs_length p.front tcmdKey _
    · rw [hp, Fields.render, List.length_append, List.length_append]
      have hpos : 0 < tcmdKey.length := by decide
      omega

/-- What the reading at an entry has of it. -/
structure Own (sinceMs untilMs : ℤ) (st : Stretch) (o : Option Reading) : Prop where
  lost : ¬ tcmdKey <:+: st.received → o = none
  vector : ∀ p, st.received = st.entry.render p → st.entry.Framed p → ∀ r, o = some r →
    r.command = st.entry.tcmd ∧ st.entry.found = some (r.kind, r.v, r.telemFrame)
  time : ∀ p, st.received = st.entry.render p → st.entry.Framed p → st.entry.Timed p → ∀ r, o = some r →
    ∃ r', st.entry.reading = some r' ∧ r'.what = r.what
  whole : ∀ p, st.received = st.entry.render p → st.entry.Framed p → st.entry.Timed p → st.entry.Marked p →
    o.map Reading.what = (st.entry.reading.filter (inWindow sinceMs untilMs)).map Reading.what

theorem filter_what (sinceMs untilMs : ℤ) {o o' : Option Reading} (h : o.map Reading.what = o'.map Reading.what) :
    (o.filter (inWindow sinceMs untilMs)).map Reading.what =
      (o'.filter (inWindow sinceMs untilMs)).map Reading.what := by
  cases o with
  | none =>
      cases o' with
      | none => rfl
      | some r' => exact absurd h.symm (Option.some_ne_none _)
  | some r =>
      cases o' with
      | none => exact absurd h (Option.some_ne_none _)
      | some r' =>
          have hwhat : r.what = r'.what := Option.some.inj h
          have hmeas : r.measMs = r'.measMs := congrArg (fun w => w.2.2.2) hwhat
          have hwin : inWindow sinceMs untilMs r = inWindow sinceMs untilMs r' := by
            unfold inWindow
            rw [hmeas]
          rw [Option.filter_some, Option.filter_some, hwin]
          split_ifs
          · exact h
          · rfl

/-- What the loop does at an entry with holes is the entry's own. -/
theorem own_entry (sinceMs untilMs : ℤ) (st : Stretch) (pre t : List UInt8) : ∃ o : Option Reading,
    scanFrom sinceMs untilMs (pre ++ (st.received ++ t)) 0 (st.received ++ t) =
      o.toList ++ scanFrom sinceMs untilMs (pre ++ (st.received ++ t)) 0 t ∧ Own sinceMs untilMs st o := by
  obtain ⟨o, hscan, hlost, hread⟩ := scan_entry sinceMs untilMs st (pre ++ (st.received ++ t)) t
  have hdamaged := st.damaged
  refine ⟨o, hscan, hlost, ?_, ?_, ?_⟩
  · intro p hp hframed r hr
    obtain ⟨seen, -, hat⟩ := readAt_framed st.entry (hp ▸ hdamaged) hframed (pre ++ (st.received ++ t)) t
    rw [hread p hp, hat, Option.filter_eq_some_iff] at hr
    obtain ⟨_, -, hr⟩ := Option.bind_eq_some_iff.mp hr.1
    split_ifs at hr
    obtain ⟨found, hfound, htimed⟩ := Option.bind_eq_some_iff.mp hr
    obtain ⟨hcommand, hparts⟩ := timed_found htimed
    exact ⟨hcommand, by rw [hfound, hparts]⟩
  · intro p hp hframed htime r hr
    obtain ⟨seen, -, hat⟩ := readAt_timed st.entry (hp ▸ hdamaged) hframed htime pre t
    rw [← hp] at hat
    rw [hread p hp, Option.filter_eq_some_iff] at hr
    rw [hr.1] at hat
    obtain ⟨_, -, hwhat⟩ := Option.bind_eq_some_iff.mp hat.symm
    exact Option.map_eq_some_iff.mp hwhat
  · intro p hp hframed htime hmarked
    obtain ⟨seen, hseen, hat⟩ := readAt_timed st.entry (hp ▸ hdamaged) hframed htime pre t
    obtain ⟨_, hsome⟩ := Option.isSome_iff_exists.mp (hseen hmarked)
    rw [← hp, hsome, Option.bind_some] at hat
    rw [hread p hp]
    exact filter_what sinceMs untilMs hat

theorem scanFrom_holes (sinceMs untilMs : ℤ) (log : List Stretch) (pre : List UInt8) :
    ∃ os, List.Forall₂ (Own sinceMs untilMs) log os ∧
      scanFrom sinceMs untilMs (pre ++ log.flatMap Stretch.received) 0 (log.flatMap Stretch.received) =
        os.reduceOption := by
  induction log generalizing pre with
  | nil => exact ⟨[], List.Forall₂.nil, rfl⟩
  | cons st log ih =>
      obtain ⟨o, hscan, hown⟩ := own_entry sinceMs untilMs st pre (log.flatMap Stretch.received)
      obtain ⟨os, hall, hrest⟩ := ih (pre ++ st.received)
      refine ⟨o :: os, List.Forall₂.cons hown hall, ?_⟩
      rw [List.append_assoc] at hrest
      rw [List.flatMap_cons, hscan, hrest]
      cases o with
      | none => rw [List.reduceOption_cons_of_none]; rfl
      | some r => rw [List.reduceOption_cons_of_some]; rfl

/-- Every reading has the kind, the vector and the time of one entry. -/
def Truthful (log : List Stretch) : Prop :=
  ∀ r ∈ scan 0 0 (log.flatMap Stretch.received), ∃ st ∈ log, ∃ r' ∈ st.entry.reading.toList,
    (r'.kind, r'.v, r'.measMs) = (r.kind, r.v, r.measMs)

instance decidableTruthful (log : List Stretch) : Decidable (Truthful log) :=
  inferInstanceAs (Decidable (∀ r ∈ _, ∃ st ∈ _, ∃ r' ∈ _, _))

/-- The bytes from `lo` on, up to `hi`, were not received. -/
def lose (lo hi : ℕ) (s : List UInt8) : List UInt8 := s.mapIdx fun i c => if lo ≤ i ∧ i < hi then byte ' ' else c

theorem damaged_lose (lo hi : ℕ) (s : List UInt8) : Damaged s (lose lo hi s) := by
  refine List.forall₂_iff_get.mpr ⟨(List.length_mapIdx).symm, fun i hi hi' => ?_⟩
  simp only [lose, List.get_eq_getElem, List.getElem_mapIdx]
  split_ifs
  · exact Or.inr rfl
  · exact Or.inl rfl

def Entry.lost (e : Entry) (lo hi : ℕ) : Stretch := ⟨e, lose lo hi e.text, damaged_lose lo hi e.text⟩

def sampleToken (value : UInt8) : Token where
  value := value
  short := decide (value.toNat < 16)
  gap := [byte ' ']
  short_lt := of_decide_eq_true
  gap_blank := by decide

def sampleFields (tsDone : ℤ) (x : UInt8) : Fields where
  tsSent := 0
  tsDone := tsDone
  tcmd := text "adcs_generic_telemetry_request"
  mid := text ","
  args := text "151,6"
  rest := []
  body := .dump [byte '\n'] ([x, 0x0a, 0x08, 0xf4, 0x6a, 0x01].map sampleToken)
  gap := [byte '\n']

def firstEntry : Entry where
  toFields := sampleFields 5000 0x55
  sent_range := by decide
  done_range := by decide
  tcmd_quote := by decide
  header_brace := by decide
  body_ok := ⟨by decide, by decide, by decide⟩
  gap_blank := by decide
  dump_of_generic := fun _ => ⟨_, _, rfl⟩
  object_of_named := fun h => absurd h (by decide +kernel)
  once := by decide +kernel

def secondEntry : Entry where
  toFields := sampleFields 9000 0x56
  sent_range := by decide
  done_range := by decide
  tcmd_quote := by decide
  header_brace := by decide
  body_ok := ⟨by decide, by decide, by decide⟩
  gap_blank := by decide
  dump_of_generic := fun _ => ⟨_, _, rfl⟩
  object_of_named := fun h => absurd h (by decide +kernel)
  once := by decide +kernel

/-- The second entry is without its `"ts_done"`. -/
def borrowed : List Stretch := [firstEntry.lost 0 0, secondEntry.lost 13 22]

/-- The first byte of the dump is without its first digit. -/
def clipped : List Stretch := [firstEntry.lost 84 85]

end SimpleSatOps.MagReports
