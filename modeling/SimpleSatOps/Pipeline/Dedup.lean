import SimpleSatOps.Lib.Ring

/-!
# Deduplication of sightings (`try_decode_iq_at_window`)

Overlapping windows see a frame more than once; the session emits a sighting unless the bucket of its position is in
the ring of recent buckets.

* `Sighting` : a detection, labelled with the sync word on the air that it belongs to;
* `dedup`, `run` : one sighting, a session;
* `RunOk` : the buckets tell repeated sync words from new ones;
* `eachOnce_iff` : exactly then every sync word is emitted once;
* `deduplicated_of_runOk` : what this says about pairs of sightings.
-/

namespace SimpleSatOps.RxSession

/-- `sps` and `dedup_quant`, which `rx_session_open` keeps positive. -/
structure DedupParams where
  sps : UInt64
  dedupQuant : UInt64
  dedupQuant_pos : 0 < dedupQuant.toNat

structure Sighting where
  asm : ℕ
  windowStartAbs : UInt64
  syncOff : UInt64

/-- `DEDUP_RING_SZ`. -/
abbrev dedupRingSz : ℕ := 64

section Dedup
variable (p : DedupParams)

def asmAbsSample (s : Sighting) : UInt64 := s.windowStartAbs + s.syncOff * p.sps + p.sps / 2

def posQuant (s : Sighting) : UInt64 := asmAbsSample p s / p.dedupQuant

/-- The ring of recent buckets, and the sightings emitted so far. -/
structure Emitter where
  recentPosQuant : Ring UInt64
  emitted : List Sighting

/-- The dedup block of `try_decode_iq_at_window`. -/
def dedup (e : Emitter) (s : Sighting) : Emitter :=
  if e.recentPosQuant.has dedupRingSz (posQuant p s) then e
  else
    { recentPosQuant := e.recentPosQuant.push dedupRingSz (posQuant p s)
      emitted := e.emitted ++ [s] }

/-- The ring of a `calloc`ed session. -/
def Emitter.fresh : Emitter := ⟨⟨List.replicate dedupRingSz 0, 0, 0⟩, []⟩

def run (ss : List Sighting) : Emitter := ss.foldl (dedup p) Emitter.fresh

/-! ## The specification -/

/-- How often the sync word `a` was emitted. -/
def emissions (ss : List Sighting) (a : ℕ) : ℕ := (run p ss).emitted.countP (·.asm = a)

/-- The distance of two sightings in samples. -/
def apart (s t : Sighting) : ℕ :=
  (asmAbsSample p s).toNat - (asmAbsSample p t).toNat + ((asmAbsSample p t).toNat - (asmAbsSample p s).toNat)

/-- Two sightings of one sync word are emitted once, sightings far apart are both emitted. -/
structure Deduplicated (ss : List Sighting) : Prop where
  once : ∀ s t : Sighting, [s, t].Sublist ss → s.asm = t.asm → apart p s t < p.sps.toNat → emissions p ss s.asm = 1
  both : ∀ s t : Sighting, s ∈ ss → t ∈ ss → p.dedupQuant.toNat < apart p s t →
    0 < emissions p ss s.asm ∧ 0 < emissions p ss t.asm

def EachOnce (ss : List Sighting) : Prop := ∀ s ∈ ss, emissions p ss s.asm = 1

/-- The first sighting of every sync word. -/
def firsts (ss : List Sighting) : List Sighting :=
  ss.foldl (fun fs s => if fs.any (·.asm = s.asm) then fs else fs ++ [s]) []

/-- After `ss`, the bucket of `s` is one of the last `dedupRingSz` new sync words' buckets just when the sync word of
`s` was sighted before. -/
def StepOk (ss : List Sighting) (s : Sighting) : Prop :=
  (∃ t ∈ ss, t.asm = s.asm) ↔ posQuant p s ∈ Ring.recent dedupRingSz ((firsts ss).map (posQuant p))

def RunOk (ss : List Sighting) : Prop := ∀ before s after, ss = before ++ s :: after → StepOk p before s

/-! ## One sighting -/

theorem run_append (ss : List Sighting) (s : Sighting) : run p (ss ++ [s]) = dedup p (run p ss) s :=
  List.foldl_append

/-- The ring holds the buckets of what was emitted. -/
theorem run_holds (ss : List Sighting) :
    Ring.Holds dedupRingSz (run p ss).recentPosQuant ((run p ss).emitted.map (posQuant p)) := by
  induction ss using List.reverseRecOn with
  | nil => exact Ring.Holds.empty (List.replicate dedupRingSz 0)
  | append_singleton ss s ih =>
    rw [run_append]
    unfold dedup
    split_ifs with h
    · exact ih
    · rw [List.map_append]
      exact ih.push (by decide) _

theorem emitted_append (ss : List Sighting) (s : Sighting) :
    (run p (ss ++ [s])).emitted =
      if posQuant p s ∈ Ring.recent dedupRingSz ((run p ss).emitted.map (posQuant p)) then (run p ss).emitted
      else (run p ss).emitted ++ [s] := by
  rw [run_append]
  unfold dedup
  rw [apply_ite Emitter.emitted]
  exact if_congr ((run_holds p ss).has_iff _) rfl rfl

/-! ## First sightings -/

theorem firsts_append (ss : List Sighting) (s : Sighting) :
    firsts (ss ++ [s]) = if (firsts ss).any (·.asm = s.asm) then firsts ss else firsts ss ++ [s] :=
  List.foldl_append

theorem firsts_any_iff (ss : List Sighting) (a : ℕ) :
    (firsts ss).any (·.asm = a) ↔ ∃ t ∈ ss, t.asm = a := by
  induction ss using List.reverseRecOn with
  | nil => simp [firsts]
  | append_singleton ss s ih =>
    rw [firsts_append]
    split_ifs with h
    · rw [ih]
      constructor
      · rintro ⟨t, ht, hta⟩
        exact ⟨t, List.mem_append_left _ ht, hta⟩
      · rintro ⟨t, ht, hta⟩
        rcases List.mem_append.mp ht with ht | ht
        · exact ⟨t, ht, hta⟩
        · obtain rfl := List.mem_singleton.mp ht
          exact ih.mp (hta ▸ h)
    · rw [List.any_append, Bool.or_eq_true, ih]
      simp only [List.any_cons, List.any_nil, Bool.or_false, decide_eq_true_eq, List.mem_append,
        List.mem_singleton, or_and_right, exists_or, exists_eq_left]

theorem countP_firsts {ss : List Sighting} {a : ℕ} (h : ∃ t ∈ ss, t.asm = a) : (firsts ss).countP (·.asm = a) = 1 := by
  induction ss using List.reverseRecOn with
  | nil =>
    obtain ⟨t, ht, -⟩ := h
    cases ht
  | append_singleton ss s ih =>
    obtain ⟨t, ht, hta⟩ := h
    have hseen : t ∈ ss ∨ t = s := by simpa using ht
    rw [firsts_append]
    split_ifs with hany
    · apply ih
      rcases hseen with ht | rfl
      · exact ⟨t, ht, hta⟩
      · exact hta ▸ (firsts_any_iff ss t.asm).mp hany
    · rw [List.countP_append, List.countP_singleton]
      by_cases hsa : s.asm = a
      · have hzero : (firsts ss).countP (·.asm = a) = 0 := by
          rw [List.countP_eq_zero]
          intro u hu hua
          exact hany (List.any_eq_true.mpr ⟨u, hu, by simpa [hsa] using hua⟩)
        rw [hzero, if_pos (by simpa using hsa)]
      · rw [ih ⟨t, hseen.resolve_right fun h => hsa (h ▸ hta), hta⟩, if_neg (by simpa using hsa)]

/-! ## Runs -/

theorem RunOk.of_append {ss : List Sighting} {s : Sighting} (h : RunOk p (ss ++ [s])) : RunOk p ss ∧ StepOk p ss s :=
  ⟨fun before t after heq => h before t (after ++ [s]) (by rw [heq]; simp), h ss s [] rfl⟩

/-- **One sighting**: under the condition it is emitted exactly when its sync word is new. -/
theorem emitted_of_stepOk {ss : List Sighting} {s : Sighting} (h : StepOk p ss s)
    (hss : (run p ss).emitted = firsts ss) : (run p (ss ++ [s])).emitted = firsts (ss ++ [s]) := by
  rw [emitted_append, hss, firsts_append]
  exact if_congr (h.symm.trans (firsts_any_iff ss s.asm).symm) rfl rfl

/-- **A run**: what is emitted are the first sightings. -/
theorem emitted_eq_firsts {ss : List Sighting} (h : RunOk p ss) : (run p ss).emitted = firsts ss := by
  induction ss using List.reverseRecOn with
  | nil => rfl
  | append_singleton ss s ih =>
    obtain ⟨hss, hs⟩ := RunOk.of_append p h
    exact emitted_of_stepOk p hs (ih hss)

theorem eachOnce_of_runOk {ss : List Sighting} (h : RunOk p ss) : EachOnce p ss := fun s hs => by
  unfold emissions
  rw [emitted_eq_firsts p h]
  exact countP_firsts ⟨s, hs, rfl⟩

theorem stepOk_of_eachOnce {ss : List Sighting} {s : Sighting} (hss : (run p ss).emitted = firsts ss)
    (h : EachOnce p (ss ++ [s])) : StepOk p ss s := by
  have hcount := h s (List.mem_append_right _ (List.mem_singleton_self s))
  unfold emissions at hcount
  rw [emitted_append, hss] at hcount
  unfold StepOk
  rw [← firsts_any_iff]
  by_cases hq : posQuant p s ∈ Ring.recent dedupRingSz ((firsts ss).map (posQuant p))
  · -- suppressed, so its sync word has been emitted before
    rw [if_pos hq] at hcount
    refine iff_of_true ?_ hq
    obtain ⟨t, ht, hta⟩ := List.countP_pos_iff.mp (hcount ▸ Nat.one_pos)
    exact List.any_eq_true.mpr ⟨t, ht, hta⟩
  · rw [if_neg hq, List.countP_append, List.countP_singleton, if_pos (by simp)] at hcount
    refine iff_of_false ?_ hq
    intro hany
    obtain ⟨t, ht, hta⟩ := List.any_eq_true.mp hany
    have hpos : 0 < (firsts ss).countP (·.asm = s.asm) := List.countP_pos_iff.mpr ⟨t, ht, hta⟩
    omega

/-- **The buckets decide**: every sync word is emitted exactly once throughout a run just when every sighting meets
`StepOk`. -/
theorem eachOnce_iff (ss : List Sighting) : (∀ n, EachOnce p (ss.take n)) ↔ RunOk p ss := by
  constructor
  · intro h
    induction ss using List.reverseRecOn with
    | nil =>
      intro before s after heq
      simp at heq
    | append_singleton ss s ih =>
      have hss : RunOk p ss := ih fun n => by
        have hn := h (min n ss.length)
        rwa [List.take_append_of_le_length (Nat.min_le_right _ _), ← List.take_eq_take_min] at hn
      have hlast : EachOnce p (ss ++ [s]) := by
        have hn := h (ss ++ [s]).length
        rwa [List.take_length] at hn
      have hs := stepOk_of_eachOnce p (emitted_eq_firsts p hss) hlast
      intro before t after heq
      rcases List.eq_nil_or_concat after with rfl | ⟨after', u, rfl⟩
      · obtain ⟨rfl, hst⟩ := List.append_inj' heq rfl
        cases hst
        exact hs
      · rw [List.concat_eq_append, ← List.cons_append, ← List.append_assoc] at heq
        exact hss before t after' (List.append_inj' heq rfl).1
  · intro h n
    apply eachOnce_of_runOk
    intro before s after heq
    refine h before s (after ++ ss.drop n) ?_
    rw [← List.cons_append, ← List.append_assoc, ← heq, List.take_append_drop]

/-- Sightings more than `dedup_quant` samples apart never share a bucket. -/
theorem posQuant_ne_of_apart {s t : Sighting} (h : p.dedupQuant.toNat < apart p s t) : posQuant p s ≠ posQuant p t := by
  intro heq
  have hdiv := congrArg UInt64.toNat heq
  unfold posQuant at hdiv
  rw [UInt64.toNat_div, UInt64.toNat_div] at hdiv
  have hs := Nat.div_add_mod (asmAbsSample p s).toNat p.dedupQuant.toNat
  have ht := Nat.div_add_mod (asmAbsSample p t).toNat p.dedupQuant.toNat
  have hs' := Nat.mod_lt (asmAbsSample p s).toNat p.dedupQuant_pos
  have ht' := Nat.mod_lt (asmAbsSample p t).toNat p.dedupQuant_pos
  rw [hdiv] at hs
  unfold apart at h
  omega

theorem recent_map (ss : List Sighting) {β : Type*} (f : Sighting → β) :
    Ring.recent dedupRingSz (ss.map f) = (Ring.recent dedupRingSz ss).map f := by
  unfold Ring.recent
  rw [List.length_map, List.map_drop]

theorem mem_of_mem_firsts {ss : List Sighting} {t : Sighting} (h : t ∈ firsts ss) : t ∈ ss := by
  induction ss using List.reverseRecOn with
  | nil => exact h
  | append_singleton ss s ih =>
    rw [firsts_append] at h
    split_ifs at h
    · exact List.mem_append_left _ (ih h)
    · rcases List.mem_append.mp h with h | h
      · exact List.mem_append_left _ (ih h)
      · exact List.mem_append_right _ h

/-- An orderly session: a sync word keeps its bucket, different ones are far apart, and at most `dedupRingSz` new sync
words come before one is sighted again. -/
theorem runOk_of_separate {ss : List Sighting}
    (hsame : ∀ s ∈ ss, ∀ t ∈ ss, s.asm = t.asm → posQuant p s = posQuant p t)
    (hfar : ∀ s ∈ ss, ∀ t ∈ ss, s.asm ≠ t.asm → p.dedupQuant.toNat < apart p s t)
    (hsoon : ∀ before s after, ss = before ++ s :: after → (∃ t ∈ before, t.asm = s.asm) →
      s.asm ∈ (Ring.recent dedupRingSz (firsts before)).map Sighting.asm) : RunOk p ss := by
  intro before s after heq
  have hs : s ∈ ss := heq ▸ List.mem_append_right _ List.mem_cons_self
  have hmem : ∀ t ∈ Ring.recent dedupRingSz (firsts before), t ∈ before ∧ t ∈ ss := by
    intro t ht
    have hbefore := mem_of_mem_firsts (List.mem_of_mem_drop ht)
    exact ⟨hbefore, heq ▸ List.mem_append_left _ hbefore⟩
  unfold StepOk
  rw [recent_map]
  constructor
  · intro hseen
    obtain ⟨t, ht, hta⟩ := List.mem_map.mp (hsoon before s after heq hseen)
    exact List.mem_map.mpr ⟨t, ht, hsame t (hmem t ht).2 s hs hta⟩
  · intro hq
    obtain ⟨t, ht, htq⟩ := List.mem_map.mp hq
    refine ⟨t, (hmem t ht).1, ?_⟩
    by_contra hne
    exact posQuant_ne_of_apart p (hfar t (hmem t ht).2 s hs hne) htq

/-- **Deduplication**: while every sighting meets `StepOk`, two sightings of one sync word are emitted once and
sightings far apart are both emitted. -/
theorem deduplicated_of_runOk {ss : List Sighting} (h : RunOk p ss) (n : ℕ) : Deduplicated p (ss.take n) := by
  have honce := (eachOnce_iff p ss).mpr h n
  refine ⟨fun s t hst _ _ => ?_, fun s t hs ht _ => ?_⟩
  · exact honce s (hst.subset List.mem_cons_self)
  · exact ⟨(honce s hs).symm ▸ Nat.one_pos, (honce t ht).symm ▸ Nat.one_pos⟩

end Dedup

/-- 9600 baud at 48 kHz. -/
def params48k : DedupParams := ⟨5, 4800, by decide⟩

/-- Two windows see one sync word at the same position, and the second one sees another sync word. -/
theorem deduplicated_twoWindows :
    Deduplicated params48k ([⟨0, 0, 5000⟩, ⟨0, 24000, 200⟩, ⟨1, 24000, 9000⟩].take 3) :=
  deduplicated_of_runOk params48k (runOk_of_separate params48k (by decide) (by decide) (by
    intro before s after heq hseen
    match before, heq with
    | [], _ => simp at hseen
    | [_], heq =>
      simp only [List.cons_append, List.nil_append, List.cons.injEq] at heq
      obtain ⟨rfl, rfl, -⟩ := heq
      decide
    | [_, _], heq =>
      simp only [List.cons_append, List.nil_append, List.cons.injEq] at heq
      obtain ⟨rfl, rfl, rfl, -⟩ := heq
      revert hseen
      decide
    | _ :: _ :: _ :: _, heq => simp at heq)) 3

/-- One sync word at samples 19202 and 19198, on the two sides of the bucket edge 19200. -/
def straddling : List Sighting := [⟨0, 0, 3840⟩, ⟨0, 14401, 959⟩]

/-- The two sightings are emitted both. -/
theorem not_deduplicated_straddling : ¬ Deduplicated params48k straddling := by
  intro h
  have honce := h.once ⟨0, 0, 3840⟩ ⟨0, 14401, 959⟩ (List.Sublist.refl _) rfl (by decide)
  revert honce
  decide

end SimpleSatOps.RxSession
