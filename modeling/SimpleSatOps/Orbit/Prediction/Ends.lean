import Mathlib.Logic.Relation
import SimpleSatOps.Orbit.Prediction

/-!
# When the pass search ends (`prediction.c`)

* `Resumes`, `Reached` : the offsets a search comes to, one after the other;
* `Sound` : the walks from a point end, and the second look finds the pass again;
* `searchLoop_of_sound` : a search whose points are sound ends, as each pass takes an hour of the window;
* `ends_of_resumes`, `sound_of_ends` : a search that ends has walked to the end from each of its points;
* `findPasses_ends` : both, for a trajectory and for a file of elements;
* `findPasses_stationary` : a satellite that is always up.
-/

namespace SimpleSatOps.PassSearch
open While

section
variable {sat : ℚ → Ephem} {now start stop δ s m : ℚ} {c : Criteria} {findAll : Bool} {name : List UInt8}

/-- A search comes from one offset to the next. -/
def Resumes (sat : ℚ → Ephem) (now start stop δ : ℚ) (c : Criteria) (findAll : Bool) (off off' : ℚ) : Prop :=
  ∃ fuel p p', getNextPass sat now fuel p (start + off / 1440) stop δ = some (p', true) ∧
    (findAll = true ∨ c.rejects p' = true) ∧ off' = off + (p'.minutesUntilVisible + 60)

/-- A search that starts at one offset comes to another. -/
abbrev Reached (sat : ℚ → Ephem) (now start stop δ : ℚ) (c : Criteria) (findAll : Bool) : ℚ → ℚ → Prop :=
  Relation.ReflTransGen (Resumes sat now start stop δ c findAll)

/-- The walks from `s` end, and the second look does not lose the pass. -/
structure Sound (sat : ℚ → Ephem) (now stop δ s : ℚ) : Prop where
  back : Back sat stop δ (origin now s)
  sets : ∀ m, PassAt sat now stop δ s m → Sets sat (s + m / 1440)
  fine : ∀ m, PassAt sat now stop δ s m → 0 ≤ m

/-- A search gives the same whatever was in the prediction before. -/
theorem Searched.agree {p₁ p₂ : Prediction} {r₁ r₂ : Prediction × Bool} (h₁ : Searched sat now stop δ s p₁ r₁)
    (h₂ : Searched sat now stop δ s p₂ r₂) : r₁.2 = r₂.2 ∧ (r₁.2 = true →
      r₁.1.minutesUntilVisible = r₂.1.minutesUntilVisible ∧ c.rejects r₁.1 = c.rejects r₂.1) := by
  cases h₁ with
  | none hnone =>
      cases h₂ with
      | none => exact ⟨rfl, fun h => nomatch h⟩
      | pass hm => exact absurd ⟨_, hm⟩ hnone
  | pass hm hw =>
      cases h₂ with
      | none hnone => exact absurd ⟨_, hm⟩ hnone
      | pass hm' hw' =>
          obtain rfl := hm.unique hm'
          obtain rfl := loop_unique hw hw'
          exact ⟨rfl, fun _ => ⟨rfl, rfl⟩⟩

theorem Searched.passAt {p p' : Prediction} (h : Searched sat now stop δ s p (p', true)) :
    PassAt sat now stop δ s p'.minutesUntilVisible := by
  cases h with
  | pass hm => exact hm

/-- What is found lies within the window. -/
theorem PassAt.lt (hδ : 0 < δ) (h : PassAt sat now stop δ s m) : origin now s < stop := by
  obtain ⟨t, ht, -⟩ := h
  exact (ht.rise.le hδ).trans_lt ht.lt

/-- There is a first time of the grid at which the satellite is not below the horizon, if there is any. -/
theorem exists_rise {d : ℚ} (hd : 0 < d) (o : ℚ) (k : ℕ) (hup : 0 ≤ (sat (o + k * (d / 1440))).elevation) :
    ∃ t, Rise sat d o t ∧ t ≤ o + k * (d / 1440) := by
  classical
  have hex : ∃ i : ℕ, 0 ≤ (sat (o + i * (d / 1440))).elevation := ⟨k, hup⟩
  refine ⟨o + (Nat.find hex : ℕ) * (d / 1440), ⟨Nat.find hex, rfl, Nat.find_spec hex, fun i hi => ?_⟩, ?_⟩
  · exact not_le.mp (Nat.find_min hex hi)
  · have hmul : ((Nat.find hex : ℕ) : ℚ) * (d / 1440) ≤ k * (d / 1440) :=
      mul_le_mul_of_nonneg_right (Nat.cast_le.mpr (Nat.find_min' hex hup)) (by linarith)
    linarith

/-- The second look loses no pass, and finds none later, when the step is a whole number of seconds or at most one. -/
theorem fine_of_seconds (hδ : 0 < δ) (hstep : δ ≤ 1 / 60 ∨ ∃ n : ℕ, δ = n / 60) (hpos : 0 < origin now s)
    (h : PassAt sat now stop δ s m) :
    0 ≤ m ∧ ∀ t, Ahead sat stop δ (origin now s) t → origin now s + m / 1440 ≤ t := by
  obtain ⟨t, ht, hm⟩ := h
  have hle := ht.rise.le hδ
  suffices hsuff : 0 ≤ m ∧ origin now s + m / 1440 ≤ t from
    ⟨hsuff.1, fun t' ht' => ht.unique ht' ▸ hsuff.2⟩
  by_cases hnear : (t - origin now s) * 1440 < 10 ∧ δ > 1 / 60
  · rw [if_pos hnear] at hm
    obtain ⟨n, rfl⟩ : ∃ n : ℕ, δ = n / 60 := hstep.resolve_left (not_le.mpr hnear.2)
    -- the times of the grid are among the seconds
    obtain ⟨t', hrise, hle'⟩ : ∃ t', Rise sat (1 / 60) (origin now s) t' ∧ t' ≤ t := by
      obtain ⟨k, hk, hup, -⟩ := ht.rise
      have hgrid : origin now s + (k * n : ℕ) * (1 / 60 / 1440) = t := by
        rw [hk]
        push_cast
        ring
      rw [← hgrid] at hup ⊢
      exact exists_rise (by norm_num) _ _ hup
    have hle'' := hrise.le (by norm_num)
    have hahead : Ahead sat stop (1 / 60) (origin now s) t' :=
      ⟨ht.start, hrise, hpos.trans_le hle'', hle'.trans_lt ht.lt⟩
    rcases hm with ⟨t'', ht'', rfl⟩ | ⟨hnone, -, -⟩
    · obtain rfl := hahead.unique ht''
      exact ⟨by linarith, by linarith⟩
    · exact absurd ⟨t', hahead⟩ hnone
  · rw [if_neg hnear] at hm
    exact ⟨by linarith, by linarith⟩

/-! ## Fuel -/

theorem getNextPass_mono {fuel fuel' : ℕ} (hle : fuel ≤ fuel') {p : Prediction} {r : Prediction × Bool}
    (h : getNextPass sat now fuel p s stop δ = some r) : getNextPass sat now fuel' p s stop δ = some r := by
  obtain ⟨m, hm, h⟩ := Option.bind_eq_some_iff.mp h
  by_cases hpos : m ≥ 0
  · rw [if_pos hpos] at h
    obtain ⟨m', hm', h⟩ := Option.bind_eq_some_iff.mp h
    obtain ⟨p', hp', h⟩ := Option.bind_eq_some_iff.mp h
    obtain ⟨w, hw, rfl⟩ := Option.map_eq_some_iff.mp hp'
    obtain rfl := Option.some.inj h
    exact getNextPass_of_nonneg (minutesUntilVisible_mono hle hm) hpos (refineMinutes_mono hle hm') (loop_mono hle hw)
  · rw [if_neg hpos] at h
    obtain rfl := Option.some.inj h
    exact getNextPass_of_neg (minutesUntilVisible_mono hle hm) hpos

/-- A search that finds nothing is over. -/
theorem searchLoop_of_none {fuel : ℕ} {off : ℚ} {p p' : Prediction} {passes : List Pass}
    (h : getNextPass sat now fuel p (start + off / 1440) stop δ = some (p', false)) :
    searchLoop sat now name start stop δ c findAll (fuel + 1) off p passes = some (p', passes) := by
  rw [searchLoop, h]
  rfl

/-- What a search does with what it finds. -/
theorem searchLoop_of_pass {fuel : ℕ} {off : ℚ} {p p' : Prediction} {passes : List Pass}
    (h : getNextPass sat now fuel p (start + off / 1440) stop δ = some (p', true)) :
    searchLoop sat now name start stop δ c findAll (fuel + 1) off p passes =
      let passes' := if c.rejects p' then passes else appendPass passes name (p'.minutesUntilVisible + off) p'
      if findAll = true ∨ c.rejects p' = true then
        searchLoop sat now name start stop δ c findAll fuel (off + (p'.minutesUntilVisible + 60)) p' passes'
      else some (p', passes') := by
  rw [searchLoop, h]
  cases hrejects : c.rejects p' with
  | true => simp [hrejects]
  | false =>
      cases findAll with
      | true => simp [hrejects]
      | false => simp [hrejects]

theorem searchLoop_mono {fuel : ℕ} : ∀ {fuel' : ℕ}, fuel ≤ fuel' → ∀ {off : ℚ} {p : Prediction} {passes : List Pass}
    {r : Prediction × List Pass}, searchLoop sat now name start stop δ c findAll fuel off p passes = some r →
      searchLoop sat now name start stop δ c findAll fuel' off p passes = some r := by
  induction fuel with
  | zero =>
      intro fuel' hle off p passes r h
      exact nomatch h
  | succ fuel ih =>
      intro fuel' hle off p passes r h
      obtain ⟨fuel', rfl⟩ := Nat.exists_eq_add_one_of_ne_zero (Nat.zero_lt_of_lt hle).ne'
      have hle' := Nat.le_of_succ_le_succ hle
      have hbind := h
      rw [searchLoop] at hbind
      obtain ⟨⟨p', got⟩, hp', -⟩ := Option.bind_eq_some_iff.mp hbind
      have hmono := getNextPass_mono hle' hp'
      cases got with
      | false =>
          rw [searchLoop_of_none hp'] at h
          rw [searchLoop_of_none hmono, h]
      | true =>
          rw [searchLoop_of_pass hp'] at h
          rw [searchLoop_of_pass hmono]
          dsimp only at h ⊢
          split
          · next hmore =>
              rw [if_pos hmore] at h
              exact ih hle' h
          · next hmore =>
              rw [if_neg hmore] at h
              exact h

/-! ## The run -/

/-- The points ahead in the window, counted in hours. -/
def hoursLeft (stop s : ℚ) : ℚ := (max stop (1 / 24) - s) * 24

/-- A search whose points are sound ends. -/
theorem searchLoop_of_sound (hδ : 0 < δ) (n : ℕ) : ∀ (off : ℚ) (p : Prediction) (passes : List Pass),
    (∀ off', Reached sat now start stop δ c findAll off off' → Sound sat now stop δ (start + off' / 1440)) →
    hoursLeft stop (start + off / 1440) ≤ n →
    ∃ fuel r, searchLoop sat now name start stop δ c findAll fuel off p passes = some r := by
  induction n with
  | zero =>
      intro off p passes hsound hleft
      have hs := hsound off .refl
      obtain ⟨fuel, ⟨p', got⟩, hp'⟩ := (getNextPass_ends hδ p).mpr ⟨hs.back, hs.sets⟩
      cases got with
      | false => exact ⟨fuel + 1, _, searchLoop_of_none hp'⟩
      | true =>
          -- the window is over
          have hlt := (getNextPass_spec hδ hp').2.passAt.lt hδ
          have hmax : max stop (1 / 24) ≤ start + off / 1440 := by
            unfold hoursLeft at hleft
            rw [Nat.cast_zero] at hleft
            linarith
          have hpos : start + off / 1440 ≠ 0 := by
            have h := (le_max_right stop (1 / 24)).trans hmax
            intro hzero
            rw [hzero] at h
            norm_num at h
          rw [origin, if_neg hpos] at hlt
          exact absurd ((le_max_left stop (1 / 24)).trans hmax) (not_le.mpr hlt)
  | succ n ih =>
      intro off p passes hsound hleft
      have hs := hsound off .refl
      obtain ⟨fuel, ⟨p', got⟩, hp'⟩ := (getNextPass_ends hδ p).mpr ⟨hs.back, hs.sets⟩
      cases got with
      | false => exact ⟨fuel + 1, _, searchLoop_of_none hp'⟩
      | true =>
          have hm := hs.fine _ (getNextPass_spec hδ hp').2.passAt
          by_cases hmore : findAll = true ∨ c.rejects p' = true
          · have hnext : Resumes sat now start stop δ c findAll off (off + (p'.minutesUntilVisible + 60)) :=
              ⟨fuel, p, p', hp', hmore, rfl⟩
            have hleft' : hoursLeft stop (start + (off + (p'.minutesUntilVisible + 60)) / 1440) ≤ n := by
              unfold hoursLeft at hleft ⊢
              push_cast at hleft
              linarith
            obtain ⟨fuel', r, hr⟩ := ih _ p' (if c.rejects p' then passes else
                appendPass passes name (p'.minutesUntilVisible + off) p')
              (fun off' h => hsound off' (.head hnext h)) hleft'
            refine ⟨max fuel fuel' + 1, r, ?_⟩
            rw [searchLoop_of_pass (getNextPass_mono (le_max_left _ _) hp')]
            dsimp only
            rw [if_pos hmore]
            exact searchLoop_mono (le_max_right _ _) hr
          · have hrun : searchLoop sat now name start stop δ c findAll (fuel + 1) off p passes = _ :=
              searchLoop_of_pass hp'
            dsimp only at hrun
            rw [if_neg hmore] at hrun
            exact ⟨fuel + 1, _, hrun⟩

/-- A search that ends from an offset. -/
def EndsFrom (sat : ℚ → Ephem) (now : ℚ) (name : List UInt8) (start stop δ : ℚ) (c : Criteria) (findAll : Bool)
    (off : ℚ) : Prop :=
  ∃ fuel p passes r, searchLoop sat now name start stop δ c findAll fuel off p passes = some r

theorem EndsFrom.resumes (hδ : 0 < δ) {off off' : ℚ} (h : EndsFrom sat now name start stop δ c findAll off)
    (hnext : Resumes sat now start stop δ c findAll off off') :
    EndsFrom sat now name start stop δ c findAll off' := by
  obtain ⟨fuel, p, passes, r, h⟩ := h
  obtain ⟨fuel₂, p₂, p₂', hp₂, hmore, rfl⟩ := hnext
  cases fuel with
  | zero => exact nomatch h
  | succ fuel =>
      have hbind := h
      rw [searchLoop] at hbind
      obtain ⟨⟨p', got⟩, hp', -⟩ := Option.bind_eq_some_iff.mp hbind
      obtain ⟨hgot, hagree⟩ := (getNextPass_spec hδ hp').2.agree (c := c) (getNextPass_spec hδ hp₂).2
      obtain rfl : got = true := hgot
      obtain ⟨hm, hrejects⟩ := hagree rfl
      rw [searchLoop_of_pass hp'] at h
      dsimp only at h hm hrejects
      rw [hrejects, if_pos hmore, hm] at h
      exact ⟨fuel, _, _, r, h⟩

/-- A search that ends has walked to the end. -/
theorem EndsFrom.walked (hδ : 0 < δ) {off : ℚ} (h : EndsFrom sat now name start stop δ c findAll off) :
    Back sat stop δ (origin now (start + off / 1440)) ∧
      ∀ m, PassAt sat now stop δ (start + off / 1440) m → Sets sat (start + off / 1440 + m / 1440) := by
  obtain ⟨fuel, p, passes, r, h⟩ := h
  cases fuel with
  | zero => exact nomatch h
  | succ fuel =>
      rw [searchLoop] at h
      obtain ⟨r', hr', -⟩ := Option.bind_eq_some_iff.mp h
      exact (getNextPass_ends hδ p).mp ⟨fuel, r', hr'⟩

theorem EndsFrom.reached (hδ : 0 < δ) {off off' : ℚ} (h : EndsFrom sat now name start stop δ c findAll off)
    (hreach : Reached sat now start stop δ c findAll off off') : EndsFrom sat now name start stop δ c findAll off' := by
  induction hreach with
  | refl => exact h
  | tail _ hnext ih => exact ih.resumes hδ hnext

end

/-! ## All satellites -/

section
variable {now start stop δ : ℚ} {c : Criteria} {findAll : Bool}

/-- A search of a satellite whose points are sound. -/
def SoundRun (sat : ℚ → Ephem) (now start stop δ : ℚ) (c : Criteria) (findAll : Bool) (off₀ : ℚ) : Prop :=
  ∀ off, Reached sat now start stop δ c findAll off₀ off → Sound sat now stop δ (start + off / 1440)

/-- A search of a satellite that walks to the end from each of its points. -/
def WalkedRun (sat : ℚ → Ephem) (now start stop δ : ℚ) (c : Criteria) (findAll : Bool) (off₀ : ℚ) : Prop :=
  ∀ off, Reached sat now start stop δ c findAll off₀ off → Back sat stop δ (origin now (start + off / 1440)) ∧
    ∀ m, PassAt sat now stop δ (start + off / 1440) m → Sets sat (start + off / 1440 + m / 1440)

theorem searchLoop_ends (hδ : 0 < δ) {sat : ℚ → Ephem} {off₀ : ℚ}
    (h : SoundRun sat now start stop δ c findAll off₀) (name : List UInt8) (p : Prediction) (passes : List Pass) :
    ∃ fuel r, searchLoop sat now name start stop δ c findAll fuel off₀ p passes = some r := by
  obtain ⟨n, hn⟩ := exists_nat_ge (hoursLeft stop (start + off₀ / 1440))
  exact searchLoop_of_sound hδ n off₀ p passes h hn

theorem walkedRun_of_ends (hδ : 0 < δ) {sat : ℚ → Ephem} {off₀ : ℚ} {name : List UInt8}
    (h : EndsFrom sat now name start stop δ c findAll off₀) : WalkedRun sat now start stop δ c findAll off₀ :=
  fun _ hreach => (h.reached hδ hreach).walked hδ

theorem Reached.pos (hδ : 0 < δ) (hstep : δ ≤ 1 / 60 ∨ ∃ n : ℕ, δ = n / 60) {sat : ℚ → Ephem} {off₀ off : ℚ}
    (hpos : 0 < start + off₀ / 1440) (h : Reached sat now start stop δ c findAll off₀ off) :
    0 < start + off / 1440 := by
  induction h with
  | refl => exact hpos
  | tail _ hnext ih =>
      obtain ⟨fuel, p, p', hp', -, rfl⟩ := hnext
      have horigin : origin now (start + _ / 1440) = _ := if_neg ih.ne'
      have hm := (fine_of_seconds hδ hstep (ih.trans_eq horigin.symm) (getNextPass_spec hδ hp').2.passAt).1
      linarith

/-- With steps of whole seconds and a time that counts, a search is sound when its walks end. -/
theorem soundRun_iff (hδ : 0 < δ) (hstep : δ ≤ 1 / 60 ∨ ∃ n : ℕ, δ = n / 60) {sat : ℚ → Ephem} {off₀ : ℚ}
    (hpos : 0 < start + off₀ / 1440) :
    SoundRun sat now start stop δ c findAll off₀ ↔ WalkedRun sat now start stop δ c findAll off₀ := by
  constructor
  · exact fun h off hreach => ⟨(h off hreach).back, (h off hreach).sets⟩
  · intro h off hreach
    refine ⟨(h off hreach).1, (h off hreach).2, fun m hm => ?_⟩
    have hs := Reached.pos hδ hstep hpos hreach
    have horigin : origin now (start + off / 1440) = start + off / 1440 := if_neg hs.ne'
    exact (fine_of_seconds hδ hstep (hs.trans_eq horigin.symm) hm).1

/-- The satellite of an entry is searched for. -/
def Criteria.checks (c : Criteria) (start : ℚ) (e : Entry) : Prop :=
  e.goodElements = true ∧ c.selects e.name = true ∧ c.altitudeOk (e.sat start) = true

theorem searchEntries_mono {fuel fuel' : ℕ} (hle : fuel ≤ fuel') : ∀ (entries : List Entry) {p : Prediction}
    {passes : List Pass} {count checked : ℕ} {r : Option (List Pass × ℕ × ℕ)},
    searchEntries now fuel start δ c findAll entries p passes count checked = some r →
      searchEntries now fuel' start δ c findAll entries p passes count checked = some r := by
  intro entries
  induction entries with
  | nil => exact fun h => h
  | cons e entries ih =>
      intro p passes count checked r h
      unfold searchEntries at h ⊢
      split
      · next hbad => rwa [if_pos hbad] at h
      · next hgood =>
          rw [if_neg hgood] at h
          split
          · next hchecks =>
              rw [if_pos hchecks] at h
              obtain ⟨⟨p', passes'⟩, hloop, hrest⟩ := Option.bind_eq_some_iff.mp h
              rw [searchLoop_mono hle hloop]
              exact ih hrest
          · next hskip =>
              rw [if_neg hskip] at h
              exact ih h

theorem searchEntries_ends (hδ : 0 < δ) : ∀ (entries : List Entry) (p : Prediction) (passes : List Pass)
    (count checked : ℕ), (∀ e ∈ entries, c.checks start e →
      SoundRun e.sat now start (start + c.maxMinutes / 1440) δ c findAll (startOffset start e.julEpoch)) →
    ∃ fuel r, searchEntries now fuel start δ c findAll entries p passes count checked = some r := by
  intro entries
  induction entries with
  | nil => exact fun p passes count checked _ => ⟨0, _, rfl⟩
  | cons e entries ih =>
      intro p passes count checked hsound
      obtain ⟨he, hrest⟩ := List.forall_mem_cons.mp hsound
      by_cases hbad : e.goodElements = false
      · exact ⟨0, none, by rw [searchEntries, if_pos hbad]⟩
      · by_cases hchecks : c.selects e.name = true ∧ c.altitudeOk (e.sat start) = true
        · obtain ⟨fuel, ⟨p', passes'⟩, hloop⟩ := searchLoop_ends hδ
            (he ⟨Bool.not_eq_false _ ▸ hbad, hchecks⟩) e.name p passes
          obtain ⟨fuel', r, hr⟩ := ih p' passes' (count + 1) (checked + 1) hrest
          refine ⟨max fuel fuel', r, ?_⟩
          rw [searchEntries, if_neg hbad, if_pos hchecks, searchLoop_mono (le_max_left _ _) hloop]
          exact searchEntries_mono (le_max_right _ _) entries hr
        · obtain ⟨fuel, r, hr⟩ := ih p passes (count + 1) checked hrest
          refine ⟨fuel, r, ?_⟩
          rw [searchEntries, if_neg hbad, if_neg hchecks, hr]

theorem walkedRun_of_searchEntries (hδ : 0 < δ) {fuel : ℕ} : ∀ (entries : List Entry) {p : Prediction}
    {passes : List Pass} {count checked : ℕ} {r : List Pass × ℕ × ℕ},
    searchEntries now fuel start δ c findAll entries p passes count checked = some (some r) →
      ∀ e ∈ entries, c.checks start e →
        WalkedRun e.sat now start (start + c.maxMinutes / 1440) δ c findAll (startOffset start e.julEpoch) := by
  intro entries
  induction entries with
  | nil => exact fun _ e he => absurd he List.not_mem_nil
  | cons e entries ih =>
      intro p passes count checked r h
      unfold searchEntries at h
      split at h
      · cases h
      · split at h
        · obtain ⟨⟨p', passes'⟩, hloop, hrest⟩ := Option.bind_eq_some_iff.mp h
          refine List.forall_mem_cons.mpr ⟨fun _ => ?_, ih hrest⟩
          exact walkedRun_of_ends hδ ⟨fuel, p, passes, _, hloop⟩
        · next hskip =>
            exact List.forall_mem_cons.mpr ⟨fun hchecks => absurd hchecks.2 hskip, ih h⟩

/-- **The search ends if all points it comes to are sound: a satellite that is up there was not up some steps before,
one that is found sets, and the second look finds it again. If it ends then it has walked to the end from all of its
points. With steps of whole seconds these are the same.** -/
theorem findPasses_ends (hδ : 0 < δ) (now start : ℚ) (c : Criteria) (reverseOrder findAll : Bool) :
    (∀ sat objectName p,
      ((c.altitudeOk (sat start) = true → SoundRun sat now start (start + c.maxMinutes / 1440) δ c findAll 0) →
        ∃ fuel r, findPassesOem sat now fuel objectName p start δ c reverseOrder findAll = some r) ∧
      ((∃ fuel r, findPassesOem sat now fuel objectName p start δ c reverseOrder findAll = some r) →
        c.altitudeOk (sat start) = true → WalkedRun sat now start (start + c.maxMinutes / 1440) δ c findAll 0)) ∧
    (∀ entries p,
      ((∀ e ∈ entries, c.checks start e →
          SoundRun e.sat now start (start + c.maxMinutes / 1440) δ c findAll (startOffset start e.julEpoch)) →
        ∃ fuel r, findPassesTle now fuel entries p start δ c reverseOrder findAll = some r) ∧
      ((∃ fuel r, findPassesTle now fuel entries p start δ c reverseOrder findAll = some (some r)) →
        ∀ e ∈ entries, c.checks start e →
          WalkedRun e.sat now start (start + c.maxMinutes / 1440) δ c findAll (startOffset start e.julEpoch))) ∧
    (0 < start → (δ ≤ 1 / 60 ∨ ∃ n : ℕ, δ = n / 60) → ∀ sat stop off₀, 0 ≤ off₀ →
      (SoundRun sat now start stop δ c findAll off₀ ↔ WalkedRun sat now start stop δ c findAll off₀)) := by
  refine ⟨fun sat objectName p => ⟨fun hsound => ?_, ?_⟩, fun entries p => ⟨fun hsound => ?_, ?_⟩,
    fun hpos hstep sat stop off₀ hoff => soundRun_iff hδ hstep (by linarith)⟩
  · by_cases halt : c.altitudeOk (sat start) = true
    · obtain ⟨fuel, r, hr⟩ := searchLoop_ends hδ (hsound halt)
        (if objectName = [] then text "UNKNOWN" else objectName) p []
      refine ⟨fuel, (sortPasses reverseOrder r.2, 1), ?_⟩
      unfold findPassesOem
      dsimp only
      rw [if_pos halt, hr]
      rfl
    · exact ⟨0, _, if_neg halt⟩
  · rintro ⟨fuel, r, h⟩ halt
    unfold findPassesOem at h
    dsimp only at h
    rw [if_pos halt] at h
    obtain ⟨r', hr', -⟩ := Option.bind_eq_some_iff.mp h
    exact walkedRun_of_ends hδ ⟨fuel, p, [], r', hr'⟩
  · obtain ⟨fuel, r, hr⟩ := searchEntries_ends hδ entries p [] 0 0 hsound
    exact ⟨fuel, _, congrArg (Option.map _) hr⟩
  · rintro ⟨fuel, r, h⟩
    obtain ⟨r', hr', hmap⟩ := Option.map_eq_some_iff.mp h
    cases r' with
    | none => cases hmap
    | some r' => exact walkedRun_of_searchEntries hδ entries hr'

/-- A satellite that never rises is searched to the end of the window. -/
theorem findPasses_ends_never : ∃ fuel r, findPassesOem (fun _ => ⟨-45, 500, 0⟩) 0 fuel []
    ⟨0, 0, 0, 0, 0, 0, 0, 0, 0, 0⟩ 2460000 1 ⟨0, 1000, 1440, -90, 90, none, true, none⟩ false true = some r := by
  refine ((findPasses_ends (by norm_num) 0 2460000 _ false true).1 _ _ _).1 fun _ off _ => ⟨?_, ?_, ?_⟩
  · intro hup
    norm_num at hup
  · rintro m ⟨t, ⟨-, ⟨k, -, hup, -⟩, -, -⟩, -⟩
    norm_num at hup
  · rintro m ⟨t, ⟨-, ⟨k, -, hup, -⟩, -, -⟩, -⟩
    norm_num at hup

/-- The search for a satellite that stands above the station never ends. -/
theorem findPasses_stationary : ¬ ∃ fuel p r, findPassesOem (fun _ => ⟨45, 35786, 180⟩) 0 fuel [] p 2460000 1
    ⟨0, 50000, 1440, -90, 90, none, true, none⟩ false true = some r := by
  rintro ⟨fuel, p, r, h⟩
  unfold findPassesOem at h
  dsimp only at h
  rw [if_pos (by decide +kernel)] at h
  obtain ⟨r', hr', -⟩ := Option.bind_eq_some_iff.mp h
  have hends := walkedRun_of_ends (by norm_num) ⟨fuel, p, [], r', hr'⟩
  have hback := (hends 0 .refl).1
  obtain ⟨k, hk⟩ := hback (by norm_num) (by rw [origin]; norm_num)
  norm_num at hk

end

end SimpleSatOps.PassSearch
