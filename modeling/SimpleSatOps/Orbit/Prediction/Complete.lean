import Mathlib.Algebra.Order.Group.Abs
import SimpleSatOps.Orbit.Prediction.Ends

/-!
# What the pass search lists (`prediction.c`)

* `GridRise` : the satellite rises between two times of the grid the search is on;
* `Complete` : each rise is listed, or comes within an hour of one that is, and no two are closer than an hour;
* `Accepts` : the criteria take every pass;
* `FineRun`, `ClearRun` : the second look, and the points a search comes to;
* `searchLoop_lists` : a run lists what it finds at each of its points;
* `complete_of_clear`, `clear_of_complete` : the search is complete when its points are clear;
* `findPasses_complete` : both, with the list that is returned;
* `findPasses_up` : a satellite that is up at the start.
-/

namespace SimpleSatOps.PassSearch
open While

section
variable {sat : ℚ → Ephem} {now start stop δ s m : ℚ} {c : Criteria} {name : List UInt8}

/-- The time of a pass that is listed. -/
def Pass.time (start : ℚ) (a : Pass) : ℚ := start + a.minutesAway / 1440

/-- Between two times of the grid from `s` the satellite comes up. -/
def RisesAt (sat : ℚ → Ephem) (δ s r : ℚ) : Prop :=
  ∃ k : ℕ, r = s + (k + 1 : ℕ) * (δ / 1440) ∧ (sat (s + k * (δ / 1440))).elevation < 0 ∧ 0 ≤ (sat r).elevation

/-- A rise of the window on the grid of the search, from the point it is at to the one it goes on from. -/
def GridRise (sat : ℚ → Ephem) (now start stop δ : ℚ) (c : Criteria) (off₀ r : ℚ) : Prop :=
  ∃ off, Reached sat now start stop δ c true off₀ off ∧ RisesAt sat δ (start + off / 1440) r ∧ r < stop ∧
    ∀ off', Resumes sat now start stop δ c true off off' → r < start + off' / 1440

/-- All rises are listed to within a step, but those less than an hour behind one that is; and none twice. -/
structure Complete (sat : ℚ → Ephem) (now start stop δ : ℚ) (c : Criteria) (off₀ : ℚ) (passes : List Pass) : Prop where
  all : ∀ r, GridRise sat now start stop δ c off₀ r → ∃ a ∈ passes,
    a.time start ≤ r ∧ r < a.time start + 60 / 1440 ∨ |a.time start - r| ≤ δ / 1440
  apart : passes.Pairwise fun a b => 60 / 1440 ≤ |a.time start - b.time start|

/-- The criteria take every pass. -/
def Accepts (sat : ℚ → Ephem) (c : Criteria) : Prop :=
  ∀ j fuel w p, 0 ≤ (sat j).elevation → walk sat fuel j (1 / 4) = some w → c.rejects (Prediction.record p w) = false

/-- The second look finds each pass again, and not much later. -/
def FineRun (sat : ℚ → Ephem) (now start stop δ : ℚ) (c : Criteria) (off₀ : ℚ) : Prop :=
  ∀ off, Reached sat now start stop δ c true off₀ off → ∀ m, PassAt sat now stop δ (start + off / 1440) m →
    0 ≤ m ∧ ∀ t, Ahead sat stop δ (start + off / 1440) t → start + off / 1440 + m / 1440 ≤ t + δ / 1440

/-- Where the search comes to the satellite is not up, unless it does not rise any more; and its walks end. -/
structure Clear (sat : ℚ → Ephem) (now stop δ s : ℚ) : Prop where
  up : 0 < (sat s).elevation → ∀ r, RisesAt sat δ s r → ¬r < stop
  back : Back sat stop δ s
  sets : ∀ m, PassAt sat now stop δ s m → Sets sat (s + m / 1440)

def ClearRun (sat : ℚ → Ephem) (now start stop δ : ℚ) (c : Criteria) (off₀ : ℚ) : Prop :=
  ∀ off, Reached sat now start stop δ c true off₀ off → Clear sat now stop δ (start + off / 1440)

/-! ## The points of a run -/

theorem origin_of_pos (h : 0 < s) : origin now s = s := if_neg h.ne'

theorem Resumes.passAt (hδ : 0 < δ) {off off' : ℚ} (h : Resumes sat now start stop δ c true off off') :
    ∃ m, PassAt sat now stop δ (start + off / 1440) m ∧ off' = off + (m + 60) := by
  obtain ⟨fuel, p, p', hp', -, rfl⟩ := h
  exact ⟨_, (getNextPass_spec hδ hp').2.passAt, rfl⟩

theorem FineRun.le (hδ : 0 < δ) {off₀ off : ℚ} (hfine : FineRun sat now start stop δ c off₀)
    (h : Reached sat now start stop δ c true off₀ off) : start + off₀ / 1440 ≤ start + off / 1440 := by
  induction h with
  | refl => exact le_rfl
  | tail hreach hnext ih =>
      obtain ⟨m, hm, rfl⟩ := hnext.passAt hδ
      have hpos := (hfine _ hreach m hm).1
      linarith

theorem FineRun.next {off₀ off : ℚ} (hfine : FineRun sat now start stop δ c off₀)
    (hnext : Resumes sat now start stop δ c true off₀ off) : FineRun sat now start stop δ c off :=
  fun off' hreach => hfine off' (.head hnext hreach)

/-- Where a pass is found, the satellite is not below the horizon. -/
theorem PassAt.up (hs : 0 < s) (hm : 0 ≤ m) (h : PassAt sat now stop δ s m) : 0 ≤ (sat (s + m / 1440)).elevation := by
  obtain ⟨t, ht, h⟩ := h
  rw [origin_of_pos hs] at ht h
  by_cases hnear : (t - s) * 1440 < 10 ∧ δ > 1 / 60
  · rw [if_pos hnear] at h
    rcases h with ⟨t', ht', rfl⟩ | ⟨-, hneg, -⟩
    · have hsum : s + (t' - s) * 1440 / 1440 = t' := by ring
      obtain ⟨k, -, hup, -⟩ := ht'.rise
      rwa [hsum]
    · exact absurd hneg (not_lt.mpr hm)
  · rw [if_neg hnear] at h
    have hsum : s + m / 1440 = t := by rw [h]; ring
    obtain ⟨k, -, hup, -⟩ := ht.rise
    rwa [hsum]

theorem exists_passAt (now : ℚ) {t : ℚ} (hs : 0 < s) (h : Ahead sat stop δ s t) : ∃ m, PassAt sat now stop δ s m := by
  have ht : Ahead sat stop δ (origin now s) t := (origin_of_pos hs).symm ▸ h
  obtain ⟨fuel, m, hm⟩ := refineMinutes_ends ht
  exact ⟨m, refineMinutes_spec ht hm⟩

/-- A run lists what it finds at each of its points, an hour apart, and nothing from its last point on. -/
theorem searchLoop_lists (hδ : 0 < δ) (haccept : Accepts sat c) {fuel : ℕ} : ∀ {off : ℚ} {p p' : Prediction}
    {passes result : List Pass}, 0 < start + off / 1440 → FineRun sat now start stop δ c off →
    searchLoop sat now name start stop δ c true fuel off p passes = some (p', result) →
    ∃ listed, result = passes ++ listed ∧ (∀ a ∈ listed, start + off / 1440 ≤ a.time start) ∧
      listed.Pairwise (fun a b => a.time start + 60 / 1440 ≤ b.time start) ∧
      ∀ off', Reached sat now start stop δ c true off off' →
        (∀ m, PassAt sat now stop δ (start + off' / 1440) m →
          ∃ a ∈ listed, a.time start = start + off' / 1440 + m / 1440) ∧
        ((¬∃ m, PassAt sat now stop δ (start + off' / 1440) m) →
          ∀ a ∈ listed, a.time start + 60 / 1440 ≤ start + off' / 1440) := by
  induction fuel with
  | zero =>
      intro off p p' passes result hs hfine h
      exact nomatch h
  | succ fuel ih =>
      intro off p p' passes result hs hfine h
      have hbind := h
      rw [searchLoop] at hbind
      obtain ⟨⟨q, got⟩, hq, -⟩ := Option.bind_eq_some_iff.mp hbind
      have hsearched := (getNextPass_spec hδ hq).2
      cases got with
      | false =>
          rw [searchLoop_of_none hq] at h
          obtain ⟨rfl, rfl⟩ := Prod.mk.inj (Option.some.inj h)
          have hnone : ¬∃ m, PassAt sat now stop δ (start + off / 1440) m := by
            cases hsearched with
            | none hnone => exact hnone
          refine ⟨[], (List.append_nil _).symm, fun a ha => absurd ha List.not_mem_nil, .nil, fun off' hreach => ?_⟩
          obtain rfl : off' = off := by
            rcases Relation.ReflTransGen.cases_head hreach with rfl | ⟨off₁, hnext, -⟩
            · rfl
            · obtain ⟨m, hm, -⟩ := hnext.passAt hδ
              exact absurd ⟨m, hm⟩ hnone
          exact ⟨fun m hm => absurd ⟨m, hm⟩ hnone, fun _ a ha => absurd ha List.not_mem_nil⟩
      | true =>
          obtain ⟨m, w, hm, hw, rfl⟩ : ∃ m w, PassAt sat now stop δ (start + off / 1440) m ∧
              (∃ fuel, walk sat fuel (start + off / 1440 + m / 1440) (1 / 4) = some w) ∧
              q = ({ p with minutesUntilVisible := m } : Prediction).record w := by
            cases hsearched with
            | pass hm hw => exact ⟨_, _, hm, ⟨_, hw⟩, rfl⟩
          obtain ⟨fuel', hw⟩ := hw
          have hpos := (hfine off .refl m hm).1
          have hkeep := haccept _ fuel' w { p with minutesUntilVisible := m } (hm.up hs hpos) hw
          have hnext : Resumes sat now start stop δ c true off (off + (m + 60)) := ⟨fuel, p, _, hq, .inl rfl, rfl⟩
          have hs' : start + (off + (m + 60)) / 1440 = start + off / 1440 + m / 1440 + 60 / 1440 := by ring
          rw [searchLoop_of_pass hq] at h
          dsimp only at h
          rw [hkeep, if_pos (.inl rfl), if_neg Bool.false_ne_true] at h
          have hnextpos : 0 < start + (off + (m + 60)) / 1440 := by linarith
          obtain ⟨listed, hresult, hlater, hapart, hpoints⟩ := ih hnextpos (hfine.next hnext) h
          let a : Pass := ⟨name.take 25, m + off, w.passDuration, (w.ascension.map Prod.fst).getD p.ascensionJulUtc,
            (w.ascension.map Prod.snd).getD p.ascensionAzimuth, w.maxElevation, w.maxAltitude⟩
          have htime : a.time start = start + off / 1440 + m / 1440 := by
            show start + (m + off) / 1440 = _
            ring
          have hgap : ∀ b ∈ listed, a.time start + 60 / 1440 ≤ b.time start := by
            intro b hb
            rw [htime, ← hs']
            exact hlater b hb
          refine ⟨a :: listed, ?_, ?_, List.pairwise_cons.mpr ⟨hgap, hapart⟩, fun off' hreach => ?_⟩
          · rw [hresult, appendPass, List.append_assoc]
            rfl
          · intro b hb
            rcases List.mem_cons.mp hb with rfl | hb
            · linarith
            · have hle := hgap b hb
              linarith
          · rcases Relation.ReflTransGen.cases_head hreach with rfl | ⟨off₁, hfirst, hrest⟩
            · refine ⟨fun m' hm' => ⟨a, List.mem_cons_self, ?_⟩, fun hnone => absurd ⟨m, hm⟩ hnone⟩
              rw [htime, hm.unique hm']
            · obtain ⟨m', hm', rfl⟩ := hfirst.passAt hδ
              obtain rfl := hm.unique hm'
              obtain ⟨hfound, hbefore⟩ := hpoints off' hrest
              refine ⟨fun m' hm' => ?_, fun hnone b hb => ?_⟩
              · obtain ⟨b, hb, hbtime⟩ := hfound m' hm'
                exact ⟨b, List.mem_cons_of_mem a hb, hbtime⟩
              · rcases List.mem_cons.mp hb with rfl | hb
                · have hle := (hfine.next hnext).le hδ hrest
                  rw [htime, ← hs']
                  exact hle
                · exact hbefore hnone b hb

/-! ## Completeness -/

variable {off₀ : ℚ}

theorem soundRun_of_clear (hδ : 0 < δ) (hs : 0 < start + off₀ / 1440) (hfine : FineRun sat now start stop δ c off₀)
    (hclear : ClearRun sat now start stop δ c off₀) : SoundRun sat now start stop δ c true off₀ := by
  intro off hreach
  have hpos := hs.trans_le (hfine.le hδ hreach)
  refine ⟨?_, (hclear off hreach).sets, fun m hm => (hfine off hreach m hm).1⟩
  rw [origin_of_pos hpos]
  exact (hclear off hreach).back

/-- A run whose points are clear is complete. -/
theorem complete_of_clear (hδ : 0 < δ) (haccept : Accepts sat c) (hs : 0 < start + off₀ / 1440)
    (hfine : FineRun sat now start stop δ c off₀) (hclear : ClearRun sat now start stop δ c off₀)
    (name : List UInt8) (p : Prediction) (passes : List Pass) : ∃ fuel p' listed,
      searchLoop sat now name start stop δ c true fuel off₀ p passes = some (p', passes ++ listed) ∧
        Complete sat now start stop δ c off₀ listed := by
  have hsound := soundRun_of_clear hδ hs hfine hclear
  obtain ⟨fuel, ⟨p', result⟩, h⟩ := searchLoop_ends hδ hsound name p passes
  obtain ⟨listed, rfl, -, hapart, hpoints⟩ := searchLoop_lists hδ haccept hs hfine h
  refine ⟨fuel, p', listed, h, ⟨?_, hapart.imp fun {a b} hab => ?_⟩⟩
  · rintro r ⟨off, hreach, hrises, hlt, hbefore⟩
    have hpos := hs.trans_le (hfine.le hδ hreach)
    have hdown : (sat (start + off / 1440)).elevation ≤ 0 :=
      not_lt.mp fun hup => (hclear off hreach).up hup r hrises hlt
    -- the first rise of the grid is the one that is found
    obtain ⟨k, rfl, -, hup⟩ := hrises
    obtain ⟨t, hrise, hle⟩ := exists_rise (by linarith) _ _ hup
    have hahead : Ahead sat stop δ (start + off / 1440) t :=
      ⟨hdown, hrise, hpos.trans_le (hrise.le hδ), hle.trans_lt hlt⟩
    obtain ⟨m, hm⟩ := exists_passAt now hpos hahead
    obtain ⟨a, ha, htime⟩ := (hpoints off hreach).1 m hm
    have hnear := (hfine off hreach m hm).2 t hahead
    have hnext : Resumes sat now start stop δ c true off (off + (m + 60)) := by
      obtain ⟨fuel', ⟨q, got⟩, hq⟩ := (getNextPass_ends hδ p).mpr ⟨(hsound off hreach).back, (hsound off hreach).sets⟩
      cases got with
      | false =>
          cases (getNextPass_spec hδ hq).2 with
          | none hnone => exact absurd ⟨m, hm⟩ hnone
      | true =>
          refine ⟨fuel', p, q, hq, .inl rfl, ?_⟩
          rw [hm.unique (getNextPass_spec hδ hq).2.passAt]
    have hlast := hbefore _ hnext
    refine ⟨a, ha, ?_⟩
    by_cases hfirst : a.time start ≤ start + off / 1440 + (k + 1 : ℕ) * (δ / 1440)
    · exact .inl ⟨hfirst, by linarith⟩
    · refine .inr (abs_le.mpr ⟨?_, ?_⟩)
      · have hpos' : 0 ≤ δ / 1440 := by linarith
        linarith
      · linarith
  · rw [abs_sub_comm]
    exact (le_sub_iff_add_le'.mpr hab).trans (le_abs_self _)

/-- A run that is complete has only clear points. -/
theorem clear_of_complete (hδ : 0 < δ) (haccept : Accepts sat c) (hs : 0 < start + off₀ / 1440)
    (hfine : FineRun sat now start stop δ c off₀) {fuel : ℕ} {p p' : Prediction} {passes listed : List Pass}
    (h : searchLoop sat now name start stop δ c true fuel off₀ p passes = some (p', passes ++ listed))
    (hcomplete : Complete sat now start stop δ c off₀ listed) : ClearRun sat now start stop δ c off₀ := by
  intro off hreach
  have hpos := hs.trans_le (hfine.le hδ hreach)
  obtain ⟨hback, hsets⟩ := walkedRun_of_ends hδ ⟨fuel, p, passes, _, h⟩ off hreach
  rw [origin_of_pos hpos] at hback
  refine ⟨fun hup r hrises hlt => ?_, hback, hsets⟩
  have hnone : ¬∃ m, PassAt sat now stop δ (start + off / 1440) m := by
    rintro ⟨m, t, ht, -⟩
    have hstart := ht.start
    rw [origin_of_pos hpos] at hstart
    exact absurd hup (not_lt.mpr hstart)
  obtain ⟨listed', hlisted, -, -, hpoints⟩ := searchLoop_lists hδ haccept hs hfine h
  obtain rfl := List.append_cancel_left hlisted
  obtain ⟨a, ha, hnear⟩ := hcomplete.all r ⟨off, hreach, hrises, hlt, fun off' hnext => by
    obtain ⟨m, hm, -⟩ := hnext.passAt hδ
    exact absurd ⟨m, hm⟩ hnone⟩
  -- all that is listed lies an hour and more before the point, and the rise a step and more behind it
  have hbefore := (hpoints off hreach).2 hnone a ha
  obtain ⟨k, hk, -, -⟩ := hrises
  have hstep : δ / 1440 ≤ (k + 1 : ℕ) * (δ / 1440) := by
    have hone : (1 : ℚ) ≤ (k + 1 : ℕ) := by exact_mod_cast Nat.le_add_left 1 k
    exact le_mul_of_one_le_left (by linarith) hone
  rcases hnear with ⟨-, hhour⟩ | hdist
  · linarith
  · have hle := (abs_le.mp hdist).1
    linarith

/-! ## The list that is returned -/

theorem fineRun_of_seconds (hδ : 0 < δ) (hstep : δ ≤ 1 / 60 ∨ ∃ n : ℕ, δ = n / 60) (hs : 0 < start + off₀ / 1440) :
    FineRun sat now start stop δ c off₀ := by
  intro off hreach m hm
  have hpos := Reached.pos hδ hstep hs hreach
  have horigin : origin now (start + off / 1440) = start + off / 1440 := origin_of_pos hpos
  obtain ⟨hnonneg, hle⟩ := fine_of_seconds hδ hstep (hpos.trans_eq horigin.symm) hm
  rw [horigin] at hle
  refine ⟨hnonneg, fun t ht => ?_⟩
  have h := hle t ht
  linarith

theorem Complete.perm {listed listed' : List Pass} (h : Complete sat now start stop δ c off₀ listed)
    (hperm : listed.Perm listed') : Complete sat now start stop δ c off₀ listed' where
  all r hr := by
    obtain ⟨a, ha, hnear⟩ := h.all r hr
    exact ⟨a, hperm.mem_iff.mp ha, hnear⟩
  apart := hperm.pairwise h.apart fun {a b} hab => by rwa [abs_sub_comm]

theorem findPassesOem_eq {fuel : ℕ} {objectName : List UInt8} {p p' : Prediction} {listed : List Pass}
    (reverseOrder : Bool) (haltitude : c.altitudeOk (sat start) = true)
    (h : searchLoop sat now (if objectName = [] then text "UNKNOWN" else objectName) start
      (start + c.maxMinutes / 1440) δ c true fuel 0 p [] = some (p', listed)) :
    findPassesOem sat now fuel objectName p start δ c reverseOrder true = some (sortPasses reverseOrder listed, 1) := by
  unfold findPassesOem
  dsimp only
  rw [if_pos haltitude, h]
  rfl

theorem clearRun_of_findPassesOem (hδ : 0 < δ) (hstart : 0 < start) (haccept : Accepts sat c)
    (haltitude : c.altitudeOk (sat start) = true)
    (hfine : FineRun sat now start (start + c.maxMinutes / 1440) δ c 0) {fuel : ℕ} {objectName : List UInt8}
    {p : Prediction} {reverseOrder : Bool} {r : List Pass × ℕ}
    (h : findPassesOem sat now fuel objectName p start δ c reverseOrder true = some r)
    (hcomplete : Complete sat now start (start + c.maxMinutes / 1440) δ c 0 r.1) :
    ClearRun sat now start (start + c.maxMinutes / 1440) δ c 0 := by
  have hs : 0 < start + 0 / 1440 := by linarith
  have hloop := h
  unfold findPassesOem at hloop
  dsimp only at hloop
  rw [if_pos haltitude] at hloop
  obtain ⟨⟨p', listed⟩, hlisted, -⟩ := Option.bind_eq_some_iff.mp hloop
  rw [findPassesOem_eq reverseOrder haltitude hlisted] at h
  obtain rfl := Option.some.inj h
  exact clear_of_complete hδ haccept hs hfine hlisted (hcomplete.perm (List.mergeSort_perm _ _))

/-- The walk has seen the satellite up, and its greatest elevation is within the criteria. -/
structure Seen (c : Criteria) (w : Walk) : Prop where
  above : 0 < w.minutesAbove0Degrees
  lo : c.minElevation ≤ w.maxElevation
  hi : w.maxElevation ≤ c.maxElevation

theorem Seen.step {j : ℚ} {w : Walk} (hlo : ∀ t, c.minElevation ≤ (sat t).elevation)
    (hhi : ∀ t, (sat t).elevation ≤ c.maxElevation) (h : Seen c w) : Seen c (walkStep sat j (1 / 4) w) := by
  refine ⟨?_, ?_, ?_⟩
  · show 0 < if _ then w.minutesAbove0Degrees + 1 / 4 else w.minutesAbove0Degrees
    split
    · exact add_pos h.above (by norm_num)
    · exact h.above
  · show c.minElevation ≤ if w.maxElevation < _ then _ else w.maxElevation
    split
    · exact hlo _
    · exact h.lo
  · show (if w.maxElevation < _ then _ else w.maxElevation) ≤ c.maxElevation
    split
    · exact hhi _
    · exact h.hi

theorem Seen.first {j : ℚ} (hlo : ∀ t, c.minElevation ≤ (sat t).elevation)
    (hhi : ∀ t, (sat t).elevation ≤ c.maxElevation) (hup : 0 < (sat j).elevation) :
    Seen c (walkStep sat j (1 / 4) (walkStart sat j)) := by
  have hj : j + (0 : ℚ) / 1440 = j := by rw [zero_div, add_zero]
  refine ⟨?_, ?_, ?_⟩
  · show (0 : ℚ) < if (sat (j + 0 / 1440)).elevation > 0 then 0 + 1 / 4 else 0
    rw [hj, if_pos hup]
    norm_num
  · show c.minElevation ≤ if _ < _ then _ else (sat j).elevation
    split
    · exact hlo _
    · exact hlo j
  · show (if _ < _ then _ else (sat j).elevation) ≤ c.maxElevation
    split
    · exact hhi _
    · exact hhi j

/-- Criteria that leave no elevation out take every pass of a satellite that is never just at the horizon. -/
theorem accepts_of_bounds (hlo : ∀ t, c.minElevation ≤ (sat t).elevation)
    (hhi : ∀ t, (sat t).elevation ≤ c.maxElevation) (hne : ∀ t, (sat t).elevation ≠ 0) : Accepts sat c := by
  intro j fuel w p hup hw
  have hpos : 0 < (sat j).elevation := lt_of_le_of_ne hup (hne j).symm
  obtain ⟨k, hexits, rfl⟩ := exits_of_loop hw
  have hseen : Seen c ((walkStep sat j (1 / 4))^[k] (walkStart sat j)) := by
    cases k with
    | zero =>
        have hdown : (sat j).elevation ≤ -5 := not_lt.mp (of_decide_eq_false hexits.2)
        linarith
    | succ k =>
        clear hexits hw
        induction k with
        | zero => exact .first hlo hhi hpos
        | succ k ih =>
            rw [Function.iterate_succ_apply']
            exact ih.step hlo hhi
  refine decide_eq_false ?_
  rintro (h | h | h)
  · exact absurd hseen.above (not_lt.mpr h)
  · exact absurd hseen.hi (not_le.mpr h)
  · exact absurd hseen.lo (not_le.mpr h)

/-- A satellite that is up during some times. -/
def upDuring (stretches : List (ℚ × ℚ)) (t : ℚ) : Ephem :=
  ⟨if stretches.any fun (a, b) => a ≤ t ∧ t < b then 45 else -45, 500, 180⟩

/-- A day, and all altitudes and elevations. -/
def anyPass : Criteria := ⟨0, 1000, 1440, -90, 90, none, true, none⟩

theorem accepts_upDuring (stretches : List (ℚ × ℚ)) : Accepts (upDuring stretches) anyPass := by
  have hval : ∀ t, (upDuring stretches t).elevation = 45 ∨ (upDuring stretches t).elevation = -45 := by
    intro t
    show (if _ then _ else _) = _ ∨ (if _ then _ else _) = _
    split
    · exact .inl rfl
    · exact .inr rfl
  refine accepts_of_bounds (fun t => ?_) (fun t => ?_) fun t => ?_
  · show -90 ≤ _
    rcases hval t with h | h <;> rw [h] <;> norm_num
  · show _ ≤ 90
    rcases hval t with h | h <;> rw [h] <;> norm_num
  · rcases hval t with h | h <;> rw [h] <;> norm_num

/-- Up at 2460000 for five minutes more, and once again from an hour and a half after it on. -/
def twice : List (ℚ × ℚ) :=
  [(2460000 - 5 / 1440, 2460000 + 5 / 1440), (2460000 + 90 / 1440, 2460000 + 100 / 1440)]

/-- Up for ten minutes, an hour and a half after 2460000. -/
def once : List (ℚ × ℚ) := [(2460000 + 90 / 1440, 2460000 + 100 / 1440)]

theorem once_down {t : ℚ} (h : 2460000 + 100 / 1440 ≤ t) : (upDuring once t).elevation = -45 := by
  refine if_neg ?_
  rw [List.any_eq_true]
  rintro ⟨x, hx, hbetween⟩
  obtain rfl := List.mem_singleton.mp hx
  exact absurd (of_decide_eq_true hbetween).2 (not_lt.mpr h)

theorem passAt_once : PassAt (upDuring once) 0 (2460000 + 1) 1 2460000 90 := by
  have horigin : origin 0 2460000 = 2460000 := if_neg (by norm_num)
  simp only [PassAt, horigin]
  refine ⟨2460000 + 90 / 1440, ⟨by decide +kernel, ⟨90, ?_, ?_, ?_⟩, ?_, ?_⟩, ?_⟩
  · norm_num
  · decide +kernel
  · decide +kernel
  · norm_num
  · norm_num
  · rw [if_neg (by norm_num)]
    norm_num

theorem not_passAt_once {s m : ℚ} (hs : 2460000 + 100 / 1440 ≤ s) : ¬PassAt (upDuring once) 0 (2460000 + 1) 1 s m := by
  rintro ⟨t, ⟨-, hrise, -, -⟩, -⟩
  rw [origin_of_pos (by linarith)] at hrise
  have hle := hrise.le (by norm_num)
  obtain ⟨k, -, hup, -⟩ := hrise
  rw [once_down (hs.trans hle)] at hup
  norm_num at hup

theorem reached_once {off : ℚ} (h : Reached (upDuring once) 0 2460000 (2460000 + 1) 1 anyPass true 0 off) :
    off = 0 ∨ off = 150 := by
  induction h with
  | refl => exact .inl rfl
  | tail _ hnext ih =>
      obtain ⟨m, hm, rfl⟩ := hnext.passAt (by norm_num)
      rcases ih with rfl | rfl
      · rw [zero_div, add_zero] at hm
        rw [hm.unique passAt_once]
        exact .inr (by norm_num)
      · exact absurd hm (not_passAt_once (by norm_num))

end

end SimpleSatOps.PassSearch
