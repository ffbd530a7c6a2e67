import Mathlib.Order.Bounds.Basic
import Mathlib.Tactic
import SimpleSatOps.Basic

/-!
# The burst events of a capture (`rx_replay.c`, `burst.csv`)

* `Detector`, `flush`, `sample`, `drain`, `burstCsv` : the pass over the snapshots of a capture, and the rows it writes;
* `snapshots` : the snapshots of the capture, one for each chunk of it;
* `WellPaired` : what the rows say about the snapshots above the threshold;
* `Cluster`, `Good` : the snapshots of one event, and events that are right so far;
* `burstCsv_wellPaired` : the rows come in pairs, one for each group of snapshots.
-/

namespace SimpleSatOps.Burst

/-! ## The source -/

/-- A snapshot of the spectrogram: `t_ms`, `bins` and `excess`. -/
structure Snapshot (α : Type*) where
  tMs : ℤ
  bins : ℤ
  excess : α
deriving DecidableEq

/-- `burst_bins_threshold`, `burst_min_quiet` and `burst_merge_ms`. -/
structure Params where
  burstBinsThreshold : ℤ
  burstMinQuiet : ℤ
  burstMergeMs : ℤ

/-- The variables of the pass. -/
structure Detector (α : Type*) where
  inBurst : Bool
  quiet : ℤ
  peakBins : ℤ
  peakDb : α
  startMs : ℤ
  pendingEnd : Bool
  pendingEndMs : ℤ
  pendingPeakBins : ℤ
  pendingPeakDb : α
  pendingStartMs : ℤ

/-- A row of `burst.csv`. -/
inductive Row (α : Type*)
  | burstStart (tMs bins : ℤ) (excess : α)
  | burstEnd (tMs bins : ℤ) (db : α) (durationMs : ℤ)
deriving DecidableEq

variable {α : Type*}

/-- The end that is pending is written once its merge window is over. -/
def flush (p : Params) (tMs : ℤ) (d : Detector α) : Detector α × List (Row α) :=
  if d.pendingEnd = true ∧ d.inBurst = false ∧ p.burstMergeMs ≤ tMs - d.pendingEndMs then
    ({ d with pendingEnd := false },
      [.burstEnd d.pendingEndMs d.pendingPeakBins d.pendingPeakDb (d.pendingEndMs - d.pendingStartMs)])
  else (d, [])

section
variable [LinearOrder α]

/-- The peaks of a burst that goes on. -/
def accumulate (d : Detector α) (s : Snapshot α) : Detector α :=
  { d with
    peakBins := if d.peakBins < s.bins then s.bins else d.peakBins
    peakDb := if d.peakDb < s.excess then s.excess else d.peakDb
    quiet := 0 }

/-- A snapshot, with no end pending whose merge window is over. -/
def sample (p : Params) (d : Detector α) (s : Snapshot α) : Detector α × List (Row α) :=
  if p.burstBinsThreshold ≤ s.bins then
    if d.inBurst = false then
      if d.pendingEnd = true ∧ s.tMs - d.pendingEndMs < p.burstMergeMs then
        let d := { d with
          inBurst := true, startMs := d.pendingStartMs, peakBins := d.pendingPeakBins, peakDb := d.pendingPeakDb
          pendingEnd := false }
        (accumulate d s, [])
      else
        ({ d with
          inBurst := true, startMs := s.tMs, peakBins := s.bins, peakDb := s.excess, quiet := 0
          pendingStartMs := s.tMs }, [.burstStart s.tMs s.bins s.excess])
    else (accumulate d s, [])
  else if d.inBurst = true then
    let d := { d with quiet := d.quiet + 1 }
    if p.burstMinQuiet ≤ d.quiet then
      ({ d with
        pendingEnd := true, pendingEndMs := s.tMs, pendingPeakBins := d.peakBins, pendingPeakDb := d.peakDb
        inBurst := false }, [])
    else (d, [])
  else (d, [])

/-- One round of the loop. -/
def step (p : Params) (d : Detector α) (s : Snapshot α) : Detector α × List (Row α) :=
  let (d, ended) := flush p s.tMs d
  let (d, started) := sample p d s
  (d, ended ++ started)

/-- The loop, and the rows it writes. -/
def loop (p : Params) (d : Detector α) : List (Snapshot α) → Detector α × List (Row α)
  | [] => (d, [])
  | s :: rest =>
    let (d, rows) := step p d s
    let (d, more) := loop p d rest
    (d, rows ++ more)

end

/-- The end of the file. -/
def drain (fileEndMs : ℤ) (d : Detector α) : List (Row α) :=
  if d.inBurst = true then [.burstEnd fileEndMs d.peakBins d.peakDb (fileEndMs - d.startMs)]
  else if d.pendingEnd = true then
    [.burstEnd d.pendingEndMs d.pendingPeakBins d.pendingPeakDb (d.pendingEndMs - d.pendingStartMs)]
  else []

/-- `file_end_ms`: the last snapshot ends with the file. -/
def fileEndMs (snaps : List (Snapshot α)) : ℤ := (snaps.getLast?.map Snapshot.tMs).getD 0

/-- The rows below the header. -/
def burstCsv [LinearOrder α] [Zero α] (p : Params) (snaps : List (Snapshot α)) : List (Row α) :=
  let (d, rows) := loop p ⟨false, 0, 0, 0, 0, false, 0, 0, 0, 0⟩ snaps
  rows ++ drain (fileEndMs snaps) d

/-- `BURST_NFFT` -/
def burstNfft : ℕ := 512

/-- The snapshots of `nPairs` samples: `iq_burst_push` of one chunk after the other, `stamp n` the time behind `n`
samples. -/
def snapshots (stamp : ℕ → ℤ) (nPairs : ℕ) (pushed : ℕ → ℤ × α) : List (Snapshot α) :=
  tab ((nPairs + burstNfft - 1) / burstNfft) fun i =>
    let off := i * burstNfft
    let take := min (nPairs - off) burstNfft
    ⟨stamp (off + take), (pushed i).1, (pushed i).2⟩

/-! ## The statement -/

/-- A start row and the end row behind it. -/
structure Group (α : Type*) where
  startMs : ℤ
  startBins : ℤ
  startExcess : α
  endMs : ℤ
  peakBins : ℤ
  peakDb : α
  durationMs : ℤ

def Group.rows (g : Group α) : List (Row α) :=
  [.burstStart g.startMs g.startBins g.startExcess, .burstEnd g.endMs g.peakBins g.peakDb g.durationMs]

/-- The snapshot is one of a burst. -/
def Above (p : Params) (s : Snapshot α) : Prop := p.burstBinsThreshold ≤ s.bins

/-- The snapshot falls inside the group. -/
def Group.Holds (g : Group α) (s : Snapshot α) : Prop := g.startMs ≤ s.tMs ∧ s.tMs ≤ g.endMs

/-- The groups are those of the snapshots above the threshold. -/
structure WellPaired [LinearOrder α] (p : Params) (snaps : List (Snapshot α)) (groups : List (Group α)) : Prop where
  ordered : ∀ g ∈ groups, g.startMs ≤ g.endMs ∧ g.durationMs = g.endMs - g.startMs
  opened : ∀ g ∈ groups, ∃ s ∈ snaps, Above p s ∧ s = ⟨g.startMs, g.startBins, g.startExcess⟩
  peakBins : ∀ g ∈ groups, IsGreatest {b | ∃ s ∈ snaps, Above p s ∧ g.Holds s ∧ s.bins = b} g.peakBins
  peakDb : ∀ g ∈ groups, IsGreatest {x | ∃ s ∈ snaps, Above p s ∧ g.Holds s ∧ s.excess = x} g.peakDb
  covered : ∀ s ∈ snaps, Above p s → ∃! g, g ∈ groups ∧ g.Holds s
  apart : groups.Pairwise fun g g' => g.endMs + p.burstMergeMs ≤ g'.startMs

/-! ## Clusters -/

/-- The snapshots of one event, and its end. -/
structure Cluster (α : Type*) where
  first : Snapshot α
  rest : List (Snapshot α)
  endMs : ℤ

/-- What the comparisons leave of a quantity. -/
def peak {β : Type*} [LinearOrder β] (f : Snapshot α → β) (first : Snapshot α) (rest : List (Snapshot α)) : β :=
  rest.foldl (fun m s => if m < f s then f s else m) (f first)

namespace Cluster

def members (c : Cluster α) : List (Snapshot α) := c.first :: c.rest

/-- The rows of the event. -/
def group [LinearOrder α] (c : Cluster α) : Group α where
  startMs := c.first.tMs
  startBins := c.first.bins
  startExcess := c.first.excess
  endMs := c.endMs
  peakBins := peak Snapshot.bins c.first c.rest
  peakDb := peak Snapshot.excess c.first c.rest
  durationMs := c.endMs - c.first.tMs

end Cluster

theorem peak_concat {β : Type*} [LinearOrder β] (f : Snapshot α → β) (first s : Snapshot α) (rest : List (Snapshot α)) :
    peak f first (rest ++ [s]) = if peak f first rest < f s then f s else peak f first rest := by
  rw [peak, List.foldl_append]
  rfl

theorem isGreatest_peak {β : Type*} [LinearOrder β] (f : Snapshot α → β) (first : Snapshot α)
    (rest : List (Snapshot α)) : IsGreatest {b | ∃ s ∈ first :: rest, f s = b} (peak f first rest) := by
  induction rest using List.reverseRecOn with
  | nil =>
      refine ⟨⟨first, List.mem_cons_self, rfl⟩, ?_⟩
      rintro _ ⟨s, hs, rfl⟩
      exact (List.mem_singleton.mp hs ▸ le_rfl : f s ≤ f first)
  | append_singleton rest s ih =>
      obtain ⟨⟨top, htop, htopeq⟩, hbound⟩ := ih
      have hold : ∀ u ∈ first :: rest, f u ≤ peak f first rest := fun u hu => hbound ⟨u, hu, rfl⟩
      rw [peak_concat, ← List.cons_append]
      constructor
      · split_ifs
        · exact ⟨s, List.mem_append_right _ (List.mem_singleton_self s), rfl⟩
        · exact ⟨top, List.mem_append_left _ htop, htopeq⟩
      · rintro _ ⟨u, hu, rfl⟩
        rcases List.mem_append.mp hu with hu | hu
        · split_ifs with hlt
          · exact (hold u hu).trans hlt.le
          · exact hold u hu
        · obtain rfl := List.mem_singleton.mp hu
          split_ifs with hlt
          · exact le_rfl
          · exact not_lt.mp hlt

/-- The clusters are right for the snapshots seen so far. -/
structure Good (p : Params) (seen : List (Snapshot α)) (cs : List (Cluster α)) : Prop where
  members : ∀ c ∈ cs, ∀ s ∈ c.members, s ∈ seen ∧ Above p s ∧ c.first.tMs ≤ s.tMs ∧ s.tMs ≤ c.endMs
  apart : cs.Pairwise fun c c' => c.endMs + p.burstMergeMs ≤ c'.first.tMs
  cover : ∀ s ∈ seen, Above p s → ∃ c ∈ cs, s ∈ c.members

namespace Good
variable {p : Params} {seen : List (Snapshot α)} {cs : List (Cluster α)} {c : Cluster α} {s : Snapshot α}

theorem skip (h : Good p seen cs) (hs : ¬ Above p s) : Good p (seen ++ [s]) cs where
  members c hc u hu := by
    obtain ⟨hseen, hrest⟩ := h.members c hc u hu
    exact ⟨List.mem_append_left _ hseen, hrest⟩
  apart := h.apart
  cover u hu habove := by
    rcases List.mem_append.mp hu with hu | hu
    · exact h.cover u hu habove
    · exact absurd (List.mem_singleton.mp hu ▸ habove) hs

/-- A cluster begins. -/
theorem begin (h : Good p seen cs) (hs : Above p s) (hover : ∀ c ∈ cs, c.endMs + p.burstMergeMs ≤ s.tMs) {endMs : ℤ}
    (hend : s.tMs ≤ endMs) : Good p (seen ++ [s]) (cs ++ [⟨s, [], endMs⟩]) where
  members c hc u hu := by
    rcases List.mem_append.mp hc with hc | hc
    · obtain ⟨hseen, hrest⟩ := h.members c hc u hu
      exact ⟨List.mem_append_left _ hseen, hrest⟩
    · obtain rfl := List.mem_singleton.mp hc
      obtain rfl : u = s := List.mem_singleton.mp hu
      exact ⟨List.mem_append_right _ hu, hs, le_rfl, hend⟩
  apart := by
    rw [List.pairwise_append]
    refine ⟨h.apart, List.pairwise_singleton _ _, fun c hc c' hc' => ?_⟩
    obtain rfl := List.mem_singleton.mp hc'
    exact hover c hc
  cover u hu habove := by
    rcases List.mem_append.mp hu with hu | hu
    · obtain ⟨c, hc, hmem⟩ := h.cover u hu habove
      exact ⟨c, List.mem_append_left _ hc, hmem⟩
    · exact ⟨_, List.mem_append_right _ (List.mem_singleton_self _), hu⟩

/-- The last cluster goes on. -/
theorem extend (h : Good p seen (cs ++ [c])) (hs : Above p s) (hfirst : c.first.tMs ≤ s.tMs) {endMs : ℤ}
    (hend : ∀ u ∈ seen ++ [s], u.tMs ≤ endMs) :
    Good p (seen ++ [s]) (cs ++ [⟨c.first, c.rest ++ [s], endMs⟩]) where
  members c' hc' u hu := by
    rcases List.mem_append.mp hc' with hc' | hc'
    · obtain ⟨hseen, hrest⟩ := h.members c' (List.mem_append_left _ hc') u hu
      exact ⟨List.mem_append_left _ hseen, hrest⟩
    · obtain rfl := List.mem_singleton.mp hc'
      rw [Cluster.members, ← List.cons_append] at hu
      rcases List.mem_append.mp hu with hu | hu
      · obtain ⟨hseen, habove, hle, -⟩ := h.members c (List.mem_append_right _ (List.mem_singleton_self c)) u hu
        have hmem := List.mem_append_left [s] hseen
        exact ⟨hmem, habove, hle, hend u hmem⟩
      · obtain rfl := List.mem_singleton.mp hu
        exact ⟨List.mem_append_right _ hu, hs, hfirst, hend _ (List.mem_append_right _ hu)⟩
  apart := by
    have hapart := h.apart
    rw [List.pairwise_append] at hapart ⊢
    refine ⟨hapart.1, List.pairwise_singleton _ _, fun c' hc' c'' hc'' => ?_⟩
    obtain rfl := List.mem_singleton.mp hc''
    exact hapart.2.2 c' hc' c (List.mem_singleton_self c)
  cover u hu habove := by
    rcases List.mem_append.mp hu with hu | hu
    · obtain ⟨c', hc', hmem⟩ := h.cover u hu habove
      rcases List.mem_append.mp hc' with hc' | hc'
      · exact ⟨c', List.mem_append_left _ hc', hmem⟩
      · obtain rfl := List.mem_singleton.mp hc'
        refine ⟨_, List.mem_append_right _ (List.mem_singleton_self _), ?_⟩
        rw [Cluster.members, ← List.cons_append]
        exact List.mem_append_left _ hmem
    · refine ⟨_, List.mem_append_right _ (List.mem_singleton_self _), ?_⟩
      rw [Cluster.members, ← List.cons_append]
      exact List.mem_append_right _ hu

theorem first_mem (h : Good p seen cs) (hc : c ∈ cs) : c.first ∈ seen ∧ Above p c.first ∧ c.first.tMs ≤ c.endMs := by
  obtain ⟨hseen, habove, -, hle⟩ := h.members c hc c.first List.mem_cons_self
  exact ⟨hseen, habove, hle⟩

variable [LinearOrder α]

/-- Two clusters that a snapshot falls inside are one. -/
theorem eq_of_holds (h : Good p seen cs) (hmerge : 0 < p.burstMergeMs) {c' : Cluster α} (hc : c ∈ cs) (hc' : c' ∈ cs)
    (hs : c.group.Holds s) (hs' : c'.group.Holds s) : c = c' := by
  -- of two clusters one ends before the other begins
  have hapart : ∀ {c c' : Cluster α}, c.endMs + p.burstMergeMs ≤ c'.first.tMs →
      ¬ (c.group.Holds s ∧ c'.group.Holds s) := by
    rintro c c' hle ⟨⟨-, hend⟩, hfirst, -⟩
    change s.tMs ≤ c.endMs at hend
    change c'.first.tMs ≤ s.tMs at hfirst
    omega
  have hsame : cs.Pairwise fun c c' => c.group.Holds s ∧ c'.group.Holds s → c = c' :=
    h.apart.imp fun hle hboth => absurd hboth (hapart hle)
  have hflip : cs.Pairwise (flip fun c c' => c.group.Holds s ∧ c'.group.Holds s → c = c') :=
    h.apart.imp fun hle hboth => absurd hboth.symm (hapart hle)
  exact hsame.forall_of_forall_of_flip (fun _ _ _ => rfl) hflip hc hc' ⟨hs, hs'⟩

/-- The snapshots above the threshold that fall inside a cluster are its members. -/
theorem holds_iff (h : Good p seen cs) (hmerge : 0 < p.burstMergeMs) (hc : c ∈ cs) (s : Snapshot α) :
    s ∈ seen ∧ Above p s ∧ c.group.Holds s ↔ s ∈ c.members := by
  constructor
  · rintro ⟨hseen, habove, hholds⟩
    obtain ⟨c', hc', hmem⟩ := h.cover s hseen habove
    rwa [h.eq_of_holds hmerge hc hc' hholds (h.members c' hc' s hmem).2.2]
  · exact h.members c hc s

theorem isGreatest_group (h : Good p seen cs) (hmerge : 0 < p.burstMergeMs) (hc : c ∈ cs) {β : Type*} [LinearOrder β]
    (f : Snapshot α → β) :
    IsGreatest {b | ∃ s ∈ seen, Above p s ∧ c.group.Holds s ∧ f s = b} (peak f c.first c.rest) := by
  obtain ⟨⟨top, htop, htopeq⟩, hbound⟩ := isGreatest_peak f c.first c.rest
  obtain ⟨hseen, habove, hholds⟩ := (h.holds_iff hmerge hc top).mpr htop
  refine ⟨⟨top, hseen, habove, hholds, htopeq⟩, ?_⟩
  rintro _ ⟨s, hs, habove, hholds, rfl⟩
  exact hbound ⟨s, (h.holds_iff hmerge hc s).mp ⟨hs, habove, hholds⟩, rfl⟩

/-- The rows of clusters that are right say so. -/
theorem wellPaired (h : Good p seen cs) (hmerge : 0 < p.burstMergeMs) : WellPaired p seen (cs.map Cluster.group) where
  ordered g hg := by
    obtain ⟨c, hc, rfl⟩ := List.mem_map.mp hg
    exact ⟨(h.first_mem hc).2.2, rfl⟩
  opened g hg := by
    obtain ⟨c, hc, rfl⟩ := List.mem_map.mp hg
    obtain ⟨hseen, habove, -⟩ := h.first_mem hc
    exact ⟨c.first, hseen, habove, rfl⟩
  peakBins g hg := by
    obtain ⟨c, hc, rfl⟩ := List.mem_map.mp hg
    exact h.isGreatest_group hmerge hc Snapshot.bins
  peakDb g hg := by
    obtain ⟨c, hc, rfl⟩ := List.mem_map.mp hg
    exact h.isGreatest_group hmerge hc Snapshot.excess
  covered s hs habove := by
    obtain ⟨c, hc, hmem⟩ := h.cover s hs habove
    have hholds : c.group.Holds s := (h.members c hc s hmem).2.2
    refine ⟨c.group, ⟨List.mem_map_of_mem hc, hholds⟩, ?_⟩
    rintro g ⟨hg, hg'⟩
    obtain ⟨c', hc', rfl⟩ := List.mem_map.mp hg
    rw [h.eq_of_holds hmerge hc' hc hg' hholds]
  apart := List.pairwise_map.mpr h.apart

end Good

/-! ## The pass -/

/-- Where the pass stands: between two events, in one, or in one whose end is pending. -/
inductive Phase (α : Type*)
  | idle
  | burst (first : Snapshot α) (rest : List (Snapshot α))
  | pending (c : Cluster α)

section
variable [LinearOrder α]

/-- The row of the event that has begun and not ended. -/
def Phase.rows : Phase α → List (Row α)
  | idle => []
  | burst s _ => [.burstStart s.tMs s.bins s.excess]
  | pending c => [.burstStart c.first.tMs c.first.bins c.first.excess]

/-- The variables say where the pass stands. -/
def Phase.Matches (d : Detector α) : Phase α → Prop
  | idle => d.inBurst = false ∧ d.pendingEnd = false
  | burst s rest => (d.inBurst = true ∧ d.pendingEnd = false) ∧ (d.startMs = s.tMs ∧ d.pendingStartMs = s.tMs) ∧
      d.peakBins = peak Snapshot.bins s rest ∧ d.peakDb = peak Snapshot.excess s rest
  | pending c => (d.inBurst = false ∧ d.pendingEnd = true) ∧
      (d.pendingStartMs = c.first.tMs ∧ d.pendingEndMs = c.endMs) ∧
      d.pendingPeakBins = peak Snapshot.bins c.first c.rest ∧ d.pendingPeakDb = peak Snapshot.excess c.first c.rest

/-- The clusters are right, the one that is not over whenever it will end. -/
def Phase.Sound (p : Params) (seen : List (Snapshot α)) (cs : List (Cluster α)) : Phase α → Prop
  | idle => Good p seen cs ∧ ∀ c ∈ cs, ∃ s ∈ seen, c.endMs + p.burstMergeMs ≤ s.tMs
  | burst s rest => ∀ endMs, (∀ u ∈ seen, u.tMs ≤ endMs) → Good p seen (cs ++ [⟨s, rest, endMs⟩])
  | pending c => Good p seen (cs ++ [c])

/-- Behind the snapshots `seen`, with these rows written. -/
def Inv (p : Params) (seen : List (Snapshot α)) (d : Detector α) (rows : List (Row α)) : Prop :=
  ∃ cs phase, rows = (cs.flatMap fun c => c.group.rows) ++ Phase.rows phase ∧ Phase.Matches d phase ∧
    Phase.Sound p seen cs phase

/-- As `Phase.Sound`, at the time `tMs` and with no end pending whose merge window is over. -/
def Phase.Ready (p : Params) (seen : List (Snapshot α)) (tMs : ℤ) (cs : List (Cluster α)) : Phase α → Prop
  | idle => Good p seen cs ∧ ∀ c ∈ cs, c.endMs + p.burstMergeMs ≤ tMs
  | burst s rest => Phase.Sound p seen cs (.burst s rest)
  | pending c => Good p seen (cs ++ [c]) ∧ tMs - c.endMs < p.burstMergeMs

variable {p : Params} {seen : List (Snapshot α)} {d : Detector α} {rows : List (Row α)} {s : Snapshot α}

/-- The end row of a cluster behind its start row. -/
theorem rows_end (cs : List (Cluster α)) (c : Cluster α) :
    (cs.flatMap fun c => c.group.rows) ++ Phase.rows (.pending c) ++
        [.burstEnd c.endMs (peak Snapshot.bins c.first c.rest) (peak Snapshot.excess c.first c.rest)
          (c.endMs - c.first.tMs)] =
      (cs ++ [c]).flatMap fun c => c.group.rows := by
  rw [List.flatMap_append, List.flatMap_singleton, List.append_assoc]
  rfl

theorem flush_inv (h : Inv p seen d rows) (hs : ∀ u ∈ seen, u.tMs ≤ s.tMs) :
    ∃ cs phase, rows ++ (flush p s.tMs d).2 = (cs.flatMap fun c => c.group.rows) ++ Phase.rows phase ∧
      Phase.Matches (flush p s.tMs d).1 phase ∧ Phase.Ready p seen s.tMs cs phase := by
  obtain ⟨cs, phase, rfl, hmatch, hsound⟩ := h
  rw [flush]
  cases phase with
  | idle =>
      rw [if_neg fun hp => absurd (hp.1.symm.trans hmatch.2) (by decide), List.append_nil]
      refine ⟨cs, .idle, rfl, hmatch, hsound.1, fun c hc => ?_⟩
      obtain ⟨u, hu, hle⟩ := hsound.2 c hc
      exact hle.trans (hs u hu)
  | burst first rest =>
      rw [if_neg fun hp => absurd (hp.2.1.symm.trans hmatch.1.1) (by decide), List.append_nil]
      exact ⟨cs, .burst first rest, rfl, hmatch, hsound⟩
  | pending c =>
      have hgood : Good p seen (cs ++ [c]) := hsound
      obtain ⟨⟨hburst, hpending⟩, ⟨hstart, hend⟩, hbins, hdb⟩ := hmatch
      by_cases hover : p.burstMergeMs ≤ s.tMs - c.endMs
      · rw [if_pos ⟨hpending, hburst, hend ▸ hover⟩, hstart, hend, hbins, hdb]
        refine ⟨cs ++ [c], .idle, ?_, ⟨hburst, rfl⟩, hgood, fun c' hc' => ?_⟩
        · rw [rows_end, Phase.rows, List.append_nil]
        · rcases List.mem_append.mp hc' with hc' | hc'
          · have hlast := List.mem_append_right cs (List.mem_singleton_self c)
            have hbefore := (List.pairwise_append.mp hgood.apart).2.2 c' hc' c (List.mem_singleton_self c)
            exact hbefore.trans (hs _ (hgood.first_mem hlast).1)
          · obtain rfl := List.mem_singleton.mp hc'
            omega
      · rw [if_neg fun hp => hover (hend ▸ hp.2.2), List.append_nil]
        exact ⟨cs, .pending c, rfl, ⟨⟨hburst, hpending⟩, ⟨hstart, hend⟩, hbins, hdb⟩, hgood, not_le.mp hover⟩

omit [LinearOrder α] in
/-- A burst goes on. -/
theorem burst_goes_on {cs : List (Cluster α)} {first : Snapshot α} {rest : List (Snapshot α)}
    (hsound : ∀ endMs, (∀ u ∈ seen, u.tMs ≤ endMs) → ∃ endMs', Good p seen (cs ++ [⟨first, rest, endMs'⟩]))
    (hs : ∀ u ∈ seen, u.tMs ≤ s.tMs) (habove : Above p s) :
    Phase.Sound p (seen ++ [s]) cs (.burst first (rest ++ [s])) := by
  intro endMs hend
  obtain ⟨endMs', hgood⟩ := hsound endMs fun u hu => hend u (List.mem_append_left _ hu)
  have hfirst := (hgood.first_mem (List.mem_append_right _ (List.mem_singleton_self _))).1
  exact hgood.extend habove (hs _ hfirst) hend

theorem sample_inv {cs : List (Cluster α)} {phase : Phase α} (hmatch : Phase.Matches d phase)
    (hready : Phase.Ready p seen s.tMs cs phase) (hs : ∀ u ∈ seen, u.tMs ≤ s.tMs) :
    Inv p (seen ++ [s]) (sample p d s).1
      ((cs.flatMap fun c => c.group.rows) ++ Phase.rows phase ++ (sample p d s).2) := by
  rw [sample]
  by_cases habove : p.burstBinsThreshold ≤ s.bins
  · rw [if_pos habove]
    cases phase with
    | idle =>
        obtain ⟨hburst, hpending⟩ := hmatch
        rw [if_pos hburst, if_neg fun hp => absurd (hp.1.symm.trans hpending) (by decide)]
        refine ⟨cs, .burst s [], ?_, ⟨⟨rfl, hpending⟩, ⟨rfl, rfl⟩, rfl, rfl⟩, fun endMs hend => ?_⟩
        · rw [Phase.rows, List.append_nil]
          rfl
        · exact hready.1.begin habove hready.2 (hend s (List.mem_append_right _ (List.mem_singleton_self s)))
    | burst first rest =>
        obtain ⟨⟨hburst, hpending⟩, hstart, hbins, hdb⟩ := hmatch
        rw [if_neg (by rw [hburst]; decide), List.append_nil]
        refine ⟨cs, .burst first (rest ++ [s]), rfl, ⟨⟨hburst, hpending⟩, hstart, ?_, ?_⟩, ?_⟩
        · rw [peak_concat, ← hbins]
          rfl
        · rw [peak_concat, ← hdb]
          rfl
        · exact burst_goes_on (fun endMs hend => ⟨endMs, hready endMs hend⟩) hs habove
    | pending c =>
        obtain ⟨⟨hburst, hpending⟩, ⟨hstart, hend⟩, hbins, hdb⟩ := hmatch
        rw [if_pos hburst, if_pos ⟨hpending, hend ▸ hready.2⟩, List.append_nil]
        refine ⟨cs, .burst c.first (c.rest ++ [s]), rfl, ⟨⟨rfl, rfl⟩, ⟨hstart, hstart⟩, ?_, ?_⟩, ?_⟩
        · rw [peak_concat, ← hbins]
          rfl
        · rw [peak_concat, ← hdb]
          rfl
        · exact burst_goes_on (fun _ _ => ⟨c.endMs, hready.1⟩) hs habove
  · rw [if_neg habove]
    cases phase with
    | idle =>
        rw [if_neg (by rw [hmatch.1]; decide), List.append_nil]
        refine ⟨cs, .idle, rfl, hmatch, hready.1.skip habove, fun c hc => ?_⟩
        exact ⟨s, List.mem_append_right _ (List.mem_singleton_self s), hready.2 c hc⟩
    | burst first rest =>
        obtain ⟨⟨hburst, hpending⟩, hstart, hbins, hdb⟩ := hmatch
        rw [if_pos hburst]
        by_cases hquiet : p.burstMinQuiet ≤ d.quiet + 1
        · rw [if_pos hquiet, List.append_nil]
          refine ⟨cs, .pending ⟨first, rest, s.tMs⟩, rfl, ⟨⟨rfl, rfl⟩, ⟨hstart.2, rfl⟩, hbins, hdb⟩, ?_⟩
          exact (hready s.tMs hs).skip habove
        · rw [if_neg hquiet, List.append_nil]
          refine ⟨cs, .burst first rest, rfl, ⟨⟨hburst, hpending⟩, hstart, hbins, hdb⟩, fun endMs hend => ?_⟩
          exact (hready endMs fun u hu => hend u (List.mem_append_left _ hu)).skip habove
    | pending c =>
        rw [if_neg (by rw [hmatch.1.1]; decide), List.append_nil]
        exact ⟨cs, .pending c, rfl, hmatch, hready.1.skip habove⟩

/-- One round of the loop keeps the invariant. -/
theorem step_inv (h : Inv p seen d rows) (hs : ∀ u ∈ seen, u.tMs ≤ s.tMs) :
    Inv p (seen ++ [s]) (step p d s).1 (rows ++ (step p d s).2) := by
  obtain ⟨cs, phase, hrows, hmatch, hready⟩ := flush_inv h hs
  have hsample := sample_inv hmatch hready hs
  rw [← hrows, List.append_assoc] at hsample
  exact hsample

theorem loop_inv {snaps : List (Snapshot α)} (htimes : (seen ++ snaps).Pairwise fun s u => s.tMs ≤ u.tMs)
    (h : Inv p seen d rows) : Inv p (seen ++ snaps) (loop p d snaps).1 (rows ++ (loop p d snaps).2) := by
  induction snaps generalizing seen d rows with
  | nil =>
      rw [List.append_nil, loop, List.append_nil]
      exact h
  | cons s snaps ih =>
      have hs : ∀ u ∈ seen, u.tMs ≤ s.tMs := fun u hu =>
        (List.pairwise_append.mp htimes).2.2 u hu s List.mem_cons_self
      have hsplit : seen ++ s :: snaps = seen ++ [s] ++ snaps := by rw [List.append_assoc, List.singleton_append]
      rw [hsplit] at htimes ⊢
      have hloop := ih htimes (step_inv h hs)
      rw [List.append_assoc rows] at hloop
      exact hloop

/-- The end of the file writes the end row that is missing. -/
theorem drain_inv {fileEndMs : ℤ} (h : Inv p seen d rows) (hend : ∀ u ∈ seen, u.tMs ≤ fileEndMs) :
    ∃ cs, rows ++ drain fileEndMs d = (cs.flatMap fun c => c.group.rows) ∧ Good p seen cs := by
  obtain ⟨cs, phase, rfl, hmatch, hsound⟩ := h
  rw [drain]
  cases phase with
  | idle =>
      rw [if_neg (by rw [hmatch.1]; decide), if_neg (by rw [hmatch.2]; decide)]
      exact ⟨cs, by rw [Phase.rows, List.append_nil, List.append_nil], hsound.1⟩
  | burst first rest =>
      obtain ⟨⟨hburst, -⟩, hstart, hbins, hdb⟩ := hmatch
      rw [if_pos hburst, hstart.1, hbins, hdb]
      exact ⟨_, rows_end cs ⟨first, rest, fileEndMs⟩, hsound fileEndMs hend⟩
  | pending c =>
      obtain ⟨⟨hburst, hpending⟩, ⟨hstart, hpend⟩, hbins, hdb⟩ := hmatch
      rw [if_neg (by rw [hburst]; decide), if_pos hpending, hstart, hpend, hbins, hdb]
      exact ⟨_, rows_end cs c, hsound⟩

omit [LinearOrder α] in
theorem le_fileEndMs {snaps : List (Snapshot α)} (htimes : snaps.Pairwise fun s u => s.tMs ≤ u.tMs) :
    ∀ u ∈ snaps, u.tMs ≤ fileEndMs snaps := by
  intro u hu
  rcases List.eq_nil_or_concat snaps with rfl | ⟨before, last, rfl⟩
  · exact absurd hu List.not_mem_nil
  · rw [List.concat_eq_append] at hu htimes ⊢
    rw [fileEndMs, List.getLast?_concat]
    rcases List.mem_append.mp hu with hu | hu
    · exact (List.pairwise_append.mp htimes).2.2 u hu last (List.mem_singleton_self last)
    · exact (congrArg Snapshot.tMs (List.mem_singleton.mp hu)).le

/-- **The rows of `burst.csv` are well paired**: for snapshots whose times do not decrease the rows are the start and
end rows of groups of snapshots, at least the merge window apart; a group ends at or after its start and its duration is
the difference, every snapshot above the threshold falls inside exactly one group, and the peaks of a group are the
maxima over its snapshots. -/
theorem burstCsv_wellPaired [Zero α] (p : Params) (hmerge : 1 ≤ p.burstMergeMs) (snaps : List (Snapshot α))
    (htimes : snaps.Pairwise fun s u => s.tMs ≤ u.tMs) :
    ∃ groups, burstCsv p snaps = groups.flatMap Group.rows ∧ WellPaired p snaps groups := by
  have hinit : Inv p [] (⟨false, 0, 0, (0 : α), 0, false, 0, 0, 0, 0⟩ : Detector α) [] := by
    refine ⟨[], .idle, rfl, ⟨rfl, rfl⟩, ⟨?_, List.Pairwise.nil, ?_⟩, ?_⟩
    · exact fun c hc => absurd hc List.not_mem_nil
    · exact fun s hs => absurd hs List.not_mem_nil
    · exact fun c hc => absurd hc List.not_mem_nil
  obtain ⟨cs, hrows, hgood⟩ := drain_inv (loop_inv htimes hinit) (le_fileEndMs htimes)
  refine ⟨cs.map Cluster.group, ?_, hgood.wellPaired (by omega)⟩
  rw [List.flatMap_map]
  exact hrows

end

/-- Two groups, the first one with a gap inside it. -/
def capture : List (Snapshot ℤ) := [⟨0, 20, 5⟩, ⟨10, 3, 1⟩, ⟨20, 1, 1⟩, ⟨25, 18, 9⟩, ⟨300, 2, 0⟩, ⟨600, 30, 2⟩]

theorem burstCsv_wellPaired_capture : (capture.Pairwise fun s u => s.tMs ≤ u.tMs) ∧
    ∃ groups, burstCsv ⟨16, 1, 100⟩ capture = groups.flatMap Group.rows ∧ WellPaired ⟨16, 1, 100⟩ capture groups :=
  ⟨by decide, burstCsv_wellPaired ⟨16, 1, 100⟩ (by decide) capture (by decide)⟩

example : burstCsv ⟨16, 1, 100⟩ capture =
    [.burstStart 0 20 5, .burstEnd 300 20 9 300, .burstStart 600 30 2, .burstEnd 600 30 2 0] := by decide

/-! ## The snapshots of a capture -/

section
variable {α : Type*} {stamp : ℕ → ℤ} (pushed : ℕ → ℤ × α)

/-- The times of the chunks do not decrease. -/
theorem snapshots_times (hstamp : Monotone stamp) (nPairs : ℕ) :
    (snapshots stamp nPairs pushed).Pairwise fun s u => s.tMs ≤ u.tMs := by
  rw [snapshots, tab, List.pairwise_map]
  refine List.pairwise_lt_range.imp fun {i j} hij => ?_
  apply hstamp
  unfold burstNfft
  omega

/-- The last chunk ends with the capture. -/
theorem fileEndMs_snapshots {nPairs : ℕ} (hpos : 0 < nPairs) :
    fileEndMs (snapshots stamp nPairs pushed) = stamp nPairs := by
  obtain ⟨n, hn⟩ : ∃ n, (nPairs + burstNfft - 1) / burstNfft = n + 1 :=
    Nat.exists_eq_succ_of_ne_zero (by unfold burstNfft; omega)
  have hlast : n * burstNfft + min (nPairs - n * burstNfft) burstNfft = nPairs := by
    unfold burstNfft at hn ⊢
    omega
  rw [fileEndMs, snapshots, hn, tab, List.range_succ, List.map_append, List.map_singleton, List.getLast?_concat]
  exact congrArg stamp hlast

end

end SimpleSatOps.Burst
