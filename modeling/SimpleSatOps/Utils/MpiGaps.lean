import Mathlib.Data.Int.Notation
import Mathlib.Tactic
import SimpleSatOps.Lib.Fold
import SimpleSatOps.Utils.MpiReassemble

/-!
# The re-download plan (`report_gaps`, `emit_run`)

A packet carries `BULK_FILE_MAX_DATA` = 195 bytes of the file.

* `Coverage` : the `present` map of a file, whose size `load_chunks` bounds;
* `emitRun`, `scanByte`, `reportGaps` : the commands and totals printed; `none` where a `long` would overflow;
* `Exact` : what a plan owes the coverage map;
* `Sent` : the commands of the runs closed so far;
* `Inv`, `Inv.step` : what the scan has reached, and one byte of it;
* `reportGaps_exact_iff` : the caps for which the plan is exact.
-/

namespace SimpleSatOps.MpiReconstruct

/-- `present[0 .. size)`; `load_chunks` drops every chunk that ends past
`BULK_FILE_MAX_PLAUSIBLE`. -/
structure Coverage where
  present : List Bool
  size_le : present.length ≤ 2 * 1024 * 1024

/-- The per-command cap in whole packets. -/
structure Tile where
  val : ℕ
  packet_le : 195 ≤ val
  packet_dvd : 195 ∣ val

/-- One printed `comms_bulk_file_downlink_start(path, offset, len)`. -/
structure Request where
  offset : ℕ
  len : ℕ

/-- What `report_gaps` prints. -/
structure Report where
  requests : List Request
  missing : ℕ
  download : ℕ
  nCmds : ℕ

/-- The locals of the scan; `none` is a negative `run_start` or `cs`. -/
structure Scan where
  runStart : Option ℕ
  pending : Option (ℕ × ℕ)
  report : Report

/-! ## The source -/

def Coverage.size (c : Coverage) : ℕ := c.present.length

/-- `tile = (max_dl / PKT) * PKT; if (tile < PKT) tile = PKT`. -/
def tileOf (maxDl : ℤ) : Tile :=
  let packets := (maxDl.tdiv 195).toNat
  if h : packets < 1 then ⟨195, le_rfl, dvd_rfl⟩
  else ⟨packets * 195, Nat.le_mul_of_pos_left _ (by omega), Dvd.intro_left _ rfl⟩

/-- The loop of `emit_run`, from `p` on. -/
def emitTiles (tile : Tile) (ce p : ℕ) (rep : Report) : Option Report :=
  if h : p < ce then
    if p + tile.val ≤ 2 ^ 63 - 1 then
      let q := if p + tile.val < ce then p + tile.val else ce
      emitTiles tile ce (p + tile.val)
        { rep with
          requests := rep.requests ++ [⟨p, q - p⟩]
          download := rep.download + (q - p)
          nCmds := rep.nCmds + 1 }
    else none
  else some rep
termination_by ce - p
decreasing_by
  have := tile.packet_le
  omega

def emitRun (size : ℕ) (tile : Tile) (cs ce : ℕ) (rep : Report) : Option Report :=
  emitTiles tile (if size < ce then size else ce) cs rep

/-- The end of a run `[a, b)` of missing bytes. -/
def closeRun (size : ℕ) (tile : Tile) (a b : ℕ) (s : Scan) : Option Scan :=
  let rep := { s.report with missing := s.report.missing + (b - a) }
  let sa := a / 195 * 195
  let sb := (b + 195 - 1) / 195 * 195
  let sb := if size < sb then size else sb
  match s.pending with
  | none => some ⟨none, some (sa, sb), rep⟩
  | some (cs, ce) =>
      if sa ≤ ce then some ⟨none, some (cs, if ce < sb then sb else ce), rep⟩
      else do
        let rep ← emitRun size tile cs ce rep
        some ⟨none, some (sa, sb), rep⟩

/-- The body of the scan, which goes one past the end. -/
def scanByte (c : Coverage) (tile : Tile) (s : Scan) (i : ℕ) : Option Scan :=
  let gap := decide (i < c.size) && !c.present.getD i false
  match s.runStart with
  | none => if gap then some { s with runStart := some i } else some s
  | some a => if gap then some s else closeRun c.size tile a i s

def reportGaps (c : Coverage) (maxDl : ℤ) : Option Report := do
  let tile := tileOf maxDl
  let s ← (List.range (c.size + 1)).foldlM (scanByte c tile) ⟨none, none, ⟨[], 0, 0, 0⟩⟩
  match s.pending with
  | none => some s.report
  | some (cs, ce) => emitRun c.size tile cs ce s.report

/-! ## What a plan owes -/

/-- The byte `i` of the file never arrived. -/
def Coverage.Missing (c : Coverage) (i : ℕ) : Prop := c.present[i]? = some false

/-- The packet `k` of the file holds a missing byte. -/
def Coverage.Needed (c : Coverage) (k : ℕ) : Prop := ∃ i, c.Missing i ∧ i / 195 = k

/-- The packet `k` is the first of a stretch of packets that hold missing bytes. -/
def Coverage.Starts (c : Coverage) (k : ℕ) : Prop := c.Needed k ∧ ∀ k', k = k' + 1 → ¬ c.Needed k'

def Request.Has (r : Request) (i : ℕ) : Prop := r.offset ≤ i ∧ i < r.offset + r.len

/-- The plan covers the gaps exactly. -/
structure Exact (c : Coverage) (tile : Tile) (rs : List Request) : Prop where
  disjoint : rs.Pairwise fun a b => ∀ i, ¬ (a.Has i ∧ b.Has i)
  aligned : ∀ r ∈ rs, 195 ∣ r.offset
  capped : ∀ r ∈ rs, r.len ≤ tile.val
  covered : ∀ i, c.Missing i → ∃ r ∈ rs, r.Has i
  needed : ∀ r ∈ rs, ∀ i, r.Has i → c.Needed (i / 195)

theorem Coverage.Missing.lt_size {c : Coverage} {i : ℕ} (h : c.Missing i) : i < c.size :=
  (List.getElem?_eq_some_iff.mp h).1

theorem Coverage.Missing.needed {c : Coverage} {i : ℕ} (h : c.Missing i) : c.Needed (i / 195) := ⟨i, h, rfl⟩

theorem gap_iff (c : Coverage) (i : ℕ) : (decide (i < c.size) && !c.present.getD i false) = true ↔ c.Missing i := by
  unfold Coverage.Missing Coverage.size
  rw [List.getD_eq_getElem?_getD]
  by_cases h : i < c.present.length
  · rw [List.getElem?_eq_getElem h]
    simp [h]
  · rw [List.getElem?_eq_none (by omega)]
    simp [h]

/-! ## One run -/

/-- The commands `rs` cover `[p, ce)` in order, from the packet boundary `p` on. -/
structure Tiling (tile : Tile) (p ce : ℕ) (rs : List Request) : Prop where
  ordered : rs.Pairwise fun a b => a.offset + a.len ≤ b.offset
  aligned : ∀ r ∈ rs, 195 ∣ r.offset
  capped : ∀ r ∈ rs, r.len ≤ tile.val
  inside : ∀ r ∈ rs, p ≤ r.offset ∧ r.offset + r.len ≤ ce
  covers : ∀ i, p ≤ i → i < ce → ∃ r ∈ rs, r.Has i

variable {c : Coverage} {tile : Tile}

theorem Tiling.empty {p ce : ℕ} (h : ce ≤ p) : Tiling tile p ce [] where
  ordered := .nil
  aligned _ hr := absurd hr List.not_mem_nil
  capped _ hr := absurd hr List.not_mem_nil
  inside _ hr := absurd hr List.not_mem_nil
  covers i hp hce := by omega

/-- One more command in front. -/
theorem Tiling.cons {p q ce : ℕ} {rs : List Request} (h : Tiling tile q ce rs) (hp : 195 ∣ p) (hpq : p ≤ q)
    (hq : min q ce - p ≤ tile.val) (hpce : p ≤ ce) : Tiling tile p ce (⟨p, min q ce - p⟩ :: rs) where
  ordered := by
    refine List.pairwise_cons.mpr ⟨fun r hr => ?_, h.ordered⟩
    have := (h.inside r hr).1
    show p + (min q ce - p) ≤ r.offset
    omega
  aligned := List.forall_mem_cons.mpr ⟨hp, h.aligned⟩
  capped := List.forall_mem_cons.mpr ⟨hq, h.capped⟩
  inside := by
    refine List.forall_mem_cons.mpr ⟨⟨le_rfl, ?_⟩, fun r hr => ?_⟩
    · show p + (min q ce - p) ≤ ce
      omega
    · have := h.inside r hr
      omega
  covers i hi hce := by
    by_cases hiq : i < q
    · refine ⟨_, List.mem_cons_self, hi, ?_⟩
      show i < p + (min q ce - p)
      omega
    · obtain ⟨r, hr, hhas⟩ := h.covers i (by omega) hce
      exact ⟨r, List.mem_cons_of_mem _ hr, hhas⟩

/-- `emit_run` splits a run of whole packets into commands of at most a tile, unless the first end overflows. -/
theorem emitTiles_spec {ce : ℕ} (hce : ce ≤ 2 * 1024 * 1024) (p : ℕ) (rep : Report) (hp : 195 ∣ p)
    (hfit : p < ce → p + tile.val ≤ 2 ^ 63 - 1) :
    ∃ rs rep', emitTiles tile ce p rep = some rep' ∧ rep'.requests = rep.requests ++ rs ∧ Tiling tile p ce rs := by
  rw [emitTiles]
  by_cases h : p < ce
  · have hdvd := tile.packet_dvd
    have hpos := tile.packet_le
    rw [dif_pos h, if_pos (hfit h)]
    obtain ⟨rs, rep', heq, hreq, ht⟩ := emitTiles_spec hce (p + tile.val)
      { rep with
        requests := rep.requests ++ [⟨p, (if p + tile.val < ce then p + tile.val else ce) - p⟩]
        download := rep.download + ((if p + tile.val < ce then p + tile.val else ce) - p)
        nCmds := rep.nCmds + 1 } (by omega) (by omega)
    have hmin : (if p + tile.val < ce then p + tile.val else ce) = min (p + tile.val) ce := by
      split_ifs <;> omega
    refine ⟨_, rep', heq, ?_, ht.cons hp (by omega) (by omega) h.le⟩
    rw [hreq, hmin, List.append_assoc]
    rfl
  · rw [dif_neg h]
    exact ⟨[], rep, rfl, (List.append_nil _).symm, .empty (by omega)⟩
termination_by ce - p
decreasing_by
  have := tile.packet_le
  omega

/-- A command is only printed when its own end does not overflow. -/
theorem emitTiles_fits {ce : ℕ} (p : ℕ) (rep : Report) {rep' : Report} (h : emitTiles tile ce p rep = some rep')
    (hrep : ∀ r ∈ rep.requests, r.offset + tile.val ≤ 2 ^ 63 - 1) :
    ∀ r ∈ rep'.requests, r.offset + tile.val ≤ 2 ^ 63 - 1 := by
  rw [emitTiles] at h
  by_cases hp : p < ce
  · rw [dif_pos hp] at h
    by_cases hfit : p + tile.val ≤ 2 ^ 63 - 1
    · rw [if_pos hfit] at h
      refine emitTiles_fits _ _ h fun r hr => ?_
      rcases List.mem_append.mp hr with hr | hr
      · exact hrep r hr
      · rw [List.mem_singleton.mp hr]
        exact hfit
    · rw [if_neg hfit] at h
      exact absurd h (by simp)
  · rw [dif_neg hp] at h
    exact Option.some.inj h ▸ hrep
termination_by ce - p
decreasing_by
  have := tile.packet_le
  omega

/-! ## What the scan has reached -/

/-- The pending request `[cs, ce)`, when every byte before `f` has been dealt with. -/
structure Pending (c : Coverage) (f cs ce : ℕ) : Prop where
  aligned : 195 ∣ cs
  lt : cs < ce
  le_size : ce ≤ c.size
  whole : 195 ∣ ce ∨ ce = c.size
  lt_reached : cs < f
  starts : c.Starts (cs / 195)
  needed : ∀ i, cs ≤ i → i < ce → c.Needed (i / 195)

/-- The commands printed for the runs that end before `lim`. -/
structure Sent (c : Coverage) (tile : Tile) (lim : ℕ) (rs : List Request) : Prop where
  ordered : rs.Pairwise fun a b => a.offset + a.len ≤ b.offset
  aligned : ∀ r ∈ rs, 195 ∣ r.offset
  capped : ∀ r ∈ rs, r.len ≤ tile.val
  below : ∀ r ∈ rs, r.offset + r.len ≤ lim
  needed : ∀ r ∈ rs, ∀ i, r.Has i → c.Needed (i / 195)

theorem Sent.empty (lim : ℕ) : Sent c tile lim [] where
  ordered := .nil
  aligned _ hr := absurd hr List.not_mem_nil
  capped _ hr := absurd hr List.not_mem_nil
  below _ hr := absurd hr List.not_mem_nil
  needed _ hr := absurd hr List.not_mem_nil

/-- The pending request is printed. -/
theorem Sent.append {f cs ce lim : ℕ} {rs ts : List Request} (h : Sent c tile cs rs) (hp : Pending c f cs ce)
    (ht : Tiling tile cs ce ts) (hlim : ce ≤ lim) : Sent c tile lim (rs ++ ts) where
  ordered := by
    refine List.pairwise_append.mpr ⟨h.ordered, ht.ordered, fun a ha b hb => ?_⟩
    exact (h.below a ha).trans (ht.inside b hb).1
  aligned := List.forall_mem_append.mpr ⟨h.aligned, ht.aligned⟩
  capped := List.forall_mem_append.mpr ⟨h.capped, ht.capped⟩
  below := by
    refine List.forall_mem_append.mpr ⟨fun r hr => ?_, fun r hr => (ht.inside r hr).2.trans hlim⟩
    have := h.below r hr
    have := hp.lt
    omega
  needed := by
    refine List.forall_mem_append.mpr ⟨h.needed, fun r hr i hi => ?_⟩
    have hin := ht.inside r hr
    exact hp.needed i (by have := hi.1; omega) (by have := hi.2; omega)

/-- The pending request and the printed ones, when every byte before `f` has been dealt with. -/
def Queued (c : Coverage) (tile : Tile) (f : ℕ) : Option (ℕ × ℕ) → List Request → Prop
  | none, rs => rs = [] ∧ ∀ i < f, ¬ c.Missing i
  | some (cs, ce), rs => Pending c f cs ce ∧ Sent c tile cs rs ∧
      ∀ i < f, c.Missing i → (∃ r ∈ rs, r.Has i) ∨ (cs ≤ i ∧ i < ce)

/-- The state before the byte `i`; an open run consists of missing bytes. -/
def Inv (c : Coverage) (tile : Tile) (i : ℕ) (s : Scan) : Prop :=
  match s.runStart with
  | none => Queued c tile i s.pending s.report.requests
  | some a => a < i ∧ i ≤ c.size ∧ (∀ j, a ≤ j → j < i → c.Missing j) ∧ Queued c tile a s.pending s.report.requests

theorem Queued.next {f : ℕ} {pending : Option (ℕ × ℕ)} {rs : List Request} (h : Queued c tile f pending rs)
    (hf : ¬ c.Missing f) : Queued c tile (f + 1) pending rs := by
  have hlt : ∀ i < f + 1, c.Missing i → i < f := by
    intro i hi hm
    rcases Nat.lt_succ_iff_lt_or_eq.mp hi with hlt | rfl
    · exact hlt
    · exact absurd hm hf
  match pending, h with
  | none, ⟨hrs, hnone⟩ => exact ⟨hrs, fun i hi hm => hnone i (hlt i hi hm) hm⟩
  | some (cs, ce), ⟨hp, hs, hcov⟩ =>
      exact ⟨{ hp with lt_reached := hp.lt_reached.trans (Nat.lt_succ_self f) }, hs,
        fun i hi hm => hcov i (hlt i hi hm) hm⟩

/-- A run `[a, b)` of missing bytes, snapped out to the packet grid. -/
structure Snapped (c : Coverage) (a b sa sb : ℕ) : Prop where
  aligned : 195 ∣ sa
  start_le : sa ≤ a
  lt_start : a < sa + 195
  le_stop : b ≤ sb
  le_size : sb ≤ c.size
  whole : 195 ∣ sb ∨ sb = c.size
  needed : ∀ i, sa ≤ i → i < sb → c.Needed (i / 195)

theorem snapped {a b : ℕ} (hab : a < b) (hb : b ≤ c.size) (hm : ∀ i, a ≤ i → i < b → c.Missing i) :
    Snapped c a b (a / 195 * 195)
      (if c.size < (b + 195 - 1) / 195 * 195 then c.size else (b + 195 - 1) / 195 * 195) where
  aligned := Dvd.intro_left _ rfl
  start_le := Nat.div_mul_le_self a 195
  lt_start := by omega
  le_stop := by split_ifs <;> omega
  le_size := by split_ifs <;> omega
  whole := by split_ifs <;> omega
  needed i hsa hsb := by
    have hi : i < (b + 195 - 1) / 195 * 195 := by
      split_ifs at hsb <;> omega
    -- the packet of `i` also holds `a`, `i` itself or `b - 1`
    rcases Nat.lt_or_ge i a with hia | hia
    · rw [show i / 195 = a / 195 by omega]
      exact (hm a le_rfl hab).needed
    · rcases Nat.lt_or_ge i b with hib | hib
      · exact (hm i hia hib).needed
      · rw [show i / 195 = (b - 1) / 195 by omega]
        exact (hm (b - 1) (by omega) (by omega)).needed

/-- The tile fits in a `long` after every packet that starts a stretch of packets to be downlinked. -/
def Fits (c : Coverage) (tile : Tile) : Prop := ∀ k, c.Starts k → 195 * k + tile.val ≤ 2 ^ 63 - 1

theorem Pending.emitRun {f cs ce : ℕ} (h : Pending c f cs ce) (hfit : Fits c tile) (rep : Report) :
    ∃ ts rep', emitRun c.size tile cs ce rep = some rep' ∧ rep'.requests = rep.requests ++ ts ∧
      Tiling tile cs ce ts := by
  have hsize : c.size ≤ 2 * 1024 * 1024 := c.size_le
  have hle := h.le_size
  have hk := hfit _ h.starts
  have hcs := h.aligned
  unfold MpiReconstruct.emitRun
  rw [if_neg (by omega)]
  exact emitTiles_spec (by omega) cs rep h.aligned fun _ => by omega

theorem Snapped.pending {a b sa sb : ℕ} (h : Snapped c a b sa sb) (hab : a < b) (hm : c.Missing a)
    (hbefore : ∀ i, sa ≤ i + 195 → i < sa → ¬ c.Missing i) : Pending c b sa sb where
  aligned := h.aligned
  lt := by
    have := h.start_le
    have := h.le_stop
    omega
  le_size := h.le_size
  whole := h.whole
  lt_reached := h.start_le.trans_lt hab
  starts := by
    have hsa := h.aligned
    have hle := h.start_le
    have hlt := h.lt_start
    refine ⟨⟨a, hm, by omega⟩, ?_⟩
    rintro k' hk' ⟨i, hi, hik⟩
    exact hbefore i (by omega) (by omega) hi
  needed := h.needed

/-- Closing a run keeps the queue. -/
theorem closeRun_spec {a b : ℕ} {s : Scan} (hfit : Fits c tile) (hab : a < b) (hb : b ≤ c.size)
    (hm : ∀ i, a ≤ i → i < b → c.Missing i) (h : Queued c tile a s.pending s.report.requests) :
    ∃ s', closeRun c.size tile a b s = some s' ∧ s'.runStart = none ∧
      Queued c tile b s'.pending s'.report.requests := by
  have hsnap := snapped hab hb hm
  unfold closeRun
  dsimp only
  generalize a / 195 * 195 = sa at hsnap ⊢
  generalize (if c.size < (b + 195 - 1) / 195 * 195 then c.size else (b + 195 - 1) / 195 * 195) = sb at hsnap ⊢
  have hsa := hsnap.start_le
  have hsb := hsnap.le_stop
  have hma := hm a le_rfl hab
  match hpend : s.pending, h with
  | none, ⟨hrs, hnone⟩ =>
      refine ⟨_, rfl, rfl, hsnap.pending hab hma fun i _ hi => hnone i (by omega), ?_, fun i hi hmi => .inr ?_⟩
      · show Sent c tile sa s.report.requests
        rw [hrs]
        exact .empty sa
      · have : ¬ i < a := fun hia => hnone i hia hmi
        omega
  | some (cs, ce), ⟨hp, hs, hcov⟩ =>
      have hcs := hp.aligned
      have hsa' := hsnap.aligned
      have hreach := hp.lt_reached
      have hlt := hsnap.lt_start
      have hpl := hp.lt
      by_cases hjoin : sa ≤ ce
      · -- the same or the next packet : the pending request grows
        have hmax : (if ce < sb then sb else ce) = max ce sb := by
          split_ifs <;> omega
        dsimp only
        rw [if_pos hjoin, hmax]
        refine ⟨_, rfl, rfl, ?_, hs, fun i hi hmi => ?_⟩
        · have hle := hp.le_size
          have hle' := hsnap.le_size
          have hw := hp.whole
          have hw' := hsnap.whole
          refine ⟨hcs, by omega, by omega, by omega, by omega, hp.starts, fun i hi hi' => ?_⟩
          by_cases hic : i < ce
          · exact hp.needed i hi hic
          · exact hsnap.needed i (by omega) (by omega)
        · by_cases hia : i < a
          · exact (hcov i hia hmi).imp_right fun hin => ⟨hin.1, hin.2.trans_le (le_max_left _ _)⟩
          · exact .inr ⟨by omega, by omega⟩
      · -- a packet that arrived lies between : the pending request is printed
        have hw := hp.whole
        have hsize := hma.lt_size
        obtain ⟨ts, rep', hemit, hreq, ht⟩ := hp.emitRun hfit { s.report with missing := s.report.missing + (b - a) }
        dsimp only
        rw [if_neg hjoin, hemit]
        refine ⟨_, rfl, rfl, hsnap.pending hab hma fun i hi hi' hmi => ?_, ?_, fun i hi hmi => ?_⟩
        · rcases hcov i (by omega) hmi with ⟨r, hr, hhas⟩ | hin
          · have := hs.below r hr
            have := hhas.2
            omega
          · omega
        · show Sent c tile sa rep'.requests
          rw [hreq]
          exact hs.append hp ht (by omega)
        · show (∃ r ∈ rep'.requests, r.Has i) ∨ _
          rw [hreq]
          by_cases hia : i < a
          · rcases hcov i hia hmi with ⟨r, hr, hhas⟩ | hin
            · exact .inl ⟨r, List.mem_append_left _ hr, hhas⟩
            · obtain ⟨r, hr, hhas⟩ := ht.covers i hin.1 hin.2
              exact .inl ⟨r, List.mem_append_right _ hr, hhas⟩
          · exact .inr ⟨by omega, by omega⟩

/-! ## The scan -/

theorem Inv.step {i : ℕ} {s : Scan} (hfit : Fits c tile) (hi : i < c.size + 1) (h : Inv c tile i s) :
    ∃ s', scanByte c tile s i = some s' ∧ Inv c tile (i + 1) s' := by
  have hgap := gap_iff c i
  unfold Inv at h
  unfold scanByte
  generalize (decide (i < c.size) && !c.present.getD i false) = gap at hgap ⊢
  match hrun : s.runStart, h with
  | none, hq =>
      cases gap with
      | true => exact ⟨_, rfl, Nat.lt_succ_self i, (hgap.mp rfl).lt_size, fun j hj hj' =>
          (show j = i by omega) ▸ hgap.mp rfl, hq⟩
      | false =>
          refine ⟨s, rfl, ?_⟩
          unfold Inv
          rw [hrun]
          exact hq.next fun hm => absurd (hgap.mpr hm) (by simp)
  | some a, ⟨hai, hle, hm, hq⟩ =>
      cases gap with
      | true =>
          refine ⟨s, rfl, ?_⟩
          unfold Inv
          rw [hrun]
          refine ⟨by omega, (hgap.mp rfl).lt_size, fun j hj hj' => ?_, hq⟩
          rcases Nat.lt_succ_iff_lt_or_eq.mp hj' with hlt | rfl
          · exact hm j hj hlt
          · exact hgap.mp rfl
      | false =>
          obtain ⟨s', heq, hnone, hq'⟩ := closeRun_spec hfit hai hle hm hq
          refine ⟨s', heq, ?_⟩
          unfold Inv
          rw [hnone]
          exact hq'.next fun hm => absurd (hgap.mpr hm) (by simp)

/-- The whole scan, which ends with every byte dealt with. -/
theorem scan_spec (hfit : Fits c tile) :
    ∃ s, (List.range (c.size + 1)).foldlM (scanByte c tile) ⟨none, none, ⟨[], 0, 0, 0⟩⟩ = some s ∧
      Queued c tile (c.size + 1) s.pending s.report.requests := by
  have h0 : Inv c tile 0 ⟨none, none, ⟨[], 0, 0, 0⟩⟩ := ⟨rfl, fun i hi => absurd hi (Nat.not_lt_zero i)⟩
  obtain ⟨s, hs, hinv⟩ := foldlM_range h0 (c.size + 1) fun i hi t ht => ht.step hfit hi
  refine ⟨s, hs, ?_⟩
  unfold Inv at hinv
  match s.runStart, hinv with
  | none, hq => exact hq
  | some a, ⟨_, hle, _⟩ => omega

theorem Sent.exact {lim : ℕ} {rs : List Request} (h : Sent c tile lim rs)
    (hcov : ∀ i, c.Missing i → ∃ r ∈ rs, r.Has i) : Exact c tile rs where
  disjoint := by
    refine h.ordered.imp fun {a b} hab i => ?_
    rintro ⟨ha, hb⟩
    have := ha.2
    have := hb.1
    omega
  aligned := h.aligned
  capped := h.capped
  covered := hcov
  needed := h.needed

/-- Without an overflow the plan is exact. -/
theorem reportGaps_of_fits (c : Coverage) (maxDl : ℤ) (hfit : Fits c (tileOf maxDl)) :
    ∃ rep, reportGaps c maxDl = some rep ∧ Exact c (tileOf maxDl) rep.requests := by
  obtain ⟨s, hs, hq⟩ := scan_spec hfit
  have hreached : ∀ i, c.Missing i → i < c.size + 1 := fun i hi => by
    have := hi.lt_size
    omega
  unfold reportGaps
  dsimp only
  rw [hs]
  match hpend : s.pending, hq with
  | none, ⟨hrs, hnone⟩ =>
      refine ⟨s.report, by simp [hpend], ?_⟩
      rw [hrs]
      exact (Sent.empty 0).exact fun i hi => absurd hi (hnone i (hreached i hi))
  | some (cs, ce), ⟨hp, hsent, hcov⟩ =>
      obtain ⟨ts, rep', hemit, hreq, ht⟩ := hp.emitRun hfit s.report
      refine ⟨rep', by simp [hpend, hemit], ?_⟩
      rw [hreq]
      refine (hsent.append hp ht le_rfl).exact fun i hi => ?_
      rcases hcov i (hreached i hi) hi with ⟨r, hr, hhas⟩ | hin
      · exact ⟨r, List.mem_append_left _ hr, hhas⟩
      · obtain ⟨r, hr, hhas⟩ := ht.covers i hin.1 hin.2
        exact ⟨r, List.mem_append_right _ hr, hhas⟩

theorem closeRun_fits {size a b : ℕ} {s s' : Scan} (h : closeRun size tile a b s = some s')
    (hs : ∀ r ∈ s.report.requests, r.offset + tile.val ≤ 2 ^ 63 - 1) :
    ∀ r ∈ s'.report.requests, r.offset + tile.val ≤ 2 ^ 63 - 1 := by
  unfold closeRun at h
  dsimp only at h
  generalize (if size < (b + 195 - 1) / 195 * 195 then size else (b + 195 - 1) / 195 * 195) = sb at h
  split at h
  · obtain rfl := Option.some.inj h
    exact hs
  · rename_i cs ce _
    by_cases hjoin : a / 195 * 195 ≤ ce
    · rw [if_pos hjoin] at h
      obtain rfl := Option.some.inj h
      exact hs
    · rw [if_neg hjoin] at h
      obtain ⟨rep, hrep, h⟩ := Option.bind_eq_some_iff.mp h
      obtain rfl := Option.some.inj h
      exact emitTiles_fits _ _ hrep hs

/-- Every printed command starts where a tile still fits. -/
theorem reportGaps_fits {maxDl : ℤ} {rep : Report} (h : reportGaps c maxDl = some rep) :
    ∀ r ∈ rep.requests, r.offset + (tileOf maxDl).val ≤ 2 ^ 63 - 1 := by
  obtain ⟨s, hs, h⟩ := Option.bind_eq_some_iff.mp h
  have hscan : ∀ r ∈ s.report.requests, r.offset + (tileOf maxDl).val ≤ 2 ^ 63 - 1 := by
    refine foldlM_stays (P := fun s : Scan => ∀ r ∈ s.report.requests, r.offset + (tileOf maxDl).val ≤ 2 ^ 63 - 1)
      (fun t i u ht hu => ?_) _ (fun r hr => absurd hr List.not_mem_nil) hs
    unfold scanByte at hu
    dsimp only at hu
    split at hu
    · split_ifs at hu <;> exact Option.some.inj hu ▸ ht
    · split_ifs at hu
      · exact Option.some.inj hu ▸ ht
      · exact closeRun_fits hu ht
  split at h
  · exact Option.some.inj h ▸ hscan
  · exact emitTiles_fits _ _ h hscan

/-- In an exact plan a command starts wherever a stretch of packets does. -/
theorem Exact.starts {rs : List Request} (h : Exact c tile rs) {k : ℕ} (hk : c.Starts k) :
    ∃ r ∈ rs, r.offset = 195 * k := by
  obtain ⟨⟨i, hi, hik⟩, hprev⟩ := hk
  obtain ⟨r, hr, hhas⟩ := h.covered i hi
  have hal := h.aligned r hr
  have hlo := hhas.1
  have hhi := hhas.2
  refine ⟨r, hr, ?_⟩
  by_contra hne
  -- otherwise the command also asks for the packet before
  have hbefore : r.Has (195 * k - 1) := ⟨by omega, by omega⟩
  exact hprev (k - 1) (by omega) ((show (195 * k - 1) / 195 = k - 1 by omega) ▸ h.needed r hr _ hbefore)

/-- **The re-download plan.** The printed commands are disjoint, start on the packet grid, stay within the tile, cover
every missing byte and ask for no packet that arrived whole, exactly when the tile can be added to every offset at
which a stretch of packets to be downlinked starts. -/
theorem reportGaps_exact_iff (c : Coverage) (maxDl : ℤ) :
    (∃ rep, reportGaps c maxDl = some rep ∧ Exact c (tileOf maxDl) rep.requests) ↔
      ∀ k, c.Starts k → 195 * k + (tileOf maxDl).val ≤ 2 ^ 63 - 1 := by
  constructor
  · rintro ⟨rep, hrep, hexact⟩ k hk
    obtain ⟨r, hr, hoff⟩ := hexact.starts hk
    have := reportGaps_fits hrep r hr
    omega
  · exact reportGaps_of_fits c maxDl

/-- A file whose last byte is missing. -/
def allButLast (n : ℕ) : List Bool := List.replicate n true ++ [false]

theorem length_allButLast (n : ℕ) : (allButLast n).length = n + 1 := by simp [allButLast]

theorem getElem?_allButLast (n i : ℕ) : (allButLast n)[i]? = some false ↔ i = n := by
  unfold allButLast
  rcases Nat.lt_trichotomy i n with h | rfl | h
  · simp [List.getElem?_append_left, h, h.ne]
  · simp
  · simp [List.getElem?_append_right, h.le, h.ne', Nat.sub_ne_zero_of_lt h]

/-- One byte in its second packet is missing. -/
def secondPacket : Coverage := ⟨allButLast 195, by rw [length_allButLast]; decide⟩

theorem secondPacket_starts : secondPacket.Starts 1 := by
  refine ⟨⟨195, (getElem?_allButLast 195 195).mpr rfl, rfl⟩, ?_⟩
  rintro k' hk' ⟨i, hi, hik⟩
  have := (getElem?_allButLast 195 i).mp hi
  omega

/-- `--max-download=9223372036854775807` : the end of the first command overflows. -/
theorem reportGaps_overflow :
    ¬ ∀ (c : Coverage) (maxDl : ℤ), 195 ≤ maxDl → maxDl ≤ 2 ^ 63 - 1 →
      ∃ rep, reportGaps c maxDl = some rep ∧ Exact c (tileOf maxDl) rep.requests := by
  intro h
  obtain ⟨rep, hrep, hexact⟩ := h secondPacket (2 ^ 63 - 1) (by decide) (by decide)
  obtain ⟨r, hr, hoff⟩ := hexact.starts secondPacket_starts
  have hfits := reportGaps_fits hrep r hr
  have htile : (tileOf (2 ^ 63 - 1)).val = 9223372036854775800 := by decide
  omega

end SimpleSatOps.MpiReconstruct
