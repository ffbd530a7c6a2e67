import Mathlib.Data.List.GetD
import Mathlib.Data.List.SplitBy
import Mathlib.Order.Lex
import Mathlib.Tactic
import SimpleSatOps.Proto.GnssFrag

/-!
# Grouping stored fragments into receptions

The loop that `gnss_reports`, `gnss_opm` and `mag_reports` share over the rows of a query ordered by `ts_sent`.

* `Row`, `Loop`, `grouping` : a stored packet, the locals of the loop, and the groups it hands over;
* `splitBy_concat`, `splitBy_concat_of_not` : one more entry of a list that is cut by a relation;
* `grouping_eq` : the groups are the visited rows cut where the number does not advance;
* `Carries` : a stretch of rows holds the message;
* `Laid`, `Laid.yields_iff` : the buffer after an ascending stretch of rows;
* `grouping_complete_iff` : when a complete response survives.
-/

namespace SimpleSatOps.Grouping

open GnssFrag

/-- A row of the query; what `gnss_frag_t` copies is read off it. -/
structure Row where
  id : ℤ
  tsReceived : List UInt8
  payload : List UInt8

/-! ## The source -/

/-- `tcmd_resp_ts_sent`. -/
def Row.key (r : Row) : List UInt8 := slice r.payload 1 8

/-- `tcmd_resp_seq`. -/
def Row.seq (r : Row) : ℕ := (r.payload.getD 12 0).toNat

/-- The part of `gnss_frag_t` that is reassembled. -/
def Row.frag (r : Row) : Frag := ⟨r.payload, r.seq⟩

/-- The locals of the loop, and the groups handed over so far; no `curkey` is `have_key == 0`. -/
structure Loop where
  recv : List Row
  curkey : Option (List UInt8)
  lastSeq : ℕ
  groups : List (List Row)

/-- `FLUSH()`. -/
def Loop.flush (s : Loop) : Loop :=
  if 0 < s.recv.length then { s with recv := [], groups := s.groups ++ [s.recv] } else s

/-- The two `continue`s of the loop. -/
def Row.visited (r : Row) : Bool := 15 ≤ r.payload.length && 1 ≤ r.seq

/-- The body of the loop, after the `continue`s; `recv` has 260 slots. -/
def Loop.visit (s : Loop) (r : Row) : Loop :=
  let s :=
    if s.curkey ≠ some r.key then { s.flush with curkey := some r.key, lastSeq := 0 }
    else if r.seq ≤ s.lastSeq then s.flush else s
  let s := if 260 ≤ s.recv.length then s.flush else s
  { s with recv := s.recv ++ [r], lastSeq := r.seq }

def Loop.step (s : Loop) (r : Row) : Loop := if r.visited then s.visit r else s

def grouping (rows : List Row) : List (List Row) := ((rows.foldl Loop.step ⟨[], none, 0, []⟩).flush).groups

/-! ## Lists cut by a relation -/

section
variable {α : Type*} {r : α → α → Bool} {l : List α} {gs : List (List α)} {g : List α} {a b : α}

theorem splitBy_concat_of_not (h : l.splitBy r = gs ++ [g]) (ha : g.getLast? = some a) (hab : r a b = false) :
    (l ++ [b]).splitBy r = gs ++ [g] ++ [[b]] := by
  have hl : l = gs.flatten ++ g := by
    rw [← List.flatten_splitBy r l, h]
    simp
  rw [List.splitBy_append_cons, h]
  · rfl
  · intro x hx
    have hlast : l.getLast? = some a := by
      rw [hl, List.getLast?_append, ha]
      rfl
    rw [Option.some.inj (hx.symm.trans hlast)]
    exact hab

theorem splitBy_concat (h : l.splitBy r = gs ++ [g]) (ha : g.getLast? = some a) (hab : r a b = true) :
    (l ++ [b]).splitBy r = gs ++ [g ++ [b]] := by
  obtain ⟨hl, hnil, hchain, hcut⟩ := List.splitBy_eq_iff.mp h
  have hg : g ≠ [] := by
    rintro rfl
    exact hnil (by simp)
  rw [List.isChain_append] at hcut
  refine List.splitBy_eq_iff.mpr ⟨?_, ?_, ?_, ?_⟩
  · rw [hl, List.flatten_append, List.flatten_append]
    simp
  · intro hmem
    rcases List.mem_append.mp hmem with hmem | hmem
    · exact hnil (List.mem_append_left _ hmem)
    · simp at hmem
  · refine List.forall_mem_append.mpr ⟨fun m hm => hchain m (List.mem_append_left _ hm), ?_⟩
    refine List.forall_mem_singleton.mpr (List.isChain_append.mpr ⟨hchain g (by simp), List.isChain_singleton b, ?_⟩)
    intro x hx y hy
    rw [Option.some.inj (hx.symm.trans ha), ← Option.some.inj hy]
    exact hab
  · refine List.isChain_append.mpr ⟨hcut.1, List.isChain_singleton _, fun x hx y hy => ?_⟩
    obtain ⟨hxne, _, hcutx⟩ := hcut.2.2 x hx g rfl
    obtain rfl := Option.some.inj hy
    refine ⟨hxne, by simp, ?_⟩
    rwa [List.head_append_of_ne_nil hg]

end

/-! ## The loop -/

/-- Two rows of one response whose number advances. -/
def advances (a b : Row) : Bool := a.key = b.key && a.seq < b.seq

theorem seq_lt (r : Row) : r.seq < 256 := UInt8.toNat_lt _

/-- The numbers of a stretch ascend, so a stretch fits into the 260 slots. -/
theorem length_lt_of_ascending {g : List Row} (h : g.Pairwise fun a b => a.seq < b.seq) : g.length < 260 := by
  have hnodup : (g.map Row.seq).Nodup := by
    rw [List.nodup_iff_pairwise_ne, List.pairwise_map]
    exact h.imp fun hab => hab.ne
  have hsub : g.map Row.seq ⊆ List.range 256 := by
    intro n hn
    obtain ⟨r, _, rfl⟩ := List.mem_map.mp hn
    exact List.mem_range.mpr (seq_lt r)
  have hle := (List.subperm_of_subset hnodup hsub).length_le
  rw [List.length_map, List.length_range] at hle
  omega

theorem ascending_of_chain {g : List Row} (h : g.IsChain fun a b => advances a b = true) :
    g.Pairwise fun a b => a.seq < b.seq := by
  have hlt : g.IsChain fun a b => a.seq < b.seq := h.imp fun a b hab => by
    unfold advances at hab
    simp only [Bool.and_eq_true, decide_eq_true_eq] at hab
    exact hab.2
  exact List.isChain_iff_pairwise.mp hlt

/-- The groups handed over and the open one are the rows so far, cut where the number does not advance. -/
structure Inv (rows : List Row) (s : Loop) : Prop where
  empty : rows = [] → s = ⟨[], none, 0, []⟩
  split : rows ≠ [] → rows.splitBy advances = s.groups ++ [s.recv]
  last : ∀ a ∈ rows.getLast?, s.recv.getLast? = some a ∧ s.curkey = some a.key ∧ s.lastSeq = a.seq

theorem Inv.visit {rows : List Row} {s : Loop} (h : Inv rows s) (r : Row) : Inv (rows ++ [r]) (s.visit r) := by
  have hne : rows ++ [r] ≠ [] := by simp
  cases hlast : rows.getLast? with
  | none =>
      obtain rfl := List.getLast?_eq_none_iff.mp hlast
      obtain rfl := h.empty rfl
      refine ⟨fun h' => absurd h' hne, fun _ => rfl, ?_⟩
      intro a ha
      obtain rfl := Option.some.inj ha
      exact ⟨rfl, rfl, rfl⟩
  | some a =>
      obtain ⟨hrecv, hkey, hseq⟩ := h.last a hlast
      have hrows : rows ≠ [] := by
        rintro rfl
        simp at hlast
      have hsplit := h.split hrows
      have hpos : 0 < s.recv.length := by
        rw [List.length_pos_iff]
        intro hnil
        simp [hnil] at hrecv
      have hroom : s.recv.length < 260 :=
        length_lt_of_ascending (ascending_of_chain (List.isChain_of_mem_splitBy (by rw [hsplit]; simp)))
      have hflush : s.flush = { s with recv := [], groups := s.groups ++ [s.recv] } := if_pos hpos
      have hgetLast : (rows ++ [r]).getLast? = some r := List.getLast?_concat
      cases hab : advances a r with
      | true =>
          obtain ⟨hk, hlt⟩ : a.key = r.key ∧ a.seq < r.seq := by
            unfold advances at hab
            simpa using hab
          have hvisit : s.visit r = { s with recv := s.recv ++ [r], lastSeq := r.seq } := by
            unfold Loop.visit
            rw [if_neg (by rw [hkey, hk]; exact fun h => h rfl), if_neg (by omega)]
            dsimp only
            rw [if_neg (by omega)]
          rw [hvisit]
          refine ⟨fun h' => absurd h' hne, fun _ => splitBy_concat hsplit hrecv hab, fun b hb => ?_⟩
          rw [hgetLast] at hb
          obtain rfl := Option.some.inj hb
          exact ⟨List.getLast?_concat, by rw [hkey, hk], rfl⟩
      | false =>
          have hvisit : s.visit r = ⟨[r], some r.key, r.seq, s.groups ++ [s.recv]⟩ := by
            unfold Loop.visit
            by_cases hk : a.key = r.key
            · have hle : r.seq ≤ s.lastSeq := by
                unfold advances at hab
                simp only [hk, decide_true, Bool.true_and, decide_eq_false_iff_not] at hab
                omega
              rw [if_neg (by rw [hkey, hk]; exact fun h => h rfl), if_pos hle, hflush]
              dsimp only
              rw [if_neg (by simp), hkey, hk]
              rfl
            · have hne' : s.curkey ≠ some r.key := by
                rw [hkey]
                exact fun h => hk (Option.some.inj h)
              rw [if_pos hne', hflush]
              dsimp only
              rw [if_neg (by simp)]
              rfl
          rw [hvisit]
          refine ⟨fun h' => absurd h' hne, fun _ => splitBy_concat_of_not hsplit hrecv hab, fun b hb => ?_⟩
          rw [hgetLast] at hb
          obtain rfl := Option.some.inj hb
          exact ⟨rfl, rfl, rfl⟩

theorem foldl_step (rows : List Row) : ∀ {done : List Row} {s : Loop}, Inv done s →
    Inv (done ++ rows.filter Row.visited) (rows.foldl Loop.step s) := by
  induction rows with
  | nil =>
      intro done s h
      simpa using h
  | cons r rows ih =>
      intro done s h
      rw [List.foldl_cons]
      unfold Loop.step
      cases hv : r.visited with
      | true =>
          rw [List.filter_cons_of_pos hv, List.append_cons]
          exact ih (h.visit r)
      | false =>
          rw [List.filter_cons_of_neg (by simp [hv])]
          exact ih h

/-- The groups are the visited rows, cut where the key changes or the number does not advance. -/
theorem grouping_eq (rows : List Row) : grouping rows = (rows.filter Row.visited).splitBy advances := by
  have hinv : Inv (rows.filter Row.visited) (rows.foldl Loop.step ⟨[], none, 0, []⟩) := by
    have h0 : Inv [] ⟨[], none, 0, []⟩ := ⟨fun _ => rfl, fun h => absurd rfl h, fun a ha => by simp at ha⟩
    simpa using foldl_step rows h0
  unfold grouping
  generalize rows.foldl Loop.step ⟨[], none, 0, []⟩ = s at hinv ⊢
  by_cases hne : rows.filter Row.visited = []
  · rw [hne] at hinv ⊢
    obtain rfl := hinv.empty rfl
    rfl
  · rw [hinv.split hne]
    obtain ⟨a, ha⟩ := Option.ne_none_iff_exists'.mp (mt List.getLast?_eq_none_iff.mp hne)
    have hpos : 0 < s.recv.length := by
      rw [List.length_pos_iff]
      intro hnil
      have := (hinv.last a ha).1
      simp [hnil] at this
    unfold Loop.flush
    rw [if_pos hpos]

/-! ## The rows of one response -/

/-- The key as `memcmp` compares it. -/
def Row.rank (r : Row) : List ℕ := r.key.map UInt8.toNat

theorem rank_eq {a b : Row} : a.rank = b.rank ↔ a.key = b.key :=
  (List.map_injective_iff.mpr fun _ _ h => UInt8.toNat_inj.mp h).eq_iff

/-- `ORDER BY` the key first. -/
def Ordered (rows : List Row) : Prop := rows.Pairwise fun a b => a.rank ≤ b.rank

/-- The visited rows with the key `k`, in the order of the query. -/
def rowsOf (rows : List Row) (k : List UInt8) : List Row := (rows.filter Row.visited).filter fun r => r.key = k

/-- Sorted rows are the ones below a rank, the ones of this rank and the ones above. -/
theorem ordered_split (k : List ℕ) : ∀ {rows : List Row}, Ordered rows →
    ∃ pre post, rows = pre ++ rows.filter (fun r => r.rank = k) ++ post ∧ (∀ r ∈ pre, r.rank < k) ∧
      ∀ r ∈ post, k < r.rank
  | [], _ => ⟨[], [], rfl, fun _ h => absurd h List.not_mem_nil, fun _ h => absurd h List.not_mem_nil⟩
  | r :: rows, h => by
      have hcons := List.pairwise_cons.mp h
      obtain ⟨pre, post, hrows, hpre, hpost⟩ := ordered_split k hcons.2
      rcases lt_trichotomy r.rank k with hlt | heq | hgt
      · refine ⟨r :: pre, post, ?_, List.forall_mem_cons.mpr ⟨hlt, hpre⟩, hpost⟩
        rw [List.filter_cons_of_neg (by simpa using hlt.ne), List.cons_append, List.cons_append, ← hrows]
      · have hnil : pre = [] := by
          refine List.eq_nil_iff_forall_not_mem.mpr fun p hp => ?_
          have hmem : p ∈ rows := by
            rw [hrows]
            exact List.mem_append_left _ (List.mem_append_left _ hp)
          exact absurd ((heq ▸ hcons.1 p hmem).trans_lt (hpre p hp)) (lt_irrefl _)
        refine ⟨[], post, ?_, fun _ h => absurd h List.not_mem_nil, hpost⟩
        rw [hnil, List.nil_append] at hrows
        rw [List.filter_cons_of_pos (by simpa using heq), List.nil_append, List.cons_append, ← hrows]
      · have hall : ∀ r' ∈ r :: rows, k < r'.rank :=
          List.forall_mem_cons.mpr ⟨hgt, fun r' hr' => hgt.trans_le (hcons.1 r' hr')⟩
        refine ⟨[], r :: rows, ?_, fun _ h => absurd h List.not_mem_nil, hall⟩
        rw [List.filter_eq_nil_iff.mpr fun r' hr' => by simpa using (hall r' hr').ne']
        rfl

/-- The groups of one key are its rows, cut where the number does not advance. -/
theorem mem_grouping_iff {rows : List Row} (h : Ordered rows) {k : List UInt8} {g : List Row} :
    (g ∈ grouping rows ∧ ∀ r ∈ g, r.key = k) ↔ g ∈ (rowsOf rows k).splitBy advances := by
  have hsorted : Ordered (rows.filter Row.visited) := h.sublist List.filter_sublist
  obtain ⟨pre, post, heq, hpre, hpost⟩ := ordered_split (k.map UInt8.toNat) hsorted
  have hrank : ∀ r : Row, r.rank = k.map UInt8.toNat ↔ r.key = k := fun r =>
    (List.map_injective_iff.mpr fun _ _ h => UInt8.toNat_inj.mp h).eq_iff
  have hrows : (rows.filter Row.visited).filter (fun r => r.rank = k.map UInt8.toNat) = rowsOf rows k := by
    unfold rowsOf
    refine List.filter_congr fun r _ => ?_
    simp only [hrank]
  rw [hrows] at heq
  have hkey : ∀ r ∈ rowsOf rows k, r.key = k := fun r hr => by simpa using (List.mem_filter.mp hr).2
  have hpre' : ∀ r ∈ pre, r.key ≠ k := fun r hr hk => (hpre r hr).ne ((hrank r).mpr hk)
  have hpost' : ∀ r ∈ post, r.key ≠ k := fun r hr hk => (hpost r hr).ne' ((hrank r).mpr hk)
  have hcut : ∀ a b : Row, a.key ≠ b.key → advances a b = false := fun a b hab => by simp [advances, hab]
  have hsplit : grouping rows =
      pre.splitBy advances ++ (rowsOf rows k).splitBy advances ++ post.splitBy advances := by
    rw [grouping_eq, heq, List.splitBy_append, List.splitBy_append]
    · intro a ha b hb
      exact hcut a b fun hab => hpre' a (List.mem_of_getLast? ha) (hab.trans (hkey b (List.mem_of_head? hb)))
    · intro a ha b hb
      refine hcut a b fun hab => ?_
      have hb' := hpost b (List.mem_of_head? hb)
      have hab' : a.rank = b.rank := rank_eq.mpr hab
      rcases List.mem_append.mp (List.mem_of_getLast? ha) with hm | hm
      · exact lt_asymm hb' (hab' ▸ hpre a hm)
      · exact hpost' b (List.mem_of_head? hb) (hab.symm.trans (hkey a hm))
  have hmem : ∀ {l : List Row}, g ∈ l.splitBy advances → ∀ r ∈ g, r ∈ l := fun {l} hg r hr => by
    rw [← List.flatten_splitBy advances l]
    exact List.mem_flatten.mpr ⟨g, hg, hr⟩
  have hother : ∀ {l : List Row}, (∀ r ∈ l, r.key ≠ k) → g ∈ l.splitBy advances → ¬ ∀ r ∈ g, r.key = k := by
    intro l hl hg hall
    obtain ⟨r, hr⟩ := List.exists_mem_of_ne_nil g (List.ne_nil_of_mem_splitBy hg)
    exact hl r (hmem hg r hr) (hall r hr)
  rw [hsplit]
  constructor
  · rintro ⟨hg, hall⟩
    rcases List.mem_append.mp hg with hg | hg
    · rcases List.mem_append.mp hg with hg | hg
      · exact absurd hall (hother hpre' hg)
      · exact hg
    · exact absurd hall (hother hpost' hg)
  · exact fun hg => ⟨List.mem_append_left _ (List.mem_append_right _ hg), fun r hr => hkey r (hmem hg r hr)⟩

/-! ## An ascending stretch of rows -/

/-- The response bytes of a row. -/
def Row.data (r : Row) : List UInt8 := slice r.payload 14 186

/-- The row has the piece `k` of the message, up to NULs at its end when more pieces follow. -/
def Row.Fits (msg : List UInt8) (r : Row) (k : ℕ) : Prop :=
  r.seq = k + 1 ∧ ∃ n, piece msg k = r.data ++ List.replicate n 0 ∧ (k + 1 = numFrags msg → n = 0)

/-- The stretch has every piece of the message, except for pieces of NULs before the last one, and no further row. -/
def Carries (msg : List UInt8) (g : List Row) : Prop :=
  (∀ k < numFrags msg, (∃ r ∈ g, r.Fits msg k) ∨
    ((∀ r ∈ g, r.seq ≠ k + 1) ∧ k + 1 < numFrags msg ∧ ∀ v ∈ piece msg k, v = 0)) ∧
  ∀ r ∈ g, r.seq ≤ numFrags msg

/-- `static unsigned char buf[65536]`. -/
def reportBuf : OutBuf := outBuf 65535 (by decide)

theorem length_reportBuf : reportBuf.bytes.length = 65536 := List.length_replicate

theorem Row.visited_iff {r : Row} : r.visited = true ↔ 15 ≤ r.payload.length ∧ 1 ≤ r.seq := by
  unfold Row.visited
  simp

theorem length_data (r : Row) : r.data.length = min 186 (r.payload.length - 14) := by
  simp [Row.data, slice]

theorem place_row {r : Row} (hv : r.visited = true) {st : ℕ × List UInt8} (hcap : st.2.length = 65536) :
    place st r.frag =
      some (max st.1 (186 * (r.seq - 1) + r.data.length), patch st.2 (186 * (r.seq - 1)) r.data) := by
  obtain ⟨hlen, hseq⟩ := Row.visited_iff.mp hv
  have hlt := seq_lt r
  have hdata := length_data r
  have hdl : (if 186 < r.payload.length - 14 then 186 else r.payload.length - 14) = r.data.length := by
    split_ifs <;> omega
  have hoff : ((r.seq : ℤ) - 1) * 186 = ((186 * (r.seq - 1) : ℕ) : ℤ) := by omega
  have hslice : slice r.payload 14 r.data.length = r.data := by
    have hmin : min r.data.length (r.payload.drop 14).length = min 186 (r.payload.drop 14).length := by
      rw [List.length_drop]
      omega
    unfold Row.data slice at *
    exact List.take_eq_take_iff.mpr hmin
  unfold place
  dsimp only [Row.frag]
  rw [hdl, hoff, Int.toNat_natCast, if_neg (by omega), if_neg (by omega)]
  unfold copyAt
  rw [if_neg (by omega), if_pos ⟨by omega, by omega⟩, hslice]
  have hmax : (if st.1 < 186 * (r.seq - 1) + r.data.length then 186 * (r.seq - 1) + r.data.length else st.1) =
      max st.1 (186 * (r.seq - 1) + r.data.length) := by
    split_ifs <;> omega
  show some _ = _
  rw [hmax]

/-- The buffer after the rows of an ascending stretch: each one in its slot, NULs elsewhere. -/
structure Laid (g : List Row) (st : ℕ × List UInt8) : Prop where
  length : st.2.length = 65536
  data : ∀ r ∈ g, ∀ i < 186, st.2[186 * (r.seq - 1) + i]? = some (r.data.getD i 0)
  free : ∀ j < 65536, (∀ r ∈ g, r.seq ≠ j / 186 + 1) → st.2[j]? = some 0
  total : ∀ r ∈ g.getLast?, st.1 = 186 * (r.seq - 1) + r.data.length
  total_nil : g = [] → st.1 = 0

theorem Laid.concat {g : List Row} {st : ℕ × List UInt8} (h : Laid g st) {r : Row} (hv : r.visited = true)
    (hlt : ∀ a ∈ g, 1 ≤ a.seq ∧ a.seq < r.seq) : ∃ st', place st r.frag = some st' ∧ Laid (g ++ [r]) st' := by
  have hseq := (Row.visited_iff.mp hv).2
  have hbyte := seq_lt r
  have hdata := length_data r
  have hroom : 186 * (r.seq - 1) + r.data.length ≤ st.2.length := by
    rw [h.length]
    omega
  have hget := getElem?_patch hroom
  refine ⟨_, place_row hv h.length, (length_patch hroom).trans h.length, ?_, ?_, ?_, fun hnil => by simp at hnil⟩
  · refine List.forall_mem_append.mpr ⟨fun a ha i hi => ?_, List.forall_mem_singleton.mpr fun i hi => ?_⟩
    · have := hlt a ha
      show (patch st.2 (186 * (r.seq - 1)) r.data)[186 * (a.seq - 1) + i]? = _
      rw [hget, if_neg (by omega)]
      exact h.data a ha i hi
    · show (patch st.2 (186 * (r.seq - 1)) r.data)[186 * (r.seq - 1) + i]? = _
      rw [hget]
      by_cases hin : i < r.data.length
      · rw [if_pos ⟨by omega, by omega⟩, Nat.add_sub_cancel_left, List.getElem?_eq_getElem hin,
          List.getD_eq_getElem _ 0 hin]
      · rw [if_neg (by omega), List.getD_eq_default _ 0 (by omega)]
        refine h.free _ (by omega) fun a ha => ?_
        have := hlt a ha
        omega
  · intro j hj hnone
    have hne := hnone r (by simp)
    show (patch st.2 (186 * (r.seq - 1)) r.data)[j]? = _
    rw [hget, if_neg (by omega)]
    exact h.free j hj fun a ha => hnone a (List.mem_append_left _ ha)
  · intro a ha
    rw [List.getLast?_concat] at ha
    obtain rfl := Option.some.inj ha
    refine max_eq_right ?_
    cases hlast : g.getLast? with
    | none => exact (h.total_nil (List.getLast?_eq_none_iff.mp hlast)).trans_le (Nat.zero_le _)
    | some b =>
        have hb := hlt b (List.mem_of_getLast? hlast)
        have hbd := length_data b
        rw [h.total b hlast]
        omega

theorem laid_of_ascending : ∀ {g : List Row} {done : List Row} {st : ℕ × List UInt8}, Laid done st →
    (∀ r ∈ done ++ g, r.visited = true) → (done ++ g).Pairwise (fun a b => a.seq < b.seq) →
    ∃ st', (g.map Row.frag).foldlM place st = some st' ∧ Laid (done ++ g) st'
  | [], done, st, h, _, _ => ⟨st, rfl, by simpa using h⟩
  | r :: g, done, st, h, hv, hasc => by
      have hlt : ∀ a ∈ done, 1 ≤ a.seq ∧ a.seq < r.seq := fun a ha =>
        ⟨(Row.visited_iff.mp (hv a (List.mem_append_left _ ha))).2,
          (List.pairwise_append.mp hasc).2.2 a ha r List.mem_cons_self⟩
      obtain ⟨st₁, heq₁, h₁⟩ := h.concat (hv r (by simp)) hlt
      rw [List.append_cons] at hv hasc ⊢
      obtain ⟨st₂, heq₂, h₂⟩ := laid_of_ascending h₁ hv hasc
      exact ⟨st₂, by rw [List.map_cons, List.foldlM_cons, heq₁]; exact heq₂, h₂⟩

/-- The stretch gives the message exactly when it carries it. -/
theorem Laid.yields_iff {g : List Row} {st : ℕ × List UInt8} (h : Laid g st) (hne : g ≠ [])
    (hv : ∀ r ∈ g, r.visited = true) (hasc : g.Pairwise fun a b => a.seq < b.seq) {msg : List UInt8}
    (hmax : numFrags msg ≤ 255) : Yields (st.1, st.2.set st.1 0) msg ↔ Carries msg g := by
  have hnum : numFrags msg = (msg.length + 185) / 186 := rfl
  obtain ⟨z, hz⟩ := Option.ne_none_iff_exists'.mp (mt List.getLast?_eq_none_iff.mp hne)
  have hzg := List.mem_of_getLast? hz
  have htotal := h.total z hz
  have hzd := length_data z
  obtain ⟨hzlen, hzseq⟩ := Row.visited_iff.mp (hv z hzg)
  have hle : ∀ r ∈ g, r = z ∨ r.seq < z.seq := by
    intro r hr
    obtain ⟨init, rfl⟩ : ∃ init, g = init ++ [z] := ⟨_, (List.dropLast_append_getLast? z hz).symm⟩
    rcases List.mem_append.mp hr with hr | hr
    · exact .inr ((List.pairwise_append.mp hasc).2.2 r hr z (by simp))
    · exact .inl (List.mem_singleton.mp hr)
  have hzle : ∀ r ∈ g, r.seq ≤ z.seq := fun r hr => by
    rcases hle r hr with rfl | hlt
    · exact le_rfl
    · exact hlt.le
  rw [yields_iff_bytes (by rw [h.length]; omega)]
  constructor
  · rintro ⟨hlen, hbyte⟩
    have hlast : z.seq = numFrags msg := by omega
    refine ⟨fun k hk => ?_, fun r hr => hlast ▸ hzle r hr⟩
    have hpiece : ∀ i < (piece msg k).length, (piece msg k)[i]? = st.2[186 * k + i]? := by
      intro i hi
      rw [length_piece] at hi
      rw [getElem?_piece (by omega), hbyte _ (by omega)]
    by_cases hex : ∃ r ∈ g, r.seq = k + 1
    · obtain ⟨r, hr, hrk⟩ := hex
      have hrd := length_data r
      have hfit : r.data.length ≤ (piece msg k).length ∧
          (k + 1 = numFrags msg → r.data.length = (piece msg k).length) := by
        rw [length_piece]
        rcases hle r hr with rfl | hlt <;> omega
      refine .inl ⟨r, hr, hrk, (piece msg k).length - r.data.length, List.ext_getElem? fun i => ?_, fun hk' => ?_⟩
      · by_cases hi : i < (piece msg k).length
        · have hi' : i < 186 := by
            rw [length_piece] at hi
            omega
          have hdata := h.data r hr i hi'
          rw [hrk, Nat.add_sub_cancel] at hdata
          rw [hpiece i hi, hdata]
          by_cases hin : i < r.data.length
          · rw [List.getElem?_append_left hin, List.getElem?_eq_getElem hin, List.getD_eq_getElem _ 0 hin]
          · rw [List.getElem?_append_right (by omega), List.getElem?_replicate, if_pos (by omega),
              List.getD_eq_default _ 0 (by omega)]
        · rw [List.getElem?_eq_none (by omega), List.getElem?_eq_none]
          rw [List.length_append, List.length_replicate]
          omega
      · have := hfit.2 hk'
        omega
    · have hnone : ∀ r ∈ g, r.seq ≠ k + 1 := fun r hr hrk => hex ⟨r, hr, hrk⟩
      refine .inr ⟨hnone, ?_, fun v hv => ?_⟩
      · have := hnone z hzg
        omega
      · obtain ⟨i, hi⟩ := List.mem_iff_getElem?.mp hv
        have hlt := (List.getElem?_eq_some_iff.mp hi).1
        have hlt' := hlt
        rw [length_piece] at hlt'
        have hfree := h.free (186 * k + i) (by omega) fun r hr => by
          have := hnone r hr
          omega
        rw [hpiece i hlt, hfree] at hi
        exact (Option.some.inj hi).symm
  · rintro ⟨hall, hbelow⟩
    have hpos : numFrags msg ≠ 0 := by
      have := hbelow z hzg
      omega
    -- the last piece is carried by the last row
    have hlast : z.seq = numFrags msg ∧ piece msg (z.seq - 1) = z.data := by
      rcases hall (numFrags msg - 1) (by omega) with ⟨r, hr, hrk, n, hp, hn⟩ | ⟨_, hlt, _⟩
      · have := hbelow z hzg
        rcases hle r hr with rfl | hlt
        · rw [hn (by omega), List.replicate_zero, List.append_nil] at hp
          exact ⟨by omega, by rw [hrk]; exact hp⟩
        · omega
      · omega
    have hplen := congrArg List.length hlast.2
    rw [length_piece] at hplen
    refine ⟨by omega, fun j hj => ?_⟩
    have hmod : 186 * (j / 186) + j % 186 = j := Nat.div_add_mod j 186
    have hget : (piece msg (j / 186))[j % 186]? = msg[j]? := by
      rw [getElem?_piece (by omega), hmod]
    rw [← hget]
    rcases hall (j / 186) (by omega) with ⟨r, hr, hrk, n, hp, _⟩ | ⟨hnone, _, hzero⟩
    · have hdata := h.data r hr (j % 186) (by omega)
      rw [hrk, Nat.add_sub_cancel, hmod] at hdata
      have hlen : j % 186 < (piece msg (j / 186)).length := by
        rw [length_piece]
        omega
      rw [hdata, hp]
      by_cases hin : j % 186 < r.data.length
      · rw [List.getElem?_append_left hin, List.getElem?_eq_getElem hin, List.getD_eq_getElem _ 0 hin]
      · rw [hp, List.length_append, List.length_replicate] at hlen
        rw [List.getElem?_append_right (by omega), List.getElem?_replicate, if_pos (by omega),
          List.getD_eq_default _ 0 (by omega)]
    · rw [h.free j (by omega) hnone, hget, List.getElem?_eq_getElem hj,
        hzero _ (getElem_mem_piece (List.getElem?_eq_getElem hj))]

/-- A stretch in which every fragment of the message arrived intact. -/
theorem carries_of_intact {g : List Row} {msg : List UInt8} (hall : ∀ r ∈ g, ∃ k, IsFrag msg r.frag k)
    (hevery : ∀ k < numFrags msg, ∃ r ∈ g, IsFrag msg r.frag k) : Carries msg g := by
  have hseq : ∀ (r : Row) k, IsFrag msg r.frag k → r.seq = k + 1 := by
    intro r k h
    have := h.seq
    dsimp only [Row.frag] at this
    omega
  have hdata : ∀ (r : Row) k, IsFrag msg r.frag k → r.data = piece msg k := by
    intro r k h
    obtain ⟨header, trailer, hh, hp, ht⟩ := h.payload
    have hlen := length_piece msg k
    have hpay : r.payload = header ++ (piece msg k ++ trailer) := by
      rw [← List.append_assoc]
      exact hp
    unfold Row.data slice
    rw [hpay, List.drop_left' hh]
    by_cases hfull : (piece msg k).length < 186
    · rw [ht hfull, List.append_nil, List.take_of_length_le hfull.le]
    · exact List.take_left' (by omega)
  refine ⟨fun k hk => ?_, fun r hr => ?_⟩
  · obtain ⟨r, hr, hrk⟩ := hevery k hk
    exact .inl ⟨r, hr, hseq r k hrk, 0, by rw [hdata r k hrk]; simp, fun _ => rfl⟩
  · obtain ⟨k, hrk⟩ := hall r hr
    rw [hseq r k hrk]
    exact hrk.lt

theorem reassemble_stretch {g : List Row} (hne : g ≠ []) (hv : ∀ r ∈ g, r.visited = true)
    (hasc : g.Pairwise fun a b => a.seq < b.seq) {msg : List UInt8} (hmax : numFrags msg ≤ 255) :
    (∃ out, gnssReassemble (g.map Row.frag) reportBuf = some out ∧ Yields out msg) ↔ Carries msg g := by
  have h0 : Laid [] (0, List.replicate 65536 0) :=
    ⟨List.length_replicate, fun _ h => absurd h List.not_mem_nil,
      fun j hj _ => by rw [List.getElem?_replicate, if_pos hj], fun _ h => by simp at h, fun _ => rfl⟩
  obtain ⟨st, heq, h⟩ := laid_of_ascending h0 (g := g) hv hasc
  rw [List.nil_append] at h
  have htotal : st.1 < 65536 := by
    obtain ⟨z, hz⟩ := Option.ne_none_iff_exists'.mp (mt List.getLast?_eq_none_iff.mp hne)
    have := seq_lt z
    have := length_data z
    rw [h.total z hz]
    omega
  have hrun : gnssReassemble (g.map Row.frag) reportBuf = some (st.1, st.2.set st.1 0) := by
    unfold gnssReassemble
    dsimp only
    rw [length_reportBuf, heq]
    show (store st.2 (if 65536 ≤ st.1 then 65536 - 1 else st.1) 0).bind _ = _
    rw [if_neg (by omega), store_of_lt (by rw [h.length]; exact htotal)]
    rfl
  rw [hrun, ← h.yields_iff hne hv hasc hmax]
  constructor
  · rintro ⟨out, hout, hyields⟩
    exact Option.some.inj hout ▸ hyields
  · exact fun hyields => ⟨_, rfl, hyields⟩

/-- **Receptions.** Every visited row is in exactly one group, and a group of one `ts_sent` gives the complete message
exactly when some stretch of its rows, cut where the number does not advance, carries every piece of it. -/
theorem grouping_complete_iff {rows : List Row} (hord : Ordered rows) (k : List UInt8) {msg : List UInt8}
    (hmax : numFrags msg ≤ 255) :
    (grouping rows).flatten = rows.filter Row.visited ∧
      ((∃ g ∈ grouping rows, (∀ r ∈ g, r.key = k) ∧
          ∃ out, gnssReassemble (g.map Row.frag) reportBuf = some out ∧ Yields out msg) ↔
        ∃ g ∈ (rowsOf rows k).splitBy advances, Carries msg g) := by
  refine ⟨by rw [grouping_eq, List.flatten_splitBy], ?_⟩
  have hstretch : ∀ g ∈ (rowsOf rows k).splitBy advances,
      ((∃ out, gnssReassemble (g.map Row.frag) reportBuf = some out ∧ Yields out msg) ↔ Carries msg g) := by
    intro g hg
    refine reassemble_stretch (List.ne_nil_of_mem_splitBy hg) (fun r hr => ?_)
      (ascending_of_chain (List.isChain_of_mem_splitBy hg)) hmax
    have hmem : r ∈ rowsOf rows k := by
      rw [← List.flatten_splitBy advances (rowsOf rows k)]
      exact List.mem_flatten.mpr ⟨g, hg, hr⟩
    exact (List.mem_filter.mp (List.mem_filter.mp hmem).1).2
  constructor
  · rintro ⟨g, hg, hkey, hyields⟩
    have hg' := (mem_grouping_iff hord).mp ⟨hg, hkey⟩
    exact ⟨g, hg', (hstretch g hg').mp hyields⟩
  · rintro ⟨g, hg, hcarries⟩
    obtain ⟨hg', hkey⟩ := (mem_grouping_iff hord).mpr hg
    exact ⟨g, hg', hkey, (hstretch g hg).mpr hcarries⟩

/-- The packet number `seq` of two, with `n` letters. -/
def letterRow (seq : UInt8) (n : ℕ) : Row :=
  ⟨0, [], [4, 0, 0, 0, 0, 0, 0, 0, 0, 0, 0, 0, seq, 2] ++ List.replicate n 65⟩

theorem visited_letterRow {seq : UInt8} {n : ℕ} (hseq : 1 ≤ seq.toNat) (hn : 1 ≤ n) :
    (letterRow seq n).visited = true := by
  refine Row.visited_iff.mpr ⟨?_, hseq⟩
  unfold letterRow
  rw [List.length_append, List.length_replicate]
  show 15 ≤ 14 + n
  omega

theorem isFrag_letterRow {n k : ℕ} {seq : UInt8} (h : 186 * k < n) (hseq : seq.toNat = k + 1) :
    IsFrag (List.replicate n 65) (letterRow seq (min 186 (n - 186 * k))).frag k where
  lt := by
    unfold numFrags
    rw [List.length_replicate]
    omega
  seq := by
    show ((seq.toNat : ℕ) : ℤ) = k + 1
    omega
  payload := ⟨_, [], rfl, by rw [piece_replicate, List.append_nil]; rfl, fun _ => rfl⟩

theorem numFrags_letters : numFrags (List.replicate 187 65) = 2 := by
  unfold numFrags
  rw [List.length_replicate]

/-- The two packets of one response in any order. -/
theorem rowsOf_letters {a b : Row} (ha : a.visited = true) (hb : b.visited = true) {k : List UInt8} (hak : a.key = k)
    (hbk : b.key = k) : rowsOf [a, b] k = [a, b] ∧ Ordered [a, b] := by
  constructor
  · simp [rowsOf, ha, hb, hak, hbk]
  · have hle : a.rank ≤ b.rank := (rank_eq.mpr (hak.trans hbk.symm)).le
    exact List.pairwise_pair.mpr hle

/-- Both packets in order. -/
theorem grouping_complete_two :
    ∃ g ∈ grouping [letterRow 1 186, letterRow 2 1], (∀ r ∈ g, r.key = List.replicate 8 0) ∧
      ∃ out, gnssReassemble (g.map Row.frag) reportBuf = some out ∧ Yields out (List.replicate 187 65) := by
  have h0 : IsFrag (List.replicate 187 65) (letterRow 1 186).frag 0 :=
    isFrag_letterRow (n := 187) (k := 0) (by decide) rfl
  have h1 : IsFrag (List.replicate 187 65) (letterRow 2 1).frag 1 :=
    isFrag_letterRow (n := 187) (k := 1) (by decide) rfl
  have hv₁ : (letterRow 1 186).visited = true := visited_letterRow (by decide) (by decide)
  have hv₂ : (letterRow 2 1).visited = true := visited_letterRow (by decide) (by decide)
  obtain ⟨hrows, hord⟩ := rowsOf_letters (k := List.replicate 8 0) hv₁ hv₂ rfl rfl
  have hmax : numFrags (List.replicate 187 (65 : UInt8)) ≤ 255 := by
    rw [numFrags_letters]
    decide
  refine ((grouping_complete_iff hord (List.replicate 8 0) hmax).2).mpr ⟨[letterRow 1 186, letterRow 2 1], ?_, ?_⟩
  · rw [hrows, List.splitBy_of_isChain (List.cons_ne_nil _ _) (List.isChain_pair.mpr rfl)]
    exact List.mem_singleton_self _
  · refine carries_of_intact ?_ fun k hk => ?_
    · exact List.forall_mem_cons.mpr ⟨⟨0, h0⟩, List.forall_mem_singleton.mpr ⟨1, h1⟩⟩
    · rw [numFrags_letters] at hk
      rcases (show k = 0 ∨ k = 1 by omega) with rfl | rfl
      · exact ⟨_, by simp, h0⟩
      · exact ⟨_, by simp, h1⟩

/-- The second packet was received before the first one. -/
theorem grouping_incomplete :
    ¬ ∀ (rows : List Row) (k msg : List UInt8), Ordered rows → numFrags msg ≤ 255 →
      (∀ i < numFrags msg, ∃ r ∈ rowsOf rows k, IsFrag msg r.frag i) →
      ∃ g ∈ grouping rows, (∀ r ∈ g, r.key = k) ∧
        ∃ out, gnssReassemble (g.map Row.frag) reportBuf = some out ∧ Yields out msg := by
  intro h
  have h0 : IsFrag (List.replicate 187 65) (letterRow 1 186).frag 0 :=
    isFrag_letterRow (n := 187) (k := 0) (by decide) rfl
  have h1 : IsFrag (List.replicate 187 65) (letterRow 2 1).frag 1 :=
    isFrag_letterRow (n := 187) (k := 1) (by decide) rfl
  have hv₁ : (letterRow 1 186).visited = true := visited_letterRow (by decide) (by decide)
  have hv₂ : (letterRow 2 1).visited = true := visited_letterRow (by decide) (by decide)
  obtain ⟨hrows, hord⟩ := rowsOf_letters (k := List.replicate 8 0) hv₂ hv₁ rfl rfl
  have hmax : numFrags (List.replicate 187 (65 : UInt8)) ≤ 255 := by
    rw [numFrags_letters]
    decide
  obtain ⟨g, hg, hkey, hyields⟩ :=
    h [letterRow 2 1, letterRow 1 186] (List.replicate 8 0) (List.replicate 187 65) hord hmax fun i hi => by
      rw [numFrags_letters] at hi
      rw [hrows]
      rcases (show i = 0 ∨ i = 1 by omega) with rfl | rfl
      · exact ⟨_, by simp, h0⟩
      · exact ⟨_, by simp, h1⟩
  have hsplit := (mem_grouping_iff hord).mp ⟨hg, hkey⟩
  have hcut : [letterRow 2 1, letterRow 1 186].splitBy advances = [[letterRow 2 1]] ++ [[letterRow 1 186]] :=
    List.splitBy_append_cons (l := [letterRow 2 1]) [] fun x hx => by
      obtain rfl := Option.some.inj hx
      rfl
  rw [hrows, hcut] at hsplit
  -- each of the two groups lacks the other packet
  have hone : ∀ r : Row, r.visited = true → g = [r] → False := by
    rintro r hv rfl
    have hcarries := (reassemble_stretch (List.cons_ne_nil _ _) (List.forall_mem_singleton.mpr hv)
      (List.pairwise_singleton _ _) hmax).mp hyields
    have hseq : ∀ i < 2, r.seq = i + 1 := by
      intro i hi
      rcases hcarries.1 i (by rw [numFrags_letters]; exact hi) with ⟨r', hr', hfit⟩ | ⟨_, hlt, hzero⟩
      · rw [← List.mem_singleton.mp hr']
        exact hfit.1
      · have h65 : (65 : UInt8) ∈ piece (List.replicate 187 65) i := by
          rw [numFrags_letters] at hlt
          rw [piece_replicate, List.mem_replicate]
          exact ⟨by omega, rfl⟩
        exact absurd (hzero 65 h65) (by decide)
    have := hseq 0 (by decide)
    have := hseq 1 (by decide)
    omega
  rcases List.mem_append.mp hsplit with hg' | hg'
  · exact hone _ hv₂ (List.mem_singleton.mp hg')
  · exact hone _ hv₁ (List.mem_singleton.mp hg')

end SimpleSatOps.Grouping
