import Mathlib.Data.List.Forall2
import Mathlib.Data.List.Infix
import Mathlib.Tactic

/-!
# Searching a text

* `Occurs` : a key stands at a place of a text;
* `occurrences`, `occurs_unique` : how often it does, and that one occurrence is the only one;
* `strchr`, `strstr` : the text from the first occurrence on;
* `lastBefore` : the text from the last occurrence on that starts in front of a place, looked for from the left;
* `strchr_append`, `strstr_skip`, `lastBefore_append` : what is found when nothing stands in the way;
* `Occurs.of_forall₂` : a key without gaps that stands in a text with gaps stands in the text.
-/

namespace SimpleSatOps.Search

variable {α : Type*}

/-- The key stands at the place `i`. -/
def Occurs (key s : List α) (i : ℕ) : Prop := key <+: s.drop i

variable [DecidableEq α]

def occurrences (key : List α) : List α → ℕ
  | [] => 0
  | c :: s => (if key <+: c :: s then 1 else 0) + occurrences key s

/-- The text from the first `c` on. -/
def strchr (c : α) : List α → Option (List α)
  | [] => none
  | d :: s => if d = c then some (d :: s) else strchr c s

/-- The text from the first occurrence on, of a key that is not empty. -/
def strstr (key : List α) : List α → Option (List α)
  | [] => none
  | c :: s => if key <+: c :: s then some (c :: s) else strstr key s

/-- The text from the last occurrence on that starts with more than `k` elements left. The search goes from the left,
behind an occurrence with the element behind it; `skip` elements are still to be passed over. -/
def lastBefore (key : List α) (k : ℕ) : (skip : ℕ) → (best : Option (List α)) → List α → Option (List α)
  | _, best, [] => best
  | skip + 1, best, _ :: s => lastBefore key k skip best s
  | 0, best, c :: s =>
      if key <+: c :: s then
        if k < s.length + 1 then lastBefore key k (key.length - 1) (some (c :: s)) s else best
      else lastBefore key k 0 best s

/-! ## Occurrences -/

omit [DecidableEq α] in
theorem Occurs.add_le {key s : List α} {i : ℕ} (h : Occurs key s i) (hne : key ≠ []) : i + key.length ≤ s.length := by
  have hle := h.length_le
  have hpos := List.length_pos_of_ne_nil hne
  rw [List.length_drop] at hle
  omega

omit [DecidableEq α] in
theorem occurs_append_iff {key s : List α} {i : ℕ} (h : i + key.length ≤ s.length) (t : List α) :
    Occurs key (s ++ t) i ↔ Occurs key s i := by
  unfold Occurs
  rw [List.drop_append_of_le_length (by omega)]
  constructor
  · intro hk
    exact List.prefix_of_prefix_length_le hk (List.prefix_append _ t) (by rw [List.length_drop]; omega)
  · exact fun hk => hk.trans (List.prefix_append _ t)

omit [DecidableEq α] in
theorem occurs_length (x key y : List α) : Occurs key (x ++ (key ++ y)) x.length := by
  unfold Occurs
  rw [List.drop_left]
  exact List.prefix_append key y

omit [DecidableEq α] in
/-- An element that an occurrence covers is one of the key. -/
theorem Occurs.mem {key s : List α} {i j : ℕ} (h : Occurs key s i) (hij : i ≤ j) (hj : j < i + key.length) {c : α}
    (hc : s[j]? = some c) : c ∈ key := by
  obtain ⟨t, ht⟩ := h
  have hget : (s.drop i)[j - i]? = some c := by
    rw [List.getElem?_drop, Nat.add_sub_cancel' hij, hc]
  rw [← ht, List.getElem?_append_left (by omega)] at hget
  exact List.mem_of_getElem? hget

theorem occurrences_pos {key s : List α} {i : ℕ} (hne : key ≠ []) (h : Occurs key s i) : 0 < occurrences key s := by
  induction s generalizing i with
  | nil =>
      have hle := h.add_le hne
      have hpos := List.length_pos_of_ne_nil hne
      rw [List.length_nil] at hle
      omega
  | cons c s ih =>
      rw [occurrences]
      cases i with
      | zero => rw [if_pos (show key <+: c :: s from h)]; omega
      | succ i =>
          have hpos := ih (i := i) h
          omega

/-- One occurrence is the only one. -/
theorem occurs_unique {key s : List α} (hne : key ≠ []) (hone : occurrences key s ≤ 1) {i j : ℕ} (hi : Occurs key s i)
    (hj : Occurs key s j) : i = j := by
  induction s generalizing i j with
  | nil =>
      have hle := hi.add_le hne
      have hpos := List.length_pos_of_ne_nil hne
      rw [List.length_nil] at hle
      omega
  | cons c s ih =>
      rw [occurrences] at hone
      cases i with
      | zero =>
          cases j with
          | zero => rfl
          | succ j =>
              have hpos := occurrences_pos hne (show Occurs key s j from hj)
              rw [if_pos (show key <+: c :: s from hi)] at hone
              omega
      | succ i =>
          have hpos := occurrences_pos hne (show Occurs key s i from hi)
          cases j with
          | zero =>
              rw [if_pos (show key <+: c :: s from hj)] at hone
              omega
          | succ j => rw [ih (by omega) (show Occurs key s i from hi) (show Occurs key s j from hj)]

omit [DecidableEq α] in
/-- A key that no change of an element makes stands where it stood before. -/
theorem Occurs.of_forall₂ {R : α → α → Prop} {key s u : List α} {i : ℕ} (h : Occurs key u i)
    (hR : List.Forall₂ R s u) (hkey : ∀ c ∈ key, ∀ d, R d c → d = c) : Occurs key s i := by
  have htake := List.prefix_iff_eq_take.mp h
  have hpart := List.forall₂_take key.length (List.forall₂_drop i hR)
  rw [← htake] at hpart
  have heq : (s.drop i).take key.length = key := by
    generalize (s.drop i).take key.length = k at hpart
    clear htake h
    induction hpart with
    | nil => rfl
    | cons hcd _ ih => rw [hkey _ List.mem_cons_self _ hcd, ih fun c hc => hkey c (List.mem_cons_of_mem _ hc)]
  exact List.prefix_iff_eq_take.mpr heq.symm

/-! ## The first one -/

theorem strchr_append {c : α} {x : List α} (h : c ∉ x) (y : List α) : strchr c (x ++ c :: y) = some (c :: y) := by
  induction x with
  | nil => exact if_pos rfl
  | cons d x ih =>
      rw [List.mem_cons, not_or] at h
      rw [List.cons_append, strchr, if_neg (Ne.symm h.1), ih h.2]

theorem strstr_of_isPrefix {key y : List α} (hne : key ≠ []) (hkey : key <+: y) : strstr key y = some y := by
  cases y with
  | nil => exact absurd (List.prefix_nil.mp hkey) hne
  | cons c y => exact if_pos hkey

theorem strstr_skip {key x y : List α} (h : ∀ i < x.length, ¬ Occurs key (x ++ y) i) :
    strstr key (x ++ y) = strstr key y := by
  induction x with
  | nil => rfl
  | cons d x ih =>
      have hhead := h 0 (Nat.succ_pos _)
      rw [List.cons_append, strstr, if_neg (show ¬ key <+: d :: (x ++ y) from hhead)]
      exact ih fun i hi => h (i + 1) (Nat.succ_lt_succ hi)

/-- A key is not found in front of its first element. -/
theorem strstr_skip_of_not_mem {c : α} {x : List α} (hc : c ∉ x) (k y : List α) :
    strstr (c :: k) (x ++ y) = strstr (c :: k) y := by
  refine strstr_skip fun i hi h => ?_
  obtain ⟨t, ht⟩ := h
  rw [List.drop_append_of_le_length hi.le, List.drop_eq_getElem_cons hi] at ht
  injection ht with hhead
  exact hc (hhead ▸ List.getElem_mem hi)

theorem strstr_length_le {key s p : List α} (h : strstr key s = some p) : p.length ≤ s.length := by
  induction s with
  | nil => exact absurd h (Option.some_ne_none p).symm
  | cons c s ih =>
      rw [strstr] at h
      split_ifs at h
      · rw [← Option.some.inj h]
      · exact (ih h).trans (Nat.le_succ _)

theorem strstr_isSome {key s : List α} (hne : key ≠ []) (h : key <:+: s) : (strstr key s).isSome := by
  induction s with
  | nil => exact absurd (List.infix_nil.mp h) hne
  | cons c s ih =>
      rw [strstr]
      split_ifs with hhere
      · rfl
      · exact ih ((List.infix_cons_iff.mp h).resolve_left hhere)

/-! ## The last one -/

theorem lastBefore_none {key s : List α} {k : ℕ} (h : ∀ i, i + k < s.length → ¬ Occurs key s i) (skip : ℕ)
    (best : Option (List α)) : lastBefore key k skip best s = best := by
  induction s generalizing skip with
  | nil => cases skip <;> rfl
  | cons c s ih =>
      have hrest : ∀ i, i + k < s.length → ¬ Occurs key s i := fun i hi =>
        h (i + 1) (by rw [List.length_cons]; omega)
      cases skip with
      | succ skip => exact ih hrest skip
      | zero =>
          rw [lastBefore]
          split_ifs with hkey hk
          · exact absurd hkey (h 0 (by rw [List.length_cons]; omega))
          · rfl
          · exact ih hrest 0

/-- The last occurrence is found, as no occurrence overlaps another one. -/
theorem lastBefore_append {key x y : List α} {k skip : ℕ} (hborder : ∀ d < key.length, 0 < d → ¬ key.drop d <+: key)
    (hkey : key <+: y) (hk : k < y.length) (hlast : ∀ i, 0 < i → i + k < y.length → ¬ Occurs key y i)
    (hskip : skip ≤ x.length) (best : Option (List α)) : lastBefore key k skip best (x ++ y) = some y := by
  induction x generalizing skip best with
  | nil =>
      obtain rfl : skip = 0 := Nat.le_zero.mp hskip
      cases y with
      | nil => exact absurd hk (Nat.not_lt_zero k)
      | cons c y =>
          rw [List.nil_append, lastBefore, if_pos hkey, if_pos (show k < y.length + 1 from hk)]
          exact lastBefore_none (fun i hi => hlast (i + 1) (Nat.succ_pos i) (by rw [List.length_cons]; omega)) _ _
  | cons c x ih =>
      rw [List.length_cons] at hskip
      cases skip with
      | succ skip => exact ih (by omega) best
      | zero =>
          rw [List.cons_append, lastBefore]
          by_cases hhere : key <+: c :: (x ++ y)
          · have hroom : k < (x ++ y).length + 1 := by
              rw [List.length_append]
              omega
            have hlen : key.length ≤ x.length + 1 := by
              by_contra hlt
              have hover : key.drop (x.length + 1) <+: y := by
                have hdrop : key.drop (x.length + 1) <+: (c :: (x ++ y)).drop (x.length + 1) := hhere.drop _
                rwa [List.drop_succ_cons, List.drop_left] at hdrop
              refine hborder (x.length + 1) (by omega) (Nat.succ_pos _) ?_
              exact List.prefix_of_prefix_length_le hover hkey (by rw [List.length_drop]; omega)
            rw [if_pos hhere, if_pos hroom]
            exact ih (by omega) _
          · rw [if_neg hhere]
            exact ih (Nat.zero_le _) best

end SimpleSatOps.Search
