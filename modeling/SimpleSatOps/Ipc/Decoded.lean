import SimpleSatOps.Ipc.Decode
import SimpleSatOps.Lib.Fold

/-!
# Decoded events

* `fill` : the record after every key was looked for;
* `Keeps` : what the step of a key leaves alone;
* `fill_str`, `fill_dbl`, ... : each field is what the value of its own key makes of it;
* `fill_hasState` : which keys set `has_state`;
* `Event.WellFormed`, `wellFormed_of_decode` : what holds of the event of any line.
-/

namespace SimpleSatOps.Ipc
open JsonText JsonReader

/-- The loop over the keys. -/
def fill (get : List UInt8 → Found) (e : Event) : Event := slots.foldl (fun e s => step (get s.key) e s) e

theorem nodup_slots : slots.Nodup := (List.nodup_cons.mp (List.Nodup.of_map _ nodup_keys)).2

/-! ## Frames -/

/-- The step of the slot `s` keeps what is not its own. -/
structure Keeps (s : Slot) (e e' : Event) : Prop where
  type : e'.type = e.type
  str : ∀ f, s ≠ .str f → e'.str f = e.str f
  dbl : ∀ f, s ≠ .dbl f → e'.dbl f = e.dbl f
  int : ∀ f, s ≠ .int f → e'.int f = e.int f
  flag : ∀ f, s ≠ .flag f → e'.flag f = e.flag f
  roster : s ≠ .roster → e'.rosterJson = e.rosterJson
  payload : ∀ i, s ≠ .payload i → e'.rxPtPayload i = e.rxPtPayload i
  ribbonN : s ≠ .str .rxRibbon → e'.rxRibbonN = e.rxRibbonN
  ribbonPeak : s ≠ .ribbonPeak → e'.rxRibbonPeak = e.rxRibbonPeak

theorem Keeps.refl (s : Slot) (e : Event) : Keeps s e e where
  type := rfl
  str _ _ := rfl
  dbl _ _ := rfl
  int _ _ := rfl
  flag _ _ := rfl
  roster _ := rfl
  payload _ _ := rfl
  ribbonN _ := rfl
  ribbonPeak _ := rfl

theorem Keeps.mark {s : Slot} {e e' : Event} (h : Keeps s e e') (s' : Slot) (r : ℤ) : Keeps s e (e'.mark s' r) := by
  unfold Event.mark
  split_ifs
  · exact ⟨h.type, h.str, h.dbl, h.int, h.flag, h.roster, h.payload, h.ribbonN, h.ribbonPeak⟩
  · exact h

theorem Keeps.setStr (e : Event) (f : StrField) (buf : Bytes f.size) : Keeps (.str f) e (e.setStr f buf) :=
  { Keeps.refl (.str f) e with str := fun _ hf => Function.update_of_ne (fun h => hf (congrArg Slot.str h.symm)) _ _ }

theorem Keeps.setDbl (e : Event) (f : DblField) (x : Double) : Keeps (.dbl f) e (e.setDbl f x) :=
  { Keeps.refl (.dbl f) e with dbl := fun _ hf => Function.update_of_ne (fun h => hf (congrArg Slot.dbl h.symm)) _ _ }

theorem Keeps.setInt (e : Event) (f : IntField) (z : f.kind.Val) : Keeps (.int f) e (e.setInt f z) :=
  { Keeps.refl (.int f) e with int := fun _ hf => Function.update_of_ne (fun h => hf (congrArg Slot.int h.symm)) _ _ }

theorem Keeps.setFlag (e : Event) (f : FlagField) (b : Bool) : Keeps (.flag f) e (e.setFlag f b) :=
  { Keeps.refl (.flag f) e with
    flag := fun _ hf => Function.update_of_ne (fun h => hf (congrArg Slot.flag h.symm)) _ _ }

theorem Keeps.setPayload (e : Event) (i : Fin ptSlots) (buf : Bytes payloadMax) :
    Keeps (.payload i) e (e.setPayload i buf) :=
  { Keeps.refl (.payload i) e with
    payload := fun _ hi => Function.update_of_ne (fun h => hi (congrArg Slot.payload h.symm)) _ _ }

theorem keeps_step (v : Found) (e : Event) (s : Slot) : Keeps s e (step v e s) := by
  cases s with
  | type => exact .refl _ _
  | str f =>
      rw [step]
      show Keeps _ _ (ite _ _ _)
      split_ifs with h
      · have hk := (Keeps.setStr e f ⟨_, length_getString (e.str f).2 v⟩).mark (.str f)
          (getString (e.str f).1 f.size v).1
        exact { hk with ribbonN := fun hne => absurd (congrArg Slot.str h.2) hne }
      · exact (Keeps.setStr e f _).mark _ _
  | dbl f => exact (Keeps.setDbl e f _).mark _ _
  | int f =>
      rw [step]
      show Keeps _ _ (Event.mark (ite _ _ _) _ _)
      split_ifs
      · exact (Keeps.setInt e f _).mark _ _
      · exact (Keeps.refl _ e).mark _ _
  | flag f =>
      rw [step]
      show Keeps _ _ (ite _ _ _)
      split_ifs
      · exact .setFlag e f _
      · exact .refl _ e
  | roster =>
      have hk : Keeps .roster e { e with rosterJson := ⟨_, length_getRaw e.rosterJson.2 v⟩ } :=
        { Keeps.refl .roster e with roster := fun h => absurd rfl h }
      exact hk.mark _ _
  | payload i =>
      rw [step]
      show Keeps _ _ (ite _ _ _)
      split_ifs
      · exact .setPayload e i _
      · exact .refl _ e
  | ribbonPeak =>
      rw [step]
      show Keeps _ _ (ite _ _ _)
      split_ifs
      · exact { Keeps.refl .ribbonPeak e with ribbonPeak := fun h => absurd rfl h }
      · exact .refl _ e

/-! ## Own fields -/

@[simp] theorem mark_str (e : Event) (s : Slot) (r : ℤ) : (e.mark s r).str = e.str := by
  unfold Event.mark
  split_ifs <;> rfl

@[simp] theorem mark_dbl (e : Event) (s : Slot) (r : ℤ) : (e.mark s r).dbl = e.dbl := by
  unfold Event.mark
  split_ifs <;> rfl

@[simp] theorem mark_int (e : Event) (s : Slot) (r : ℤ) : (e.mark s r).int = e.int := by
  unfold Event.mark
  split_ifs <;> rfl

@[simp] theorem mark_rosterJson (e : Event) (s : Slot) (r : ℤ) : (e.mark s r).rosterJson = e.rosterJson := by
  unfold Event.mark
  split_ifs <;> rfl

/-- The array of a string field after its key. -/
def strOf (f : StrField) (v : Found) (buf : Bytes f.size) : Bytes f.size :=
  ⟨(getString buf.1 f.size v).2, length_getString buf.2 v⟩

def dblOf (f : DblField) (v : Found) (x : Double) : Double :=
  if (getDouble x v).1 ≤ 0 ∧ f = .rxAgeS then Double.minusOne else (getDouble x v).2

def intOf (f : IntField) (v : Found) (z : f.kind.Val) : f.kind.Val :=
  if 0 < (getInt 0 v).1 then f.kind.narrow (getInt 0 v).2 else z

def flagOf (v : Found) (b : Bool) : Bool := if 0 < (getBool false v).1 then (getBool false v).2 else b

def rosterOf (v : Found) (buf : Bytes rosterMax) : Bytes rosterMax :=
  ⟨(getRaw buf.1 rosterMax v).2, length_getRaw buf.2 v⟩

/-- An array of bytes after the key with its digits. -/
def hexOf {max : ℕ} (v : Found) (buf : Bytes max) : Bytes max :=
  let r := getString (zeros (max * 2 + 1)).1 (max * 2 + 1) v
  if 0 < r.1 then hexInto r.2 buf else buf

theorem step_str (v : Found) (e : Event) (f : StrField) : (step v e (.str f)).str f = strOf f v (e.str f) := by
  rw [step]
  show Event.str (ite _ _ _) f = _
  split_ifs <;> simp [Event.setStr, strOf]

theorem step_dbl (v : Found) (e : Event) (f : DblField) : (step v e (.dbl f)).dbl f = dblOf f v (e.dbl f) := by
  rw [step]
  simp [Event.setDbl, dblOf]

theorem step_int (v : Found) (e : Event) (f : IntField) : (step v e (.int f)).int f = intOf f v (e.int f) := by
  rw [step]
  show (Event.mark (ite _ _ _) _ _).int f = ite _ _ _
  split_ifs <;> simp [Event.setInt]

theorem step_flag (v : Found) (e : Event) (f : FlagField) : (step v e (.flag f)).flag f = flagOf v (e.flag f) := by
  rw [step]
  show Event.flag (ite _ _ _) f = ite _ _ _
  split_ifs
  · exact Function.update_self _ _ _
  · rfl

theorem step_roster (v : Found) (e : Event) : (step v e .roster).rosterJson = rosterOf v e.rosterJson := by
  rw [step]
  simp [rosterOf]

theorem step_payload (v : Found) (e : Event) (i : Fin ptSlots) :
    (step v e (.payload i)).rxPtPayload i = hexOf v (e.rxPtPayload i) := by
  rw [step]
  show Event.rxPtPayload (ite _ _ _) i = ite _ _ _
  split_ifs
  · exact Function.update_self _ _ _
  · rfl

theorem step_ribbonPeak (v : Found) (e : Event) : (step v e .ribbonPeak).rxRibbonPeak = hexOf v e.rxRibbonPeak := by
  rw [step]
  show Event.rxRibbonPeak (ite _ _ _) = ite _ _ _
  split_ifs <;> rfl

/-! ## After the loop -/

section
variable (get : List UInt8 → Found) (e : Event)

theorem fill_type : (fill get e).type = e.type := by
  apply foldl_stays (P := fun e' : Event => e'.type = e.type)
  · intro e' s h
    exact (keeps_step _ e' s).type.trans h
  · rfl

/-- A component that only the step of `s` touches. -/
theorem fill_proj {α : Type} (proj : Event → α) (s : Slot) (g : α → α) (hs : s ≠ .type)
    (hself : ∀ e, proj (step (get s.key) e s) = g (proj e))
    (hother : ∀ v e s', s' ≠ s → proj (step v e s') = proj e) : proj (fill get e) = g (proj e) := by
  have hstep : ∀ e s', s' ≠ s → proj (step (get (Slot.key s')) e s') = proj e := fun e s' h => hother _ e s' h
  apply @foldl_proj_of_mem Event Slot α (fun e s' => step (get s'.key) e s') proj s g hself hstep slots nodup_slots
  exact mem_slots hs

theorem fill_str (f : StrField) : (fill get e).str f = strOf f (get (Slot.str f).key) (e.str f) := by
  apply fill_proj get e (fun e => e.str f) (.str f) (strOf f (get (Slot.str f).key)) (by simp)
  · exact fun e => step_str _ e f
  · exact fun v e s hs => (keeps_step v e s).str f hs

theorem fill_dbl (f : DblField) : (fill get e).dbl f = dblOf f (get (Slot.dbl f).key) (e.dbl f) := by
  apply fill_proj get e (fun e => e.dbl f) (.dbl f) (dblOf f (get (Slot.dbl f).key)) (by simp)
  · exact fun e => step_dbl _ e f
  · exact fun v e s hs => (keeps_step v e s).dbl f hs

theorem fill_int (f : IntField) : (fill get e).int f = intOf f (get (Slot.int f).key) (e.int f) := by
  apply fill_proj get e (fun e => e.int f) (.int f) (intOf f (get (Slot.int f).key)) (by simp)
  · exact fun e => step_int _ e f
  · exact fun v e s hs => (keeps_step v e s).int f hs

theorem fill_flag (f : FlagField) : (fill get e).flag f = flagOf (get (Slot.flag f).key) (e.flag f) := by
  apply fill_proj get e (fun e => e.flag f) (.flag f) (flagOf (get (Slot.flag f).key)) (by simp)
  · exact fun e => step_flag _ e f
  · exact fun v e s hs => (keeps_step v e s).flag f hs

theorem fill_roster : (fill get e).rosterJson = rosterOf (get Slot.roster.key) e.rosterJson := by
  apply fill_proj get e Event.rosterJson .roster (rosterOf (get Slot.roster.key)) (by simp)
  · exact fun e => step_roster _ e
  · exact fun v e s hs => (keeps_step v e s).roster hs

theorem fill_payload (i : Fin ptSlots) :
    (fill get e).rxPtPayload i = hexOf (get (Slot.payload i).key) (e.rxPtPayload i) := by
  apply fill_proj get e (fun e => e.rxPtPayload i) (.payload i) (hexOf (get (Slot.payload i).key)) (by simp)
  · exact fun e => step_payload _ e i
  · exact fun v e s hs => (keeps_step v e s).payload i hs

theorem fill_ribbonPeak : (fill get e).rxRibbonPeak = hexOf (get Slot.ribbonPeak.key) e.rxRibbonPeak := by
  apply fill_proj get e Event.rxRibbonPeak .ribbonPeak (hexOf (get Slot.ribbonPeak.key)) (by simp)
  · exact fun e => step_ribbonPeak _ e
  · exact fun v e s hs => (keeps_step v e s).ribbonPeak hs

/-- The length of the ribbon after its key. -/
def ribbonOf (v : Found) (buf : Bytes StrField.rxRibbon.size) (n : IntKind.int.Val) : IntKind.int.Val :=
  if 0 < (getString buf.1 StrField.rxRibbon.size v).1 then ribbonLen (cstr (strOf .rxRibbon v buf).1).length else n

theorem step_ribbonN (v : Found) (e : Event) :
    (step v e (.str .rxRibbon)).rxRibbonN = ribbonOf v (e.str .rxRibbon) e.rxRibbonN := by
  rw [step]
  show Event.rxRibbonN (ite _ _ _) = _
  unfold ribbonOf
  by_cases hr : 0 < (getString (e.str .rxRibbon).1 StrField.rxRibbon.size v).1
  · rw [if_pos ⟨hr, rfl⟩, if_pos hr]
    rfl
  · rw [if_neg fun h => hr h.1, if_neg hr]
    unfold Event.mark
    split_ifs <;> rfl

/-- The ribbon and its length change together. -/
theorem fill_ribbonN :
    (fill get e).rxRibbonN = ribbonOf (get (Slot.str .rxRibbon).key) (e.str .rxRibbon) e.rxRibbonN := by
  have h := fill_proj get e (fun e => (e.str .rxRibbon, e.rxRibbonN)) (.str .rxRibbon)
    (fun p => (strOf .rxRibbon (get (Slot.str .rxRibbon).key) p.1, ribbonOf (get (Slot.str .rxRibbon).key) p.1 p.2))
    (by simp) (fun e => Prod.ext (step_str _ e _) (step_ribbonN _ e))
    (fun v e s hs => Prod.ext ((keeps_step v e s).str _ hs) ((keeps_step v e s).ribbonN hs))
  exact congrArg Prod.snd h

end

/-! ## The state flag -/

/-- The result code for a key. -/
def codeOf (v : Found) : Slot → ℤ
  | .type => 0
  | .str f => (getString (zeros f.size).1 f.size v).1
  | .dbl _ => (getDouble .zero v).1
  | .int _ => (getInt 0 v).1
  | .flag _ => (getBool false v).1
  | .roster => (getRaw (zeros rosterMax).1 rosterMax v).1
  | .payload _ => (getString (zeros (payloadMax * 2 + 1)).1 (payloadMax * 2 + 1) v).1
  | .ribbonPeak => (getString (zeros (ribbonMax * 2 + 1)).1 (ribbonMax * 2 + 1) v).1

/-- The key sets `has_state`. -/
def setsState (v : Found) (s : Slot) : Bool := decide (0 < codeOf v s) && marksState s

theorem getString_fst (out out' : List UInt8) (n : ℕ) (v : Found) : (getString out n v).1 = (getString out' n v).1 := by
  cases v with
  | absent => rfl
  | bad => rfl
  | found isStr v =>
      cases isStr with
      | false => rfl
      | true =>
          show (if (unescapeInto v out n).1 = true then (1 : ℤ) else -1) =
            if (unescapeInto v out' n).1 = true then 1 else -1
          unfold unescapeInto
          split_ifs <;> rfl

theorem getNumber_fst {α : Type} (parse : List UInt8 → Option α) (x y : α) (v : Found) :
    (getNumber parse x v).1 = (getNumber parse y v).1 := by
  cases v with
  | absent => rfl
  | bad => rfl
  | found isStr v =>
      rw [getNumber, getNumber]
      split_ifs
      · rfl
      · cases parse (cstr v) <;> rfl

theorem getRaw_fst (out out' : List UInt8) (n : ℕ) (v : Found) : (getRaw out n v).1 = (getRaw out' n v).1 := by
  cases v with
  | absent => rfl
  | bad => rfl
  | found isStr v =>
      rw [getRaw, getRaw]
      split_ifs <;> rfl

theorem mark_hasState (e : Event) (s : Slot) (r : ℤ) :
    (e.mark s r).hasState = (e.hasState || (decide (0 < r) && marksState s)) := by
  unfold Event.mark
  by_cases h : 0 < r ∧ marksState s = true
  · rw [if_pos h]
    simp [h.1, h.2]
  · rw [if_neg h]
    rw [not_and, Bool.not_eq_true] at h
    by_cases hr : 0 < r
    · simp [h hr]
    · simp [hr]

theorem step_hasState (v : Found) (e : Event) (s : Slot) :
    (step v e s).hasState = (e.hasState || setsState v s) := by
  cases s with
  | type => simp [step, setsState, codeOf]
  | str f =>
      rw [step, setsState, codeOf, getString_fst (zeros f.size).1 (e.str f).1]
      show Event.hasState (ite _ _ _) = _
      split_ifs <;> exact mark_hasState _ _ _
  | dbl f =>
      rw [step, setsState, codeOf, getDouble, getNumber_fst strtod .zero (e.dbl f)]
      exact mark_hasState _ _ _
  | int f =>
      rw [step, setsState, codeOf]
      show (Event.mark (ite _ _ _) _ _).hasState = _
      rw [mark_hasState]
      split_ifs <;> rfl
  | flag f =>
      rw [step]
      show Event.hasState (ite _ _ _) = _
      rw [show setsState v (.flag f) = false from Bool.and_false _, Bool.or_false]
      split_ifs <;> rfl
  | roster =>
      rw [step, setsState, codeOf, getRaw_fst (zeros rosterMax).1 e.rosterJson.1]
      exact mark_hasState _ _ _
  | payload i =>
      rw [step]
      show Event.hasState (ite _ _ _) = _
      rw [show setsState v (.payload i) = false from Bool.and_false _, Bool.or_false]
      split_ifs <;> rfl
  | ribbonPeak =>
      rw [step]
      show Event.hasState (ite _ _ _) = _
      rw [show setsState v .ribbonPeak = false from Bool.and_false _, Bool.or_false]
      split_ifs <;> rfl

theorem fill_hasState (get : List UInt8 → Found) (e : Event) :
    (fill get e).hasState = (e.hasState || slots.any fun s => setsState (get s.key) s) := by
  unfold fill
  generalize slots = l
  induction l generalizing e with
  | nil => exact (Bool.or_false _).symm
  | cons s l ih => rw [List.foldl_cons, ih, step_hasState, List.any_cons, Bool.or_assoc]

/-- Only the values of the keys matter. -/
theorem decode_congr {get get' : List UInt8 → Found} (ht : get Slot.type.key = get' Slot.type.key)
    (h : ∀ s ∈ slots, get s.key = get' s.key) : decode get = decode get' := by
  have hfold : ∀ e, slots.foldl (fun e s => step (get s.key) e s) e =
      slots.foldl (fun e s => step (get' s.key) e s) e := by
    intro e
    apply List.foldl_ext
    intro e s hs
    rw [h s hs]
  unfold decode
  rw [ht]
  simp only [hfold]

/-! ## The event of any line -/

/-- Every string ends in its array, and the ribbon has at most its array's length. -/
structure Event.WellFormed (e : Event) : Prop where
  str : ∀ f, 0 ∈ (e.str f).1
  roster : 0 ∈ e.rosterJson.1
  ribbonN_nonneg : 0 ≤ e.rxRibbonN.1
  ribbonN_le : e.rxRibbonN.1 ≤ ribbonMax

theorem nul_mem_getRaw {n : ℕ} (hn : 0 < n) (v : Found) : 0 ∈ (getRaw (zeros n).1 n v).2 := by
  have hzero : (0 : UInt8) ∈ (zeros n).1 := List.mem_replicate.mpr ⟨hn.ne', rfl⟩
  cases v with
  | absent => exact hzero
  | bad => exact hzero
  | found isStr v =>
      rw [getRaw]
      split_ifs
      · exact hzero
      · exact List.mem_append_left _ (List.mem_append_right _ List.mem_cons_self)
      · exact hzero
      · exact List.mem_append_left _ (List.mem_append_right _ List.mem_cons_self)

theorem ribbonOf_mem (v : Found) (buf : Bytes StrField.rxRibbon.size) :
    0 ≤ (ribbonOf v buf IntKind.int.zero).1 ∧ (ribbonOf v buf IntKind.int.zero).1 ≤ ribbonMax := by
  unfold ribbonOf
  split_ifs
  · exact ⟨le_min (Int.natCast_nonneg _) (Int.natCast_nonneg _), min_le_right _ _⟩
  · exact ⟨le_rfl, Int.natCast_nonneg _⟩

/-- Strings that do not fit, missing keys and lengths that say something else included. -/
theorem wellFormed_of_decode {get : List UInt8 → Found} {e : Event} (h : decode get = some e) : e.WellFormed := by
  unfold decode at h
  simp only at h
  split_ifs at h
  have he := Option.some.inj h
  change fill get _ = e at he
  subst he
  constructor
  · intro f
    rw [fill_str]
    exact nul_mem_getString (size_pos f) _
  · rw [fill_roster]
    exact nul_mem_getRaw (by decide) _
  · rw [fill_ribbonN]
    exact (ribbonOf_mem _ _).1
  · rw [fill_ribbonN]
    exact (ribbonOf_mem _ _).2

end SimpleSatOps.Ipc
