import SimpleSatOps.Hw.RotatorAsync

/-!
# The position after a stop

`stop_tracking` posts a STOP, kicks a STATUS and waits for the next position that is published, whenever it was asked
for.

* `Answers` : a STATUS that was written after a STOP;
* `Settled` : no STATUS of an iteration that began before the STOP is under way when the wait begins;
* `Tracked`, `Fresh` : where the STOP of `stop_tracking` is, and the invariant;
* `fresh_position` : in runs of such waits the position is the reply to a STATUS that was written after the STOP.
-/

namespace SimpleSatOps.Rotator

/-- The command at `pos` is a STATUS, and STOP number `n` was written before it. -/
def Answers (w : List Wire) (n pos : ℕ) : Prop := w[pos]? = some .status ∧ Wire.motion n .stop ∈ w.take pos

theorem Answers.append {w : List Wire} {n pos : ℕ} (h : Answers w n pos) (w' : List Wire) :
    Answers (w ++ w') n pos := by
  obtain ⟨hlt, -⟩ := List.getElem?_eq_some_iff.mp h.1
  refine ⟨(List.getElem?_append_left hlt).trans h.1, ?_⟩
  rw [List.take_append_of_le_length hlt.le]
  exact h.2

theorem answers_concat {w : List Wire} {n : ℕ} (h : Wire.motion n .stop ∈ w) :
    Answers (w ++ [.status]) n w.length := by
  refine ⟨List.getElem?_concat_length, ?_⟩
  rw [List.take_left]
  exact h

/-- The STOP `stop_tracking` has posted. -/
def Main.stop : Main → Option ℕ
  | .free => none
  | .posted n | .kicked n | .waiting n _ | .returned n _ => some n

/-- The STOP the main thread waits after, or has. -/
def Main.awaited : Main → Option ℕ
  | .waiting n _ | .returned n _ => some n
  | _ => none

/-- The number of requests there were when the iteration began. -/
def Worker.seen : Worker → ℕ
  | .writing seen _ _ _ | .reading seen _ | .replied seen _ _ _ => seen
  | _ => 0

/-- The worker will publish the reply to a STATUS of an iteration that began before request `n`. -/
def Worker.Stale (n : ℕ) : Worker → Prop
  | .writing seen _ _ doStatus => doStatus = true ∧ seen ≤ n
  | .reading seen _ => seen ≤ n
  | .replied seen _ reply _ => reply.isSome = true ∧ seen ≤ n
  | _ => False

/-- An iteration that began after STOP number `n` writes it before its STATUS, if it was not written already. -/
def Worker.Covers (w : List Wire) (n : ℕ) : Worker → Prop
  | .writing seen doStop _ _ => n < seen → doStop = some n ∨ Wire.motion n .stop ∈ w
  | .reading seen pos | .replied seen pos _ _ => n < seen → Answers w n pos
  | _ => True

/-- STOP number `n` is what the worker writes next. -/
def Worker.Holds (n : ℕ) : Worker → Prop
  | .writing _ doStop _ _ => doStop = some n
  | _ => False

namespace RotatorAsync
variable {s s' : RotatorAsync} {n : ℕ}

/-- When the wait begins, no STATUS of an iteration that began before the STOP is under way. -/
def Settled (s : RotatorAsync) : Action → Prop
  | .waitBegin => ∀ n, s.main = .kicked n → ¬ s.worker.Stale n
  | _ => True

/-- Where STOP number `n` is, and what was written before what. -/
structure Tracked (s : RotatorAsync) (n : ℕ) : Prop where
  lt : n < s.requests.length
  place : (s.stopCmdPending = true ∧ s.stopIdx = n) ∨ s.worker.Holds n ∨ Wire.motion n .stop ∈ s.wire
  covers : s.worker.Covers s.wire n
  snap : n < s.snapSeen → Answers s.wire n s.snapQuery

/-- Nothing that was asked for before the STOP is published once the wait has begun. -/
structure Fresh (s : RotatorAsync) : Prop where
  seen_le : s.worker.seen ≤ s.requests.length
  snap_le : s.snapSeen ≤ s.requests.length
  stop : ∀ n, s.main.stop = some n → s.Tracked n
  awaited : ∀ n, s.main.awaited = some n → ¬ s.worker.Stale n
  waiting : ∀ n t, s.main = .waiting n t → s.snapLastGood ≤ t ∨ n < s.snapSeen
  returned : ∀ n, s.main = .returned n true → n < s.snapSeen

theorem fresh_opened : opened.Fresh where
  seen_le := Nat.le_refl 0
  snap_le := Nat.le_refl 0
  stop := nofun
  awaited := nofun
  waiting := nofun
  returned := nofun

/-- A new request, with the main thread not in `stop_tracking`. -/
theorem Fresh.submit (h : s.Fresh) (hworker : s'.worker = s.worker) (hsnap : s'.snapSeen = s.snapSeen)
    (hlen : s.requests.length ≤ s'.requests.length) (hmain : s'.main = .free) : s'.Fresh where
  seen_le := by
    rw [hworker]
    exact h.seen_le.trans hlen
  snap_le := by
    rw [hsnap]
    exact h.snap_le.trans hlen
  stop n hn := by rw [hmain] at hn; cases hn
  awaited n hn := by rw [hmain] at hn; cases hn
  waiting n t hn := by rw [hmain] at hn; cases hn
  returned n hn := by rw [hmain] at hn; cases hn

/-- Whatever began before the STOP has not seen it. -/
theorem Fresh.stopTracking (h : s.Fresh) :
    Fresh { s.submitStop with main := .posted s.requests.length } where
  seen_le := by
    refine h.seen_le.trans ?_
    show s.requests.length ≤ (s.requests ++ [Motion.stop]).length
    rw [List.length_append]
    exact Nat.le_add_right _ _
  snap_le := by
    refine h.snap_le.trans ?_
    show s.requests.length ≤ (s.requests ++ [Motion.stop]).length
    rw [List.length_append]
    exact Nat.le_add_right _ _
  stop n hn := by
    obtain rfl := Option.some.inj hn
    refine ⟨?_, .inl ⟨rfl, rfl⟩, ?_, fun hlt => absurd hlt h.snap_le.not_gt⟩
    · show s.requests.length < (s.requests ++ [Motion.stop]).length
      rw [List.length_append]
      exact Nat.lt_succ_self _
    · have hseen := h.seen_le
      show s.worker.Covers s.wire s.requests.length
      cases hw : s.worker with
      | waiting | exited => trivial
      | writing seen doStop doSet doStatus =>
          rw [hw] at hseen
          exact fun hlt => absurd hlt hseen.not_gt
      | reading seen pos | replied seen pos reply mono =>
          rw [hw] at hseen
          exact fun hlt => absurd hlt hseen.not_gt
  awaited := nofun
  waiting := nofun
  returned := nofun

/-- The main thread goes on inside `stop_tracking`. -/
theorem Fresh.goOn (h : s.Fresh) {m : Main} (hstop : m.stop = s.main.stop)
    (hawaited : ∀ n, m.awaited = some n → ¬ s.worker.Stale n)
    (hwaiting : ∀ n t, m = .waiting n t → s.snapLastGood ≤ t ∨ n < s.snapSeen)
    (hreturned : ∀ n, m = .returned n true → n < s.snapSeen) : Fresh { s with main := m } where
  seen_le := h.seen_le
  snap_le := h.snap_le
  stop n hn := by
    obtain ⟨hlt, hplace, hcovers, hsnap⟩ := h.stop n (hstop ▸ hn)
    exact ⟨hlt, hplace, hcovers, hsnap⟩
  awaited := hawaited
  waiting := hwaiting
  returned := hreturned

/-- The wait returns 0 only when a position was published after it began. -/
theorem Fresh.waitWake (h : s.Fresh) {t : ℕ} (hmain : s.main = .waiting n t) (timedOut : Bool) :
    Fresh { s with
      main := match s.waitResult t timedOut with
        | none => .waiting n t
        | some ok => .returned n ok } := by
  have hawaited : ¬ s.worker.Stale n := h.awaited n (by rw [hmain]; rfl)
  cases hres : s.waitResult t timedOut with
  | none =>
      refine h.goOn (m := .waiting n t) (by rw [hmain]) ?_ ?_ nofun
      · rintro _ ⟨⟩
        exact hawaited
      · rintro _ _ ⟨⟩
        exact h.waiting n t hmain
  | some ok =>
      refine h.goOn (m := .returned n ok) (by rw [hmain]; rfl) ?_ nofun ?_
      · rintro _ ⟨⟩
        exact hawaited
      · rintro _ ⟨⟩
        unfold waitResult at hres
        split at hres
        · cases hres
        · have hgood := Option.some.inj hres
          rw [Bool.and_eq_true, decide_eq_true_eq] at hgood
          exact (h.waiting n t hmain).resolve_left hgood.1.not_ge

/-- What the worker does to its own state. -/
theorem Fresh.work (h : s.Fresh) (hreq : s'.requests = s.requests) (hmain : s'.main = s.main)
    (hsnap : s'.snapSeen = s.snapSeen) (hgood : s'.snapLastGood = s.snapLastGood)
    (hseen : s'.worker.seen ≤ s.requests.length)
    (hstop : ∀ n, s.Tracked n → s'.Tracked n)
    (hstale : ∀ n, s.Tracked n → s'.worker.Stale n → s.worker.Stale n) : s'.Fresh where
  seen_le := by
    rw [hreq]
    exact hseen
  snap_le := by
    rw [hreq, hsnap]
    exact h.snap_le
  stop n hn := by
    rw [hmain] at hn
    exact hstop n (h.stop n hn)
  awaited n hn hs' := by
    rw [hmain] at hn
    have hn' : s.main.stop = some n := by
      revert hn
      cases s.main <;> simp [Main.awaited, Main.stop]
    exact h.awaited n hn (hstale n (h.stop n hn') hs')
  waiting n t hn := by
    rw [hmain] at hn
    rw [hgood, hsnap]
    exact h.waiting n t hn
  returned n hn := by
    rw [hmain] at hn
    rw [hsnap]
    exact h.returned n hn

theorem Fresh.latch (h : s.Fresh) (hw : s.worker = .waiting) (elapsed : Bool) : (s.latch elapsed).Fresh := by
  refine h.work rfl rfl rfl rfl (Nat.le_refl _) ?_ ?_
  · intro n hn
    have htaken : (if s.stopCmdPending then some s.stopIdx else none) = some n ∨ Wire.motion n .stop ∈ s.wire := by
      rcases hn.place with ⟨hpending, hidx⟩ | hholds | hwritten
      · rw [if_pos hpending, hidx]
        exact .inl rfl
      · rw [hw] at hholds
        exact hholds.elim
      · exact .inr hwritten
    exact ⟨hn.lt, .inr htaken, fun _ => htaken, hn.snap⟩
  · rintro n hn ⟨-, hle⟩
    exact absurd hn.lt (Nat.not_lt_of_le hle)

theorem Fresh.exit (h : s.Fresh) (hw : s.worker = .waiting) : Fresh { s with worker := .exited } := by
  refine h.work rfl rfl rfl rfl (Nat.zero_le _) ?_ fun _ _ hstale => hstale.elim
  intro n hn
  refine ⟨hn.lt, ?_, trivial, hn.snap⟩
  rcases hn.place with hslot | hholds | hwritten
  · exact .inl hslot
  · rw [hw] at hholds
    exact hholds.elim
  · exact .inr (.inr hwritten)

theorem Fresh.write (h : s.Fresh) {seen : ℕ} {doStop : Option ℕ} {doSet : Option (ℕ × Double × Double)}
    {doStatus : Bool} (hw : s.worker = .writing seen doStop doSet doStatus) :
    (s.writeNext seen doStop doSet doStatus).Fresh := by
  have hseen := h.seen_le
  rw [hw] at hseen
  have htracked : ∀ n, s.Tracked n → (n < seen → doStop = some n ∨ Wire.motion n .stop ∈ s.wire) ∧
      ((s.stopCmdPending = true ∧ s.stopIdx = n) ∨ doStop = some n ∨ Wire.motion n .stop ∈ s.wire) := by
    intro n hn
    have hcovers := hn.covers
    have hplace := hn.place
    rw [hw] at hcovers hplace
    exact ⟨hcovers, hplace⟩
  have hmem : ∀ {n : ℕ} {w : List Wire}, Wire.motion n .stop ∈ s.wire → Wire.motion n .stop ∈ s.wire ++ w :=
    fun h => List.mem_append_left _ h
  cases doStop with
  | some k =>
      refine h.work rfl rfl rfl rfl hseen ?_ ?_
      · intro n hn
        obtain ⟨hcovers, hplace⟩ := htracked n hn
        have hwrites : some k = some n ∨ Wire.motion n .stop ∈ s.wire →
            Wire.motion n .stop ∈ s.wire ++ [.motion k .stop] := by
          rintro (⟨⟨⟩⟩ | hwritten)
          · exact List.mem_append_right _ (List.mem_singleton_self _)
          · exact hmem hwritten
        exact ⟨hn.lt, hplace.imp_right fun hp => .inr (hwrites hp), fun hlt => .inr (hwrites (hcovers hlt)),
          fun hlt => (hn.snap hlt).append _⟩
      · intro n _ hstale
        rw [hw]
        exact hstale
  | none =>
      cases doSet with
      | some p =>
          refine h.work rfl rfl rfl rfl hseen ?_ ?_
          · intro n hn
            obtain ⟨hcovers, hplace⟩ := htracked n hn
            exact ⟨hn.lt, hplace.imp_right (Or.imp_right hmem), fun hlt => (hcovers hlt).imp_right hmem,
              fun hlt => (hn.snap hlt).append _⟩
          · intro n _ hstale
            rw [hw]
            exact hstale
      | none =>
          cases doStatus with
          | true =>
              refine h.work rfl rfl rfl rfl hseen ?_ ?_
              · intro n hn
                obtain ⟨hcovers, hplace⟩ := htracked n hn
                exact ⟨hn.lt, hplace.imp_right fun hp => .inr (hmem (hp.resolve_left nofun)),
                  fun hlt => answers_concat ((hcovers hlt).resolve_left nofun), fun hlt => (hn.snap hlt).append _⟩
              · intro n _ hstale
                rw [hw]
                exact ⟨rfl, hstale⟩
          | false =>
              refine h.work rfl rfl rfl rfl (Nat.zero_le _) ?_ fun _ _ hstale => hstale.elim
              intro n hn
              exact ⟨hn.lt, (htracked n hn).2.imp_right fun hp => .inr (hp.resolve_left nofun), trivial, hn.snap⟩

theorem Fresh.reply (h : s.Fresh) {seen pos : ℕ} (hw : s.worker = .reading seen pos)
    (reply : Option (Double × Double)) (mono : ℕ) : Fresh { s with worker := .replied seen pos reply mono } := by
  have hseen := h.seen_le
  rw [hw] at hseen
  refine h.work rfl rfl rfl rfl hseen ?_ ?_
  · intro n hn
    have hcovers := hn.covers
    have hplace := hn.place
    rw [hw] at hcovers hplace
    exact ⟨hn.lt, hplace, hcovers, hn.snap⟩
  · rintro n - ⟨-, hle⟩
    rw [hw]
    exact hle

theorem Fresh.publish (h : s.Fresh) {seen pos mono : ℕ} {reply : Option (Double × Double)}
    (hw : s.worker = .replied seen pos reply mono) : (s.publish seen pos mono reply).Fresh := by
  have htracked : ∀ n, s.Tracked n → (n < seen → Answers s.wire n pos) ∧
      ((s.stopCmdPending = true ∧ s.stopIdx = n) ∨ Wire.motion n .stop ∈ s.wire) := by
    intro n hn
    have hcovers := hn.covers
    have hplace := hn.place
    rw [hw] at hcovers hplace
    exact ⟨hcovers, hplace.imp_right fun hp => hp.resolve_left id⟩
  cases reply with
  | none =>
      refine h.work rfl rfl rfl rfl (Nat.zero_le _) ?_ fun _ _ hstale => hstale.elim
      intro n hn
      exact ⟨hn.lt, (htracked n hn).2.imp_right .inr, trivial, hn.snap⟩
  | some p =>
      have hseen := h.seen_le
      rw [hw] at hseen
      -- The reply is not of an iteration that began before the STOP the main thread waits after.
      have hlate : ∀ n, s.main.awaited = some n → n < seen := by
        intro n hn
        have hstale := h.awaited n hn
        rw [hw] at hstale
        exact Nat.lt_of_not_le fun hle => hstale ⟨rfl, hle⟩
      exact {
        seen_le := Nat.zero_le _
        snap_le := hseen
        stop := fun n hn =>
          have hn := h.stop n hn
          ⟨hn.lt, (htracked n hn).2.imp_right .inr, trivial, (htracked n hn).1⟩
        awaited := fun _ _ hstale => hstale
        waiting := fun n t hn => .inr (hlate n (congrArg Main.awaited hn))
        returned := fun n hn => hlate n (congrArg Main.awaited hn) }

theorem Fresh.step {a : Action} (h : s.Fresh) (hok : s.Settled a) (hs : s.step a = some s') : s'.Fresh := by
  cases stepped hs with
  | submitSet az el hmain => exact h.submit rfl rfl (List.length_append ▸ Nat.le_add_right _ _) rfl
  | submitStop hmain => exact h.submit rfl rfl (List.length_append ▸ Nat.le_add_right _ _) rfl
  | kickStatus hmain => exact h.submit rfl rfl (Nat.le_refl _) rfl
  | close hmain => exact h.submit rfl rfl (Nat.le_refl _) rfl
  | stopTracking hmain => exact h.stopTracking
  | stopKick n hmain =>
      have hgone := h.goOn (m := .kicked n) (by rw [hmain]; rfl) nofun nofun nofun
      exact ⟨hgone.seen_le, hgone.snap_le, fun n hn =>
        have ht := hgone.stop n hn
        ⟨ht.lt, ht.place, ht.covers, ht.snap⟩, nofun, nofun, nofun⟩
  | waitBegin n hmain =>
      refine h.goOn (by rw [hmain]; rfl) ?_ ?_ nofun
      · rintro _ ⟨⟩
        exact hok n hmain
      · rintro _ _ ⟨⟩
        exact .inl (Nat.le_refl _)
  | waitWake timedOut n tEntry hmain => exact h.waitWake hmain timedOut
  | latch elapsed hw hrun => exact h.latch hw elapsed
  | exit hw hstop => exact h.exit hw
  | write seen doStop doSet doStatus hw => exact h.write hw
  | reply reply mono seen pos hw => exact h.reply hw reply mono
  | publish seen pos mono reply hw => exact h.publish hw

end RotatorAsync
open RotatorAsync

/-- When the wait of `stop_tracking` has returned 0, the snapshot holds the reply to a STATUS that was written after its
STOP, if no wait begins while a STATUS of an earlier iteration is under way. -/
theorem fresh_position {s : RotatorAsync} (h : Reaches RotatorAsync.step Settled opened s) {n : ℕ}
    (hret : s.main = .returned n true) :
    s.wire[s.snapQuery]? = some .status ∧ Wire.motion n .stop ∈ s.wire.take s.snapQuery := by
  have hinv : s.Fresh := h.invariant fresh_opened fun _ _ _ ht hok hs => ht.step hok hs
  have hstop : s.Tracked n := hinv.stop n (by rw [hret]; rfl)
  exact hstop.snap (hinv.returned n hret)

/-- The STOP is taken at once, and the STATUS after it answers. -/
theorem fresh_position_at_once : ∃ s : RotatorAsync, s.main = .returned 0 true ∧
    s.wire[s.snapQuery]? = some .status ∧ Wire.motion 0 .stop ∈ s.wire.take s.snapQuery := by
  have hkicked : Reaches RotatorAsync.step Settled opened _ :=
    (Reaches.refl.tail (a := Action.stopTracking) trivial rfl).tail (a := .stopKick) trivial rfl
  have hbegun : Reaches RotatorAsync.step Settled opened _ :=
    hkicked.tail (a := .waitBegin) (fun _ _ hstale => hstale) rfl
  have hread : Reaches RotatorAsync.step Settled opened _ :=
    ((hbegun.tail (a := Action.latch false) trivial rfl).tail (a := Action.write) trivial rfl).tail
      (a := .write) trivial rfl
  have hpublished : Reaches RotatorAsync.step Settled opened _ :=
    (hread.tail (a := Action.reply (some (.zero, .zero)) 1) trivial rfl).tail (a := .publish) trivial rfl
  have hrun : Reaches RotatorAsync.step Settled opened _ :=
    hpublished.tail (a := .waitWake false) trivial rfl
  exact ⟨_, rfl, fresh_position hrun rfl⟩

/-- A STATUS is being read when the STOP is posted, and its reply ends the wait: the STOP is still in its slot. -/
theorem fresh_position_in_flight : ¬ ∀ s, Reaches RotatorAsync.step Free opened s → ∀ n, s.main = .returned n true →
    s.wire[s.snapQuery]? = some .status ∧ Wire.motion n .stop ∈ s.wire.take s.snapQuery := by
  intro h
  have hrun : Reaches RotatorAsync.step Free opened _ :=
    .of_foldlM [.latch false, .write, .stopTracking, .stopKick, .waitBegin, .reply (some (.zero, .zero)) 1, .publish,
      .waitWake false] rfl
  have hfresh := h _ hrun 0 rfl
  exact absurd hfresh.2 (by decide)

end SimpleSatOps.Rotator
