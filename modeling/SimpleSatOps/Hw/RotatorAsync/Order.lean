import SimpleSatOps.Hw.RotatorAsync

/-!
# The order of motion commands

* `motions`, `Drained` : the motion commands that were written; nothing is posted or in the worker's hands;
* `Ordered` : the worker does not take a SET together with a STOP that was posted after it;
* `lastWritten`, `Latest` : the last motion command once the iteration is through, and the invariant;
* `last_motion` : in runs of such steps the last motion command of a drained worker is the last request.
-/

namespace SimpleSatOps.Rotator

/-- The motion commands that were written, with the numbers of their requests. -/
def motions (w : List Wire) : List (ℕ × Motion) :=
  w.filterMap fun
    | .motion n m => some (n, m)
    | .status => none

/-- What the worker is still to write in this iteration, the last motion command of it. -/
def lastInHand : Worker → Option (ℕ × Motion)
  | .writing _ _ (some (n, az, el)) _ => some (n, .set az el)
  | .writing _ (some n) none _ => some (n, .stop)
  | _ => none

namespace RotatorAsync
variable {s s' : RotatorAsync}

/-- No motion request is posted or in the worker's hands. -/
def Drained (s : RotatorAsync) : Prop :=
  s.setPending = false ∧ s.stopCmdPending = false ∧ lastInHand s.worker = none

instance (s : RotatorAsync) : Decidable s.Drained := inferInstanceAs (Decidable (_ ∧ _))

/-- When the worker takes a SET and a STOP at once, the SET was posted after the STOP. -/
def Ordered (s : RotatorAsync) : Action → Prop
  | .latch _ => s.setPending = true → s.stopCmdPending = true → s.stopIdx < s.setIdx
  | _ => True

/-- The last motion command that will have been written at the end of the iteration. -/
def lastWritten (s : RotatorAsync) : Option (ℕ × Motion) := (lastInHand s.worker).or (motions s.wire).getLast?

/-- The request is in its slot. -/
def Posted (s : RotatorAsync) (n : ℕ) : Motion → Prop
  | .stop => s.stopCmdPending = true ∧ s.stopIdx = n
  | .set az el => s.setPending = true ∧ s.setIdx = n ∧ s.setAz = az ∧ s.setEl = el

/-- The last request is in its slot if any request is, and otherwise it is the last that was or will be written. -/
structure Latest (s : RotatorAsync) : Prop where
  set_lt : s.setPending = true → s.setIdx < s.requests.length
  posted : s.setPending = true ∨ s.stopCmdPending = true →
    ∃ m, s.requests.getLast? = some m ∧ s.Posted (s.requests.length - 1) m
  written : s.setPending = false → s.stopCmdPending = false →
    ∀ m, s.requests.getLast? = some m → s.lastWritten = some (s.requests.length - 1, m)

theorem latest_opened : opened.Latest where
  set_lt := nofun
  posted h := absurd h (by decide)
  written _ _ m h := absurd h nofun

theorem latest_submitSet (s : RotatorAsync) (az el : Double) : (s.submitSet az el).Latest where
  set_lt _ := by
    show s.requests.length < (s.requests ++ [Motion.set az el]).length
    rw [List.length_append]
    exact Nat.lt_succ_self _
  posted _ := by
    refine ⟨.set az el, List.getLast?_concat, rfl, ?_, rfl, rfl⟩
    show s.requests.length = (s.requests ++ [Motion.set az el]).length - 1
    rw [List.length_append, List.length_singleton, Nat.add_sub_cancel]
  written h := nomatch h

theorem Latest.submitStop (h : s.Latest) : s.submitStop.Latest where
  set_lt hset := by
    show s.setIdx < (s.requests ++ [Motion.stop]).length
    rw [List.length_append]
    exact (h.set_lt hset).trans (Nat.lt_succ_self _)
  posted _ := by
    refine ⟨.stop, List.getLast?_concat, rfl, ?_⟩
    show s.requests.length = (s.requests ++ [Motion.stop]).length - 1
    rw [List.length_append, List.length_singleton, Nat.add_sub_cancel]
  written _ h := nomatch h

/-- What leaves the requests and the last motion command alone. -/
theorem Latest.same (h : s.Latest) (hset : s'.setPending = s.setPending) (hidx : s'.setIdx = s.setIdx)
    (haz : s'.setAz = s.setAz) (hel : s'.setEl = s.setEl) (hstop : s'.stopCmdPending = s.stopCmdPending)
    (hsidx : s'.stopIdx = s.stopIdx) (hreq : s'.requests = s.requests) (hlast : s'.lastWritten = s.lastWritten) :
    s'.Latest where
  set_lt := by rw [hset, hidx, hreq]; exact h.set_lt
  posted hp := by
    rw [hset, hstop] at hp
    obtain ⟨m, hm, hposted⟩ := h.posted hp
    refine ⟨m, hreq ▸ hm, ?_⟩
    rw [hreq]
    cases m with
    | stop => exact ⟨hstop.trans hposted.1, hsidx.trans hposted.2⟩
    | set az el =>
        exact ⟨hset.trans hposted.1, hidx.trans hposted.2.1, haz.trans hposted.2.2.1, hel.trans hposted.2.2.2⟩
  written := by
    rw [hset, hstop, hreq, hlast]
    exact h.written

theorem Latest.latch (h : s.Latest) (hw : s.worker = .waiting) (elapsed : Bool)
    (hok : s.setPending = true → s.stopCmdPending = true → s.stopIdx < s.setIdx) : (s.latch elapsed).Latest where
  set_lt := nofun
  posted hp := absurd hp (by simp [RotatorAsync.latch])
  written _ _ m hm := by
    have hm' : s.requests.getLast? = some m := hm
    show (lastInHand (s.latch elapsed).worker).or (motions s.wire).getLast? = some (s.requests.length - 1, m)
    by_cases hp : s.setPending = true ∨ s.stopCmdPending = true
    · obtain ⟨m', hm'', hposted⟩ := h.posted hp
      obtain rfl := Option.some.inj (hm''.symm.trans hm')
      cases m' with
      | stop =>
          -- A SET that is taken along was posted before the STOP, which is the last request.
          obtain ⟨hstop, hidx⟩ := hposted
          have hset : s.setPending = false := by
            by_contra hset
            have hset := Bool.eq_true_of_not_eq_false hset
            have hlt := hok hset hstop
            have hlt' := h.set_lt hset
            omega
          simp [RotatorAsync.latch, lastInHand, hset, hstop, hidx]
      | set az el =>
          obtain ⟨hset, hidx, haz, hel⟩ := hposted
          simp [RotatorAsync.latch, lastInHand, hset, hidx, haz, hel]
    · rw [not_or, Bool.not_eq_true, Bool.not_eq_true] at hp
      have hlast := h.written hp.1 hp.2 m hm'
      unfold lastWritten at hlast
      rw [hw] at hlast
      simpa [RotatorAsync.latch, lastInHand, hp.1, hp.2] using hlast

theorem lastWritten_writeNext (s : RotatorAsync) {seen : ℕ} {doStop : Option ℕ} {doSet : Option (ℕ × Double × Double)}
    {doStatus : Bool} (hw : s.worker = .writing seen doStop doSet doStatus) :
    (s.writeNext seen doStop doSet doStatus).lastWritten = s.lastWritten := by
  unfold lastWritten
  rw [hw]
  cases doStop with
  | some n => cases doSet <;> simp [writeNext, lastInHand, motions]
  | none =>
      cases doSet with
      | some p => simp [writeNext, lastInHand, motions]
      | none => cases doStatus <;> simp [writeNext, lastInHand, motions]

theorem Latest.writeNext (h : s.Latest) {seen : ℕ} {doStop : Option ℕ} {doSet : Option (ℕ × Double × Double)}
    {doStatus : Bool} (hw : s.worker = .writing seen doStop doSet doStatus) :
    (s.writeNext seen doStop doSet doStatus).Latest := by
  have hlast := lastWritten_writeNext s hw
  cases doStop with
  | some n => exact h.same rfl rfl rfl rfl rfl rfl rfl hlast
  | none =>
      cases doSet with
      | some p => exact h.same rfl rfl rfl rfl rfl rfl rfl hlast
      | none => cases doStatus <;> exact h.same rfl rfl rfl rfl rfl rfl rfl hlast

theorem Latest.publish (h : s.Latest) {seen pos mono : ℕ} {reply : Option (Double × Double)}
    (hw : s.worker = .replied seen pos reply mono) : (s.publish seen pos mono reply).Latest := by
  have hlast : (s.publish seen pos mono reply).lastWritten = s.lastWritten := by
    unfold lastWritten
    rw [hw]
    cases reply <;> rfl
  cases reply <;> exact h.same rfl rfl rfl rfl rfl rfl rfl hlast

theorem Latest.step {a : Action} (h : s.Latest) (hok : s.Ordered a) (hs : s.step a = some s') : s'.Latest := by
  cases stepped hs with
  | submitSet az el hmain => exact (latest_submitSet _ az el).same rfl rfl rfl rfl rfl rfl rfl rfl
  | submitStop hmain => exact h.submitStop.same rfl rfl rfl rfl rfl rfl rfl rfl
  | kickStatus hmain => exact h.same rfl rfl rfl rfl rfl rfl rfl rfl
  | close hmain => exact h.same rfl rfl rfl rfl rfl rfl rfl rfl
  | stopTracking hmain => exact h.submitStop.same rfl rfl rfl rfl rfl rfl rfl rfl
  | stopKick n hmain => exact h.same rfl rfl rfl rfl rfl rfl rfl rfl
  | waitBegin n hmain => exact h.same rfl rfl rfl rfl rfl rfl rfl rfl
  | waitWake timedOut n tEntry hmain => exact h.same rfl rfl rfl rfl rfl rfl rfl rfl
  | latch elapsed hw hrun => exact h.latch hw elapsed hok
  | exit hw hstop => exact h.same rfl rfl rfl rfl rfl rfl rfl (by unfold lastWritten; rw [hw]; rfl)
  | write seen doStop doSet doStatus hw => exact h.writeNext hw
  | reply reply mono seen pos hw => exact h.same rfl rfl rfl rfl rfl rfl rfl (by unfold lastWritten; rw [hw]; rfl)
  | publish seen pos mono reply hw => exact h.publish hw

end RotatorAsync
open RotatorAsync

/-- Once the worker has drained the slots, the last motion command it has written is the last request, with its
coordinates, if it never takes a SET together with a STOP that was posted after it. -/
theorem last_motion {s : RotatorAsync} (h : Reaches RotatorAsync.step Ordered opened s) (hdrained : s.Drained) :
    ∀ m, s.requests.getLast? = some m → (motions s.wire).getLast? = some (s.requests.length - 1, m) := by
  intro m hm
  have hinv : s.Latest := h.invariant latest_opened fun _ _ _ ht hok hs => ht.step hok hs
  obtain ⟨hset, hstop, hhand⟩ := hdrained
  have hlast := hinv.written hset hstop m hm
  unfold lastWritten at hlast
  rwa [hhand, Option.none_or] at hlast

/-- A STOP is posted and then a SET, and the worker takes both. -/
theorem last_motion_stop_set : ∃ s : RotatorAsync, s.requests = [.stop, .set .zero .zero] ∧
    ∀ m, s.requests.getLast? = some m → (motions s.wire).getLast? = some (s.requests.length - 1, m) := by
  have hposted : Reaches RotatorAsync.step Ordered opened _ :=
    (Reaches.refl.tail (a := .submitStop) trivial rfl).tail (a := .submitSet .zero .zero) trivial rfl
  have hlatched : Reaches RotatorAsync.step Ordered opened _ :=
    hposted.tail (a := .latch false) (fun _ _ => Nat.lt_succ_self 0) rfl
  have hrun : Reaches RotatorAsync.step Ordered opened _ :=
    (hlatched.tail (a := Action.write) trivial rfl).tail (a := .write) trivial rfl
  exact ⟨_, rfl, last_motion hrun (by decide)⟩

/-- A SET is posted and then a STOP before the worker wakes up: it writes the STOP first, and the antenna moves. -/
theorem last_motion_set_stop : ¬ ∀ s, Reaches RotatorAsync.step Free opened s → s.Drained →
    ∀ m, s.requests.getLast? = some m → (motions s.wire).getLast? = some (s.requests.length - 1, m) := by
  intro h
  have hrun : Reaches RotatorAsync.step Free opened _ :=
    .of_foldlM [.submitSet .zero .zero, .submitStop, .latch false, .write, .write] rfl
  have hlast := h _ hrun (by decide) .stop rfl
  exact absurd hlast (by decide)

end SimpleSatOps.Rotator
