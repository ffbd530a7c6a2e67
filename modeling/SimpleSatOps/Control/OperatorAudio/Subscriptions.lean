import SimpleSatOps.Control.OperatorAudio.Stream

/-!
# The subscriptions of live audio

* `LogSound`, `Live` : every stream in the log is sound; a slot continues the stream of its client;
* `Inv` : what holds of the table between two calls, and `Inv.update`, the change of one slot;
* `dropSlot_runs`, `restart_runs` : the two changes the handlers make;
* `TapRight`, `Op.run_runs` : a call keeps the invariant, and sets the tap where it changes the count;
* `subscriptions_consistent` : all of it, in every state reached.
-/

namespace SimpleSatOps.OperatorAudio
open Ipc Base64

/-! ## Logs -/

/-- Every stream whose enable was the client's last one is sound. -/
def LogSound (log : List Entry) : Prop := ∀ id post, since id log = some post → StreamSound id post

/-- The slot continues the stream of its client, if there is one. -/
def Current (s : Sub) (log : List Entry) : Prop := ∀ post, since s.id log = some post → Tracks s post []

/-- There is one. -/
structure Live (s : Sub) (log : List Entry) : Prop where
  stream : (since s.id log).isSome = true
  current : Current s log

theorem Tracks.sound {s : Sub} {post : List Entry} (h : Tracks s post []) : StreamSound s.id post := by
  obtain ⟨chunks, hchunks, hdata⟩ := h.data
  refine ⟨h.toNumbered, ?_⟩
  rw [hchunks, ← hdata, List.append_nil]
  rfl

theorem Tracks.silent {s : Sub} {post added : List Entry} {rest : List UInt8} (h : Tracks s post rest)
    (hs : Silent s.id added) : Tracks s (post ++ added) rest := by
  refine ⟨h.toNumbered.silent hs, ?_, ?_, ?_⟩
  · rw [hs.handed_eq, hs.emitted_eq]
    exact h.data
  · rw [hs.handed_eq]
    exact h.next
  · rw [hs.handed_eq]
    exact h.started

/-- A stream that has just begun. -/
theorem tracks_nil {s : Sub} (hseq : s.seq = IntKind.int.zero) (hstarted : s.started = false) : Tracks s [] [] where
  toNumbered := (streamSound_nil s.id).toNumbered
  data := ⟨[], rfl, rfl⟩
  next := hseq.trans counter_zero.symm
  started := hstarted

theorem Live.silent {s : Sub} {log added : List Entry} (h : Live s log) (hs : Silent s.id added) :
    Live s (log ++ added) := by
  constructor
  · rw [hs.since_eq, Option.isSome_map]
    exact h.stream
  · intro post' hpost'
    rw [hs.since_eq] at hpost'
    obtain ⟨post, hpost, rfl⟩ := Option.map_eq_some_iff.mp hpost'
    exact (h.current post hpost).silent hs

/-- The other fields of a slot have no part in it. -/
theorem Live.congr {s s' : Sub} {log : List Entry} (h : Live s log) (hid : s'.id = s.id) (hseq : s'.seq = s.seq)
    (hstarted : s'.started = s.started) : Live s' log := by
  constructor
  · rw [hid]
    exact h.stream
  · intro post hpost
    rw [hid] at hpost
    have ht := h.current post hpost
    constructor
    · rw [hid]
      exact ht.toNumbered
    · rw [hid]
      exact ht.data
    · rw [hid, hseq]
      exact ht.next
    · rw [hid, hstarted]
      exact ht.started

theorem LogSound.silent {log added : List Entry} (h : LogSound log) (hs : ∀ id, Silent id added) :
    LogSound (log ++ added) := by
  intro id post' hpost'
  rw [(hs id).since_eq] at hpost'
  obtain ⟨post, hpost, rfl⟩ := Option.map_eq_some_iff.mp hpost'
  exact (h id post hpost).silent (hs id)

/-- An enable begins a stream, or ends the client's last one. -/
theorem LogSound.enable {log : List Entry} (h : LogSound log) (id : ClientId) (fmt : Format) (q : Double) (ok : Bool) :
    LogSound (log ++ [.enable id fmt q ok]) := by
  intro id' post' hpost'
  by_cases hid : id = id'
  · subst hid
    rw [since_enable] at hpost'
    split_ifs at hpost' with hok
    obtain rfl := Option.some.inj hpost'
    exact streamSound_nil id
  · have hs := silent_enable hid fmt q ok
    rw [hs.since_eq] at hpost'
    obtain ⟨post, hpost, rfl⟩ := Option.map_eq_some_iff.mp hpost'
    exact (h id' post hpost).silent hs

section
variable {s : Sub} {log : List Entry} {r : Sub × List Entry} (h : Extends s log [] r [])
include h

theorem Extends.id_eq : r.1.id = s.id := by rw [h.slot]

theorem Extends.current (hs : Current s log) : Current r.1 r.2 := by
  obtain ⟨added, hlog, hof, htracks⟩ := h.log
  intro post' hpost'
  have hnot : ∀ fmt q ok, .enable s.id fmt q ok ∉ added := fun fmt q ok hmem => hof _ hmem
  rw [h.id_eq, hlog, since_append hnot] at hpost'
  obtain ⟨post, hpost, rfl⟩ := Option.map_eq_some_iff.mp hpost'
  exact htracks post (hs post hpost)

theorem Extends.live (hs : Live s log) : Live r.1 r.2 := by
  refine ⟨?_, h.current hs.current⟩
  obtain ⟨added, hlog, hof, -⟩ := h.log
  have hnot : ∀ fmt q ok, .enable s.id fmt q ok ∉ added := fun fmt q ok hmem => hof _ hmem
  rw [h.id_eq, hlog, since_append hnot, Option.isSome_map]
  exact hs.stream

theorem Extends.live_other {s' : Sub} (hne : s.id ≠ s'.id) (hs : Live s' log) : Live s' r.2 := by
  obtain ⟨added, hlog, hof, -⟩ := h.log
  rw [hlog]
  exact hs.silent (silent_of_ne hne hof)

theorem Extends.sound (hs : Current s log) (hsound : LogSound log) : LogSound r.2 := by
  intro id post' hpost'
  by_cases hid : s.id = id
  · subst hid
    rw [← h.id_eq] at hpost' ⊢
    exact (h.current hs post' hpost').sound
  · obtain ⟨added, hlog, hof, -⟩ := h.log
    have hsilent := silent_of_ne hid hof
    rw [hlog, hsilent.since_eq] at hpost'
    obtain ⟨post, hpost, rfl⟩ := Option.map_eq_some_iff.mp hpost'
    exact (hsound id post hpost).silent hsilent

end

/-! ## The table -/

/-- The slots in use. -/
def used (subs : Fin ssoAudioMaxSubs → Sub) : Finset (Fin ssoAudioMaxSubs) :=
  Finset.univ.filter fun i => (subs i).inUse = true

/-- What holds between two calls. -/
structure Inv (st : State) : Prop where
  one : ∀ i j, (st.subs i).inUse = true → (st.subs j).inUse = true → (st.subs i).id = (st.subs j).id → i = j
  count : st.n = (used st.subs).card
  enc : ∀ i, (st.subs i).enc = (st.subs i).inUse
  srv : ∀ i, (st.subs i).inUse = true → (st.subs i).srv = true ∧ st.ipc = true
  live : ∀ i, (st.subs i).inUse = true → Live (st.subs i) st.log
  sound : LogSound st.log

theorem card_used_update (subs : Fin ssoAudioMaxSubs → Sub) (i : Fin ssoAudioMaxSubs) (s : Sub) :
    (used (Function.update subs i s)).card + (if (subs i).inUse = true then 1 else 0) =
      (used subs).card + if s.inUse = true then 1 else 0 := by
  unfold used
  rw [Finset.card_filter, Finset.card_filter, ← Finset.add_sum_erase _ _ (Finset.mem_univ i),
    ← Finset.add_sum_erase Finset.univ (fun j => if (subs j).inUse = true then 1 else 0) (Finset.mem_univ i)]
  have hrest : (∑ j ∈ Finset.univ.erase i, if (Function.update subs i s j).inUse = true then 1 else 0) =
      ∑ j ∈ Finset.univ.erase i, if (subs j).inUse = true then 1 else 0 := by
    apply Finset.sum_congr rfl
    intro j hj
    rw [Function.update_of_ne (Finset.ne_of_mem_erase hj)]
  rw [hrest, Function.update_self]
  omega

theorem Inv.pos {st : State} (h : Inv st) {i : Fin ssoAudioMaxSubs} (hi : (st.subs i).inUse = true) : 0 < st.n := by
  rw [h.count]
  exact Finset.card_pos.mpr ⟨i, Finset.mem_filter.mpr ⟨Finset.mem_univ i, hi⟩⟩

/-- One slot changes. -/
theorem Inv.update {st : State} (h : Inv st) {i : Fin ssoAudioMaxSubs} {s : Sub} {log : List Entry} {n : ℕ}
    (hone : s.inUse = true → ∀ j, j ≠ i → (st.subs j).inUse = true → (st.subs j).id ≠ s.id)
    (hn : n + (if (st.subs i).inUse = true then 1 else 0) = st.n + if s.inUse = true then 1 else 0)
    (henc : s.enc = s.inUse) (hsrv : s.inUse = true → s.srv = true ∧ st.ipc = true)
    (hlive : s.inUse = true → Live s log) (hothers : ∀ j, j ≠ i → (st.subs j).inUse = true → Live (st.subs j) log)
    (hsound : LogSound log) : Inv { st with subs := Function.update st.subs i s, n := n, log := log } := by
  have hcases : ∀ (P : Fin ssoAudioMaxSubs → Sub → Prop), P i s → (∀ j, j ≠ i → P j (st.subs j)) →
      ∀ j, P j (Function.update st.subs i s j) := by
    intro P hi hj j
    by_cases hji : j = i
    · subst hji
      rwa [Function.update_self]
    · rw [Function.update_of_ne hji]
      exact hj j hji
  constructor
  · intro a b ha hb hid
    change (Function.update st.subs i s a).inUse = true at ha
    change (Function.update st.subs i s b).inUse = true at hb
    change (Function.update st.subs i s a).id = (Function.update st.subs i s b).id at hid
    by_cases hai : a = i
    · by_cases hbi : b = i
      · rw [hai, hbi]
      · subst hai
        rw [Function.update_self] at ha hid
        rw [Function.update_of_ne hbi] at hb hid
        exact absurd hid.symm (hone ha b hbi hb)
    · rw [Function.update_of_ne hai] at ha hid
      by_cases hbi : b = i
      · subst hbi
        rw [Function.update_self] at hb hid
        exact absurd hid (hone hb a hai ha)
      · rw [Function.update_of_ne hbi] at hb hid
        exact h.one a b ha hb hid
  · have hcard := card_used_update st.subs i s
    have hcount := h.count
    show n = (used (Function.update st.subs i s)).card
    omega
  · exact hcases (fun _ s => s.enc = s.inUse) henc fun j _ => h.enc j
  · exact hcases (fun _ s => s.inUse = true → s.srv = true ∧ st.ipc = true) hsrv fun j _ => h.srv j
  · exact hcases (fun _ s => s.inUse = true → Live s log) hlive hothers
  · exact hsound

/-- The tap is on exactly when somebody listens. -/
def TapRight (st : State) : Prop := ∀ rx, st.rxSession = some rx → rx.audioTapOn = (0 < st.n : Bool)

theorem Inv.updateTap {st : State} (h : Inv st) : Inv (updateTap st) := ⟨h.one, h.count, h.enc, h.srv, h.live, h.sound⟩

theorem tapRight_updateTap (st : State) : TapRight (updateTap st) := by
  intro rx hrx
  obtain ⟨rx₀, -, rfl⟩ := Option.map_eq_some_iff.mp hrx
  rfl

variable (now : ℕ → Bytes StrField.ts.size)

/-- A status is no part of a stream. -/
theorem sendStatus_spec {st : State} (h : Inv st) (id : ClientId) (audioState : String) (reason : Option String)
    (format : Format) :
    Inv (sendStatus now id audioState reason format st) ∧
      (sendStatus now id audioState reason format st).n = st.n ∧
      (sendStatus now id audioState reason format st).rxSession = st.rxSession := by
  have htype : (statusEvent (now st.log.length) audioState reason format).type ≠ .audio := by
    cases reason <;> exact EventType.noConfusion
  unfold sendStatus
  dsimp only
  cases ssoEventEncode (statusEvent (now st.log.length) audioState reason format) lineMax with
  | none => exact ⟨h, rfl, rfl⟩
  | some line =>
      have hsilent : ∀ id',
          Silent id' [.send id (statusEvent (now st.log.length) audioState reason format) line false] :=
        fun id' => silent_send htype line false
      exact ⟨⟨h.one, h.count, h.enc, h.srv, fun i hi => (h.live i hi).silent (hsilent _), h.sound.silent hsilent⟩, rfl,
        rfl⟩

/-- The encoder of a slot emits: the stream of its client goes on, the others stay. -/
theorem oggStream_inv {st : State} (h : Inv st) (i : Fin ssoAudioMaxSubs) (blocks : Blocks) :
    Runs (oggStream now (st.subs i) st.log blocks) fun r =>
      r.1 = { st.subs i with seq := r.1.seq, started := r.1.started } ∧ LogSound r.2 ∧
        ((st.subs i).inUse = true → Live r.1 r.2) ∧
        ∀ j, j ≠ i → (st.subs j).inUse = true → Live (st.subs j) r.2 := by
  cases hi : (st.subs i).inUse with
  | false =>
      rw [oggStream, h.enc i, hi]
      exact .pure ⟨rfl, h.sound, fun h => absurd h Bool.false_ne_true, fun j _ hj => h.live j hj⟩
  | true =>
      have hlive := h.live i hi
      refine (oggStream_runs now (fun _ => (h.srv i hi).1) st.log blocks).mono fun r hr => ?_
      refine ⟨hr.slot, hr.sound hlive.current h.sound, fun _ => hr.live hlive, fun j hji hj => ?_⟩
      exact hr.live_other (fun hid => hji (h.one i j hi hj hid).symm) (h.live j hj)

theorem decrement_eq (st : State) : st.decrement = { st with n := st.n - 1 } := by
  unfold State.decrement
  split_ifs with h
  · rfl
  · rw [Nat.eq_zero_of_not_pos h]

theorem used_zero : ¬ Sub.zero.inUse = true := Bool.false_ne_true

/-- A slot is dropped. -/
theorem dropSlot_runs {st : State} (h : Inv st) (i : Fin ssoAudioMaxSubs) (tail : Blocks) :
    Runs (dropSlot now i tail st) fun st' => Inv st' ∧
      ∀ j, (st'.subs j).inUse = true → j ≠ i ∧ (st.subs j).inUse = true := by
  unfold dropSlot
  split_ifs with hi
  · refine .pure ⟨h, fun j hj => ⟨?_, hj⟩⟩
    rintro rfl
    exact absurd (hi.symm.trans hj) Bool.false_ne_true
  · have hused : (st.subs i).inUse = true := by simpa using hi
    refine (oggStream_inv now h i tail).bind ?_
    rintro ⟨s, log⟩ ⟨-, hsound, -, hothers⟩
    have hpos := h.pos hused
    dsimp only
    rw [decrement_eq]
    refine .pure ⟨?_, fun j hj => ?_⟩
    · refine h.update (fun hz => absurd hz used_zero) ?_ rfl (fun hz => absurd hz used_zero)
        (fun hz => absurd hz used_zero) hothers hsound
      rw [if_pos hused, if_neg used_zero]
      show st.n - 1 + 1 = st.n + 0
      omega
    · change (Function.update st.subs i Sub.zero j).inUse = true at hj
      by_cases hji : j = i
      · subst hji
        rw [Function.update_self] at hj
        exact absurd hj used_zero
      · rw [Function.update_of_ne hji] at hj
        exact ⟨hji, hj⟩

/-- What a handler does: the invariant is kept, and the count and the receiver are as before or the tap is set. -/
structure Handled (st st' : State) : Prop where
  inv : Inv st'
  tap : (st'.n = st.n ∧ st'.rxSession = st.rxSession) ∨ TapRight st'

theorem Handled.status {st : State} (h : Inv st) (id : ClientId) (audioState : String) (reason : Option String)
    (format : Format) : Handled st (sendStatus now id audioState reason format st) := by
  obtain ⟨hinv, hn, hrx⟩ := sendStatus_spec now h id audioState reason format
  exact ⟨hinv, .inl ⟨hn, hrx⟩⟩

/-- The tap is set, and the client is told. -/
theorem Handled.tapped {st st' : State} (h : Inv st') (id : ClientId) (audioState : String) (reason : Option String)
    (format : Format) : Handled st (sendStatus now id audioState reason format (updateTap st')) := by
  obtain ⟨hinv, hn, hrx⟩ := sendStatus_spec now h.updateTap id audioState reason format
  refine ⟨hinv, .inr fun rx hsome => ?_⟩
  rw [hrx] at hsome
  rw [hn]
  exact tapRight_updateTap st' rx hsome

/-- A slot is opened again, or for a new client. -/
theorem restart_runs {st : State} (h : Inv st) (hipc : st.ipc = true) {id : ClientId} {i : Fin ssoAudioMaxSubs}
    {isNew : Bool} (hnew : (st.subs i).inUse = !isNew)
    (hother : ∀ j, j ≠ i → (st.subs j).inUse = true → (st.subs j).id ≠ id) (format : Format) (quality : Double)
    (tail head : Blocks) (opened : Bool) :
    Runs (restart now id i isNew format quality tail head opened st) (Handled st) := by
  refine (oggStream_inv now h i tail).bind ?_
  rintro ⟨s₀, log₀⟩ ⟨hslot, hsound₀, -, hothers₀⟩
  dsimp only at hslot ⊢
  have huse : s₀.inUse = !isNew := by
    rw [hslot]
    exact hnew
  set s₁ : Sub := { s₀ with
    id := id, sr := format.1, ch := format.2, seq := IntKind.int.zero, started := false, srv := true } with hs₁
  set log₁ := log₀ ++ [Entry.enable id format quality opened] with hlog₁
  have hsince : since id log₁ = if opened then some [] else none := since_enable id format quality opened log₀
  have hsound₁ : LogSound log₁ := hsound₀.enable id format quality opened
  have hcurrent₁ : Current s₁ log₁ := by
    intro post hpost
    rw [show s₁.id = id from rfl, hsince] at hpost
    split_ifs at hpost
    obtain rfl := Option.some.inj hpost
    exact tracks_nil rfl rfl
  have hothers₁ : ∀ j, j ≠ i → (st.subs j).inUse = true → Live (st.subs j) log₁ := fun j hji hj =>
    (hothers₀ j hji hj).silent (silent_enable (hother j hji hj).symm format quality opened)
  refine (emit_runs now head (s := s₁) rfl log₁).bind ?_
  rintro ⟨s₂, log₂⟩ hext
  have hslot₂ := hext.slot
  dsimp only at hslot₂ ⊢
  have huse₂ : s₂.inUse = !isNew := by
    rw [hslot₂]
    exact huse
  have hid₂ : s₂.id = id := by rw [hslot₂]
  have hsrv₂ : s₂.srv = true := by rw [hslot₂]
  have hsound₂ : LogSound log₂ := hext.sound hcurrent₁ hsound₁
  have hothers₂ : ∀ j, j ≠ i → (st.subs j).inUse = true → Live (st.subs j) log₂ := fun j hji hj =>
    hext.live_other (hother j hji hj).symm (hothers₁ j hji hj)
  have hid₃ : ∀ j, j ≠ i → (st.subs j).inUse = true → (st.subs j).id ≠ s₂.id := by
    rw [hid₂]
    exact hother
  cases opened with
  | false =>
      rw [if_pos rfl]
      refine .pure (Handled.tapped now ?_ _ _ _ _)
      cases isNew with
      | true =>
          rw [if_pos rfl]
          refine h.update (fun hused => absurd hused ?_) ?_ huse₂.symm (fun hused => absurd hused ?_)
            (fun hused => absurd hused ?_) hothers₂ hsound₂
          all_goals simp [huse₂, hnew]
      | false =>
          rw [if_neg Bool.false_ne_true, decrement_eq]
          have hused : (st.subs i).inUse = true := hnew
          have hpos := h.pos hused
          refine h.update (fun hused => absurd hused Bool.false_ne_true) ?_ rfl
            (fun hused => absurd hused Bool.false_ne_true) (fun hused => absurd hused Bool.false_ne_true) hothers₂
            hsound₂
          rw [if_pos hused]
          show st.n - 1 + 1 = st.n + 0
          omega
  | true =>
      have hlive₁ : Live s₁ log₁ := by
        refine ⟨?_, hcurrent₁⟩
        rw [show s₁.id = id from rfl, hsince]
        rfl
      have hlive₂ : Live s₂ log₂ := hext.live hlive₁
      rw [if_neg (by decide)]
      refine .pure (Handled.tapped now ?_ _ _ _ _)
      cases isNew with
      | true =>
          rw [if_pos rfl]
          refine h.update (fun _ => hid₃) ?_ rfl (fun _ => ⟨hsrv₂, hipc⟩) (fun _ => hlive₂.congr rfl rfl rfl) hothers₂
            hsound₂
          rw [hnew]
          rfl
      | false =>
          rw [if_neg Bool.false_ne_true]
          refine h.update (n := st.n) (fun _ => hid₃) ?_ huse₂.symm (fun _ => ⟨hsrv₂, hipc⟩)
            (fun _ => hlive₂.congr rfl rfl rfl) hothers₂ hsound₂
          rw [hnew, huse₂]

/-! ## The handlers -/

theorem findSlot_some {st : State} {id : ClientId} {i : Fin ssoAudioMaxSubs} (h : findSlot st id = some i) :
    (st.subs i).inUse = true ∧ (st.subs i).id = id := by
  have hi := List.find?_some h
  simpa using hi

theorem findSlot_none {st : State} {id : ClientId} (h : findSlot st id = none) (j : Fin ssoAudioMaxSubs)
    (hj : (st.subs j).inUse = true) : (st.subs j).id ≠ id := by
  have hno := List.find?_eq_none.mp h j (List.mem_finRange j)
  simpa [hj] using hno

theorem findFreeSlot_some {st : State} {i : Fin ssoAudioMaxSubs} (h : findFreeSlot st = some i) :
    (st.subs i).inUse = false := by
  have hi := List.find?_some h
  simpa using hi

theorem operatorAudioHandleCtl_runs {st : State} (h : Inv st) (id : ClientId) (evt : Event) (tail head : Blocks)
    (opened : Bool) : Runs (operatorAudioHandleCtl now id evt tail head opened st) (Handled st) := by
  unfold operatorAudioHandleCtl
  split_ifs with hipc henable hno
  · exact .pure ⟨h, .inl ⟨rfl, rfl⟩⟩
  · cases hfind : findSlot st id with
    | none => exact .pure (.tapped now h _ _ _ _)
    | some i => exact (dropSlot_runs now h i tail).bind fun st' hst' => .pure (.tapped now hst'.1 _ _ _ _)
  · exact .pure (.status now h _ _ _ _)
  · have hserver : st.ipc = true := by simpa using hipc
    cases hrx : st.rxSession with
    | none => exact .pure (.status now h _ _ _ _)
    | some rx =>
        dsimp only
        cases hfind : findSlot st id with
        | some i =>
            obtain ⟨hused, hid⟩ := findSlot_some hfind
            refine restart_runs now h hserver hused (fun j hji hj hjd => ?_) _ _ tail head opened
            exact hji (h.one j i hj hused (hjd.trans hid.symm))
        | none =>
            dsimp only
            cases hfree : findFreeSlot st with
            | some i =>
                exact restart_runs now h hserver (findFreeSlot_some hfree) (fun j _ hj => findSlot_none hfind j hj) _ _
                  tail head opened
            | none => exact .pure (.status now h _ _ _ _)

theorem pumpBatch_runs {st : State} (h : Inv st) (writes : Fin ssoAudioMaxSubs → Blocks) :
    Runs (pumpBatch now st writes) fun st' => Inv st' ∧ st'.n = st.n ∧ st'.rxSession = st.rxSession := by
  refine Runs.foldlM (P := fun st' => Inv st' ∧ st'.n = st.n ∧ st'.rxSession = st.rxSession) ?_ ⟨h, rfl, rfl⟩
  rintro st' ⟨h', hn, hrx⟩ i -
  split_ifs with hi
  · exact .pure ⟨h', hn, hrx⟩
  · have hused : (st'.subs i).inUse = true := by simpa using hi
    have hsame : ({ st'.subs i with srv := st'.ipc } : Sub) = st'.subs i := by
      obtain ⟨hsrv, hipc⟩ := h'.srv i hused
      rw [hipc, ← hsrv]
    rw [hsame]
    refine (oggStream_inv now h' i (writes i)).bind ?_
    rintro ⟨s, log⟩ ⟨hslot, hsound, hlive, hothers⟩
    dsimp only at hslot ⊢
    refine .pure ⟨?_, hn, hrx⟩
    have hid : s.id = (st'.subs i).id := by rw [hslot]
    have huse : s.inUse = true := by
      rw [hslot]
      exact hused
    refine h'.update (n := st'.n) (fun _ j hji hj hjd => ?_) ?_ ?_ (fun _ => ?_) (fun _ => hlive hused) hothers hsound
    · exact hji (h'.one j i hj hused (hjd.trans hid))
    · rw [hused, huse]
    · rw [hslot]
      exact h'.enc i
    · rw [hslot]
      exact h'.srv i hused

theorem operatorAudioPump_runs {st : State} (h : Inv st) (batches : List (Fin ssoAudioMaxSubs → Blocks)) :
    Runs (operatorAudioPump now batches st) (Handled st) := by
  unfold operatorAudioPump
  split_ifs
  · exact .pure ⟨h, .inl ⟨rfl, rfl⟩⟩
  · have hloop := Runs.foldlM (f := pumpBatch now) (l := batches)
      (P := fun st' => Inv st' ∧ st'.n = st.n ∧ st'.rxSession = st.rxSession) (fun st' h' writes _ =>
        (pumpBatch_runs now h'.1 writes).mono fun st'' h'' => ⟨h''.1, h''.2.1.trans h'.2.1, h''.2.2.trans h'.2.2⟩)
      ⟨h, rfl, rfl⟩
    exact hloop.mono fun st' h' => ⟨h'.1, .inl h'.2⟩

theorem operatorAudioPrune_runs {st : State} (h : Inv st) (clients : List ClientId)
    (tails : Fin ssoAudioMaxSubs → Blocks) : Runs (operatorAudioPrune now clients tails st) (Handled st) := by
  unfold operatorAudioPrune
  split_ifs
  · exact .pure ⟨h, .inl ⟨rfl, rfl⟩⟩
  · -- until a slot is dropped nothing has changed
    refine (Runs.foldlM (P := fun p : State × Bool => Inv p.1 ∧ (p.2 = false → p.1 = st)) ?_ ⟨h, fun _ => rfl⟩).bind ?_
    · rintro ⟨st', dropped⟩ ⟨h', hsame⟩ i -
      dsimp only
      split_ifs
      · exact (dropSlot_runs now h' i (tails i)).bind fun st'' h'' =>
          .pure ⟨h''.1, fun hno => Bool.noConfusion hno⟩
      · exact .pure ⟨h', hsame⟩
    · rintro ⟨st', dropped⟩ ⟨h', hsame⟩
      dsimp only
      cases dropped with
      | true => exact .pure ⟨h'.updateTap, .inr (tapRight_updateTap st')⟩
      | false =>
          obtain rfl : st' = st := hsame rfl
          exact .pure ⟨h, .inl ⟨rfl, rfl⟩⟩

/-- A slot that is dropped stays so while the others are. -/
theorem dropSlots_runs (tails : Fin ssoAudioMaxSubs → Blocks) (l : List (Fin ssoAudioMaxSubs)) : ∀ {st : State},
    Inv st → Runs (l.foldlM (fun st i => dropSlot now i (tails i) st) st) fun st' => Inv st' ∧
      ∀ j, (st'.subs j).inUse = true → j ∉ l ∧ (st.subs j).inUse = true := by
  induction l with
  | nil => exact fun h => .pure ⟨h, fun j hj => ⟨List.not_mem_nil, hj⟩⟩
  | cons i l ih =>
      intro st h
      rw [List.foldlM_cons]
      refine (dropSlot_runs now h i (tails i)).bind fun st₁ h₁ => (ih h₁.1).mono fun st₂ h₂ => ⟨h₂.1, fun j hj => ?_⟩
      obtain ⟨hjl, hj₁⟩ := h₂.2 j hj
      obtain ⟨hji, hj₀⟩ := h₁.2 j hj₁
      refine ⟨?_, hj₀⟩
      rw [List.mem_cons, not_or]
      exact ⟨hji, hjl⟩

theorem operatorAudioShutdown_runs {st : State} (h : Inv st) (tails : Fin ssoAudioMaxSubs → Blocks) :
    Runs (operatorAudioShutdown now tails st) (Handled st) := by
  refine (dropSlots_runs now tails _ h).bind fun st' h' => .pure ⟨?_, .inr (tapRight_updateTap _)⟩
  have hfree : ∀ j, ¬ (st'.subs j).inUse = true := fun j hj => (h'.2 j hj).1 (List.mem_finRange j)
  have hzero : st'.n = 0 := by
    rw [h'.1.count]
    exact Finset.card_eq_zero.mpr (Finset.filter_eq_empty_iff.mpr fun j _ => hfree j)
  have hsame : { st' with n := 0 } = st' := by rw [← hzero]
  rw [hsame]
  exact h'.1.updateTap

theorem Op.run_runs {st : State} (h : Inv st) (op : Op) : Runs (op.run now st) (Handled st) := by
  cases op with
  | handleCtl id evt tail head opened => exact operatorAudioHandleCtl_runs now h id evt tail head opened
  | pump batches => exact operatorAudioPump_runs now h batches
  | prune clients tails => exact operatorAudioPrune_runs now h clients tails
  | shutdown tails => exact operatorAudioShutdown_runs now h tails

theorem Action.run_runs {st : State} (h : Inv st) (a : Action) : Runs (a.run now st) Inv := by
  cases a with
  | call op => exact (op.run_runs now h).mono fun _ h' => h'.inv
  | receiver noAudio rxSession => exact .pure ⟨h.one, h.count, h.enc, h.srv, h.live, h.sound⟩

theorem inv_initial (ipc noAudio : Bool) (rxSession : Option Receiver) : Inv (initial ipc noAudio rxSession) where
  one _ _ hi := absurd hi used_zero
  count := (Finset.card_eq_zero.mpr (Finset.filter_eq_empty_iff.mpr fun _ _ => used_zero)).symm
  enc _ := rfl
  srv _ hi := absurd hi used_zero
  live _ hi := absurd hi used_zero
  sound _ _ h := by cases h

/-! ## Every run -/

/-- Every client has at most one subscription, the count is that of the slots in use, every subscriber has a last
enable that was successful, and the stream since a client's last enable is sound if that was successful. -/
structure Consistent (st : State) : Prop where
  one : ∀ i j, (st.subs i).inUse = true → (st.subs j).inUse = true → (st.subs i).id = (st.subs j).id → i = j
  count : st.n = (used st.subs).card
  enabled : ∀ i, (st.subs i).inUse = true → (since (st.subs i).id st.log).isSome = true
  streams : ∀ id post, since id st.log = some post → StreamSound id post

/-- **The subscriptions stay consistent** in every state that calls of the handlers lead to, whatever the encoders do
and the receiver does between the calls, no call writes outside its buffers, and after a call that changes the count or
the tap, the tap is on exactly when somebody listens. -/
theorem subscriptions_consistent (ipc noAudio : Bool) (rxSession : Option Receiver) (actions : List Action) :
    Runs (actions.foldlM (Action.run now) (initial ipc noAudio rxSession)) fun st => Consistent st ∧
      ∀ op : Op, Runs (op.run now st) fun st' =>
        st'.n ≠ st.n ∨ st'.rxSession ≠ st.rxSession → TapRight st' := by
  have hrun := Runs.foldlM (f := Action.run now) (l := actions) (P := Inv)
    (fun _ h a _ => a.run_runs now h) (inv_initial ipc noAudio rxSession)
  refine hrun.mono fun st h => ⟨⟨h.one, h.count, fun i hi => (h.live i hi).stream, h.sound⟩, fun op => ?_⟩
  refine (op.run_runs now h).mono fun st' h' hchanged => ?_
  rcases h'.tap with ⟨hn, hrx⟩ | htap
  · rcases hchanged with hne | hne
    · exact absurd hn hne
    · exact absurd hrx hne
  · exact htap

end SimpleSatOps.OperatorAudio
