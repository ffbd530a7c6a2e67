import SimpleSatOps.Control.OperatorAudio

/-!
# The stream of a subscriber

* `since`, `handed`, `emitted` : the log from a client's last enable on, the events and the bytes in it;
* `StreamSound` : the events are numbered from 0, only the first starts the stream, all fit, and together they hold
  what the encoder emitted;
* `Tracks` : a slot that continues such a stream, with some bytes still to be sent;
* `Extends` : what the sink does to a slot and to the log; `emit_runs`.
-/

namespace SimpleSatOps.OperatorAudio
open Ipc Base64

/-! ## Reading the log -/

/-- The log since the client's last enable, if that was successful. -/
def since (id : ClientId) (log : List Entry) : Option (List Entry) :=
  log.foldl (fun post en => match en with
    | .enable id' _ _ ok => if id' = id then if ok then some [] else none else post.map (· ++ [en])
    | _ => post.map (· ++ [en])) none

/-- The audio events handed to the server for a client, with their lines. -/
def handed (id : ClientId) (log : List Entry) : List (Event × List UInt8) :=
  log.filterMap fun en => match en with
    | .send id' e line _ => if id' = id ∧ e.type = .audio then some (e, line) else none
    | _ => none

/-- The bytes emitted by a client's encoder. -/
def emitted (id : ClientId) (log : List Entry) : List UInt8 :=
  log.flatMap fun en => match en with
    | .block id' bytes => if id' = id then bytes else []
    | _ => []

/-- The `k`-th value of a counter that is an `int`. -/
def counter (k : ℕ) : IntKind.int.Val := IntKind.int.narrow k

/-- The events of a stream are numbered from 0, the first one and no other starts it, and all encode within
`SSO_IPC_LINE_MAX`. -/
structure Numbered (id : ClientId) (post : List Entry) : Prop where
  seq : ((handed id post).map fun p => p.1.int .audioSeq) = (List.range (handed id post).length).map counter
  start : ((handed id post).map fun p => p.1.flag .audioStart) = (List.range (handed id post).length).map (· == 0)
  fits : ∀ p ∈ handed id post, ssoEventEncode p.1 lineMax = some p.2 ∧ p.2.length ≤ lineMax

/-- And their data are the bytes emitted. -/
structure StreamSound (id : ClientId) (post : List Entry) : Prop extends Numbered id post where
  data : ((handed id post).mapM fun p => audioData p.1).map List.flatten = some (emitted id post)

/-! ## Entries -/

/-- Entries of a client's stream. -/
def Entry.Of (id : ClientId) : Entry → Prop
  | .enable _ _ _ _ => False
  | .block id' _ => id' = id
  | .send id' _ _ _ => id' = id

/-- Entries that have no part in a client's stream. -/
structure Silent (id : ClientId) (added : List Entry) : Prop where
  noEnable : ∀ fmt q ok, .enable id fmt q ok ∉ added
  noEvents : handed id added = []
  noBytes : emitted id added = []

theorem handed_append (id : ClientId) (l l' : List Entry) : handed id (l ++ l') = handed id l ++ handed id l' :=
  List.filterMap_append

theorem emitted_append (id : ClientId) (l l' : List Entry) : emitted id (l ++ l') = emitted id l ++ emitted id l' :=
  List.flatMap_append

theorem since_append {id : ClientId} {added : List Entry} (h : ∀ fmt q ok, .enable id fmt q ok ∉ added)
    (log : List Entry) : since id (log ++ added) = (since id log).map (· ++ added) := by
  induction added using List.reverseRecOn with
  | nil => simp
  | append_singleton added en ih =>
      have hrest : ∀ fmt q ok, .enable id fmt q ok ∉ added := fun fmt q ok hmem =>
        h fmt q ok (List.mem_append_left _ hmem)
      rw [← List.append_assoc, since, List.foldl_append, ← since, ih hrest]
      have hmap : ((since id log).map (· ++ added)).map (· ++ [en]) = (since id log).map (· ++ (added ++ [en])) := by
        cases since id log <;> simp
      cases en with
      | enable id' fmt q ok =>
          have hne : id' ≠ id := by
            rintro rfl
            exact h fmt q ok (List.mem_append_right _ List.mem_cons_self)
          show (if id' = id then _ else _) = _
          rw [if_neg hne, hmap]
      | block id' bytes => exact hmap
      | send id' e line lossy => exact hmap

theorem since_enable (id : ClientId) (fmt : Format) (q : Double) (ok : Bool) (log : List Entry) :
    since id (log ++ [.enable id fmt q ok]) = if ok then some [] else none := by
  rw [since, List.foldl_append]
  exact if_pos rfl

theorem silent_of_ne {id id' : ClientId} (hne : id' ≠ id) {added : List Entry} (h : ∀ en ∈ added, en.Of id') :
    Silent id added where
  noEnable fmt q ok hmem := h _ hmem
  noEvents := by
    apply List.filterMap_eq_nil_iff.mpr
    intro en hen
    cases en with
    | enable => rfl
    | block => rfl
    | send id'' e line lossy =>
        obtain rfl : id'' = id' := h _ hen
        exact if_neg fun hand => hne hand.1
  noBytes := by
    apply List.flatMap_eq_nil_iff.mpr
    intro en hen
    cases en with
    | enable => rfl
    | send => rfl
    | block id'' bytes =>
        obtain rfl : id'' = id' := h _ hen
        exact if_neg hne

theorem silent_enable {id id' : ClientId} (hne : id' ≠ id) (fmt : Format) (q : Double) (ok : Bool) :
    Silent id [.enable id' fmt q ok] where
  noEnable fmt' q' ok' hmem := by
    cases List.mem_singleton.mp hmem
    exact hne rfl
  noEvents := rfl
  noBytes := rfl

theorem silent_send {id id' : ClientId} {e : Event} (he : e.type ≠ .audio) (line : List UInt8) (lossy : Bool) :
    Silent id [.send id' e line lossy] where
  noEnable fmt q ok hmem := by cases List.mem_singleton.mp hmem
  noEvents := List.filterMap_cons_none (if_neg fun hand => he hand.2)
  noBytes := rfl

theorem Silent.handed_eq {id : ClientId} {added : List Entry} (h : Silent id added) (post : List Entry) :
    handed id (post ++ added) = handed id post := by
  rw [handed_append, h.noEvents, List.append_nil]

theorem Silent.emitted_eq {id : ClientId} {added : List Entry} (h : Silent id added) (post : List Entry) :
    emitted id (post ++ added) = emitted id post := by
  rw [emitted_append, h.noBytes, List.append_nil]

theorem Silent.since_eq {id : ClientId} {added : List Entry} (h : Silent id added) (log : List Entry) :
    since id (log ++ added) = (since id log).map (· ++ added) :=
  since_append h.noEnable log

theorem Numbered.silent {id : ClientId} {post added : List Entry} (h : Numbered id post) (hs : Silent id added) :
    Numbered id (post ++ added) := by
  constructor <;> rw [hs.handed_eq]
  · exact h.seq
  · exact h.start
  · exact h.fits

theorem StreamSound.silent {id : ClientId} {post added : List Entry} (h : StreamSound id post)
    (hs : Silent id added) : StreamSound id (post ++ added) := by
  refine ⟨h.toNumbered.silent hs, ?_⟩
  rw [hs.handed_eq, hs.emitted_eq]
  exact h.data

theorem streamSound_nil (id : ClientId) : StreamSound id [] := ⟨⟨rfl, rfl, fun _ h => absurd h List.not_mem_nil⟩, rfl⟩

/-! ## The sink -/

/-- The slot continues the stream, and `rest` is still to be sent. -/
structure Tracks (s : Sub) (post : List Entry) (rest : List UInt8) : Prop extends Numbered s.id post where
  data : ∃ chunks, ((handed s.id post).mapM fun p => audioData p.1) = some chunks ∧
    chunks.flatten ++ rest = emitted s.id post
  next : s.seq = counter (handed s.id post).length
  started : s.started = (0 < (handed s.id post).length : Bool)

/-- What a call of the sink does: it adds entries of the slot's stream to the log and changes the slot's counter and
mark, and where `rest` was to be sent it is now `rest'`. -/
structure Extends (s : Sub) (log : List Entry) (rest : List UInt8) (r : Sub × List Entry) (rest' : List UInt8) :
    Prop where
  slot : r.1 = { s with seq := r.1.seq, started := r.1.started }
  log : ∃ added, r.2 = log ++ added ∧ (∀ en ∈ added, en.Of s.id) ∧
    ∀ post, Tracks s post rest → Tracks r.1 (post ++ added) rest'

theorem Extends.refl (s : Sub) (log : List Entry) (rest : List UInt8) : Extends s log rest (s, log) rest where
  slot := rfl
  log := ⟨[], (List.append_nil _).symm, fun _ h => absurd h List.not_mem_nil, fun post h => by rwa [List.append_nil]⟩

theorem Extends.trans {s : Sub} {log : List Entry} {rest rest' rest'' : List UInt8} {r r' : Sub × List Entry}
    (h : Extends s log rest r rest') (h' : Extends r.1 r.2 rest' r' rest'') : Extends s log rest r' rest'' := by
  obtain ⟨added, hlog, hof, htracks⟩ := h.log
  obtain ⟨added', hlog', hof', htracks'⟩ := h'.log
  have hid : r.1.id = s.id := by rw [h.slot]
  refine ⟨?_, added ++ added', ?_, ?_, ?_⟩
  · rw [h'.slot, h.slot]
  · rw [hlog', hlog, List.append_assoc]
  · intro en hen
    rcases List.mem_append.mp hen with hen | hen
    · exact hof en hen
    · exact hid ▸ hof' en hen
  · intro post hpost
    rw [← List.append_assoc]
    exact htracks' _ (htracks _ hpost)

/-- The counter of a stream of fewer than 2^31 events is the number of the event. -/
theorem counter_val {k : ℕ} (h : k < 2 ^ 31) : (counter k).1 = k := by
  show IntKind.int.wrap k = k
  simp only [IntKind.wrap]
  omega

theorem counter_zero : counter 0 = IntKind.int.zero := Subtype.ext (by decide)

theorem counter_succ (k : ℕ) : IntKind.int.narrow ((counter k).1 + 1) = counter (k + 1) := by
  apply Subtype.ext
  show IntKind.int.wrap (IntKind.int.wrap k + 1) = IntKind.int.wrap ((k + 1 : ℕ) : ℤ)
  simp only [IntKind.wrap]
  push_cast
  omega

/-- The next event of a stream. -/
theorem Numbered.concat {id : ClientId} {post : List Entry} (h : Numbered id post) {e : Event} {line : List UInt8}
    (lossy : Bool) (htype : e.type = .audio) (hseq : e.int .audioSeq = counter (handed id post).length)
    (hstart : e.flag .audioStart = ((handed id post).length == 0))
    (hline : ssoEventEncode e lineMax = some line) (hlen : line.length ≤ lineMax) :
    Numbered id (post ++ [.send id e line lossy]) := by
  have hhanded : handed id (post ++ [.send id e line lossy]) = handed id post ++ [(e, line)] := by
    rw [handed_append]
    exact congrArg _ (List.filterMap_cons_some (if_pos ⟨rfl, htype⟩))
  constructor <;> rw [hhanded]
  · rw [List.map_append, List.length_append, List.length_singleton, List.range_succ, List.map_append, h.seq,
      List.map_singleton, List.map_singleton, hseq]
    rfl
  · rw [List.map_append, List.length_append, List.length_singleton, List.range_succ, List.map_append, h.start,
      List.map_singleton, List.map_singleton, hstart]
  · intro p hp
    rcases List.mem_append.mp hp with hp | hp
    · exact h.fits p hp
    · obtain rfl := List.mem_singleton.mp hp
      exact ⟨hline, hlen⟩

variable (now : ℕ → Bytes StrField.ts.size)

theorem sendChunk_runs {s : Sub} (hsrv : s.srv = true) (log : List Entry) {chunk : List UInt8}
    (hchunk : chunk.length ≤ audioRawMax) (rest : List UInt8) :
    Runs (sendChunk now s log chunk) fun r => Extends s log (chunk ++ rest) r rest := by
  let b64 : Bytes StrField.audioB64.size := ⟨b64Buffer chunk, length_b64Buffer hchunk⟩
  let start : Option Format := if s.started then none else some (s.sr, s.ch)
  let e := audioEvent (now log.length) s.seq start b64
  have hb64 : cstr b64.1 = encoded chunk := cstr_b64Buffer
  have hline : ssoEventEncode e lineMax = some (e.line ++ [0]) := encode_audioEvent _ _ _ _ hb64 hchunk
  have hlen : (e.line ++ [0]).length ≤ lineMax := by
    have hsize : e.size ≤ 6000 := size_audioEvent_le _ _ _ _ hb64 hchunk
    rw [List.length_append, length_line, List.length_singleton]
    unfold lineMax
    omega
  have hrun : sendChunk now s log chunk = .ok ({ s with seq := IntKind.int.narrow (s.seq.1 + 1), started := true },
      log ++ [Entry.send s.id e (e.line ++ [0]) start.isNone]) := by
    rw [sendChunk, encode_chunk hchunk, ok_bind]
    simp only [asArray_of_length (length_b64Buffer hchunk), ok_bind]
    erw [hline]
    simp only [hsrv]
    rfl
  refine ⟨_, hrun, rfl, [Entry.send s.id e (e.line ++ [0]) start.isNone], rfl, ?_, ?_⟩
  · intro en hen
    obtain rfl := List.mem_singleton.mp hen
    rfl
  · intro post hpost
    obtain ⟨chunks, hchunks, hdata⟩ := hpost.data
    have hstart : e.flag .audioStart = ((handed s.id post).length == 0) := by
      rw [show e.flag .audioStart = start.isSome from start_audioEvent _ _ _ _]
      have hstarted := hpost.started
      by_cases hzero : (handed s.id post).length = 0
      · simp [start, hstarted, hzero]
      · simp [start, hstarted, hzero, Nat.pos_of_ne_zero hzero]
    have hseq : e.int .audioSeq = counter (handed s.id post).length :=
      (seq_audioEvent _ _ _ _).trans hpost.next
    have hhanded : handed s.id (post ++ [Entry.send s.id e (e.line ++ [0]) start.isNone]) =
        handed s.id post ++ [(e, e.line ++ [0])] := by
      rw [handed_append]
      exact congrArg _ (List.filterMap_cons_some (if_pos ⟨rfl, type_audioEvent _ _ _ _⟩))
    have hemitted : emitted s.id (post ++ [Entry.send s.id e (e.line ++ [0]) start.isNone]) = emitted s.id post := by
      rw [emitted_append]
      exact List.append_nil _
    refine ⟨hpost.toNumbered.concat _ (type_audioEvent _ _ _ _) hseq hstart hline hlen, ⟨chunks ++ [chunk], ?_, ?_⟩,
      ?_, ?_⟩
    · show (handed s.id _).mapM _ = _
      have hlast : audioData e = some chunk := audioData_audioEvent _ _ _ _ hb64 hchunk
      rw [hhanded, List.mapM_append, hchunks, List.mapM_cons, hlast, List.mapM_nil]
      rfl
    · show _ = emitted s.id _
      rw [hemitted, ← hdata, List.flatten_append, List.flatten_singleton, List.append_assoc]
    · show _ = counter (handed s.id _).length
      rw [hhanded, List.length_append, List.length_singleton, ← counter_succ, ← hpost.next]
    · show true = _
      rw [show ({ s with seq := IntKind.int.narrow (s.seq.1 + 1), started := true } : Sub).id = s.id from rfl, hhanded]
      simp

theorem Extends.srv {s : Sub} {log : List Entry} {rest rest' : List UInt8} {r : Sub × List Entry}
    (h : Extends s log rest r rest') (hsrv : s.srv = true) : r.1.srv = true := by
  rw [h.slot]
  exact hsrv

/-- The sink sends a whole block. -/
theorem audioSubSink_runs (bytes : List UInt8) : ∀ {s : Sub}, s.srv = true → ∀ log : List Entry,
    Runs (audioSubSink now s log bytes) fun r => Extends s log bytes r [] := by
  induction hn : bytes.length using Nat.strong_induction_on generalizing bytes with
  | h n ih =>
    intro s hsrv log
    have hsplit : bytes.take audioRawMax ++ bytes.drop audioRawMax = bytes := List.take_append_drop _ _
    have hfirst := sendChunk_runs now hsrv log (List.length_take_le audioRawMax bytes) (bytes.drop audioRawMax)
    rw [hsplit] at hfirst
    rw [audioSubSink.eq_def]
    refine hfirst.bind ?_
    rintro ⟨s', log'⟩ hr
    dsimp only
    split_ifs with hmore
    · have hpos : 0 < audioRawMax := by
        unfold audioRawMax
        omega
      have hshort : (bytes.drop audioRawMax).length < n := by
        rw [List.length_drop]
        omega
      exact (ih _ hshort _ rfl (hr.srv hsrv) log').mono fun r' hr' => hr.trans hr'
    · rw [List.drop_eq_nil_of_le (Nat.le_of_not_lt hmore)] at hr
      exact .pure hr

/-- A block the encoder emits is to be sent. -/
theorem extends_block (s : Sub) (log : List Entry) (bytes : List UInt8) :
    Extends s log [] (s, log ++ [.block s.id bytes]) bytes where
  slot := rfl
  log := by
    refine ⟨[.block s.id bytes], rfl, ?_, fun post hpost => ?_⟩
    · intro en hen
      obtain rfl := List.mem_singleton.mp hen
      rfl
    · have hhanded : handed s.id (post ++ [.block s.id bytes]) = handed s.id post := by
        rw [handed_append]
        exact List.append_nil _
      have hemitted : emitted s.id (post ++ [.block s.id bytes]) = emitted s.id post ++ bytes := by
        rw [emitted_append]
        exact congrArg _ ((List.flatMap_singleton _ _).trans (if_pos rfl))
      obtain ⟨chunks, hchunks, hdata⟩ := hpost.data
      rw [List.append_nil] at hdata
      refine ⟨⟨?_, ?_, ?_⟩, ⟨chunks, ?_, ?_⟩, ?_, ?_⟩
      · rw [hhanded]
        exact hpost.seq
      · rw [hhanded]
        exact hpost.start
      · rw [hhanded]
        exact hpost.fits
      · rw [hhanded]
        exact hchunks
      · rw [hemitted, hdata]
      · rw [hhanded]
        exact hpost.next
      · rw [hhanded]
        exact hpost.started

/-- All that an encoder emits is sent. -/
theorem emit_runs (blocks : Blocks) : ∀ {s : Sub}, s.srv = true → ∀ log : List Entry,
    Runs (emit now s log blocks) fun r => Extends s log [] r [] := by
  induction blocks with
  | nil => exact fun _ log => .pure (.refl _ log [])
  | cons bytes blocks ih =>
      intro s hsrv log
      have hblock := extends_block s log bytes
      rw [emit, List.foldlM_cons]
      refine (audioSubSink_runs now bytes hsrv _).bind fun r hr => ?_
      have hfirst := hblock.trans hr
      exact (ih (hfirst.srv hsrv) r.2).mono fun r' hr' => hfirst.trans hr'

theorem oggStream_runs {s : Sub} (hsrv : s.enc = true → s.srv = true) (log : List Entry) (blocks : Blocks) :
    Runs (oggStream now s log blocks) fun r => Extends s log [] r [] := by
  unfold oggStream
  split_ifs with henc
  · exact emit_runs now blocks (hsrv henc) log
  · exact .pure (.refl s log [])

end SimpleSatOps.OperatorAudio
