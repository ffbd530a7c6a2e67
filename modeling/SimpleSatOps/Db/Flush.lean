import SimpleSatOps.Db.Batch
import SimpleSatOps.Lib.Machine

/-!
# Batch mode refines direct mode

* `World`, `Action` : calls of `packet_db_insert` in batch mode, and whatever the caller does to its own memory;
* `insertAll` : records inserted one by one in direct mode;
* `Buffered` : the buffer says what the records said when they were inserted;
* `flushRows_spec`, `flushEnd_spec` : the transaction does all or nothing;
* `flush_refines` : what a flush leaves.
-/

namespace SimpleSatOps.PacketDb
open Heap

/-- A call of `packet_db_insert`: what the record said, what was returned, and whether memory was exhausted. -/
structure Call where
  record : Record (List UInt8)
  code : ℤ
  exhausted : Bool

structure World where
  heap : Heap
  conn : Conn
  calls : List Call

/-- `answers` is what `malloc` answers in the call; the caller allocates, writes or frees blocks. -/
inductive BatchAction where
  | insert (rec : Record ℕ) (answers : List (Option ℕ))
  | caller (a : ℕ) (block : Option (List UInt8))

/-- All pointers of the record are good. -/
def live (h : Heap) (r : Record ℕ) : Bool := r.ptrs.all fun p => p.all fun a => (h a).isSome

/-- The block belongs to the buffer. -/
def Conn.owns (c : Conn) (a : ℕ) : Bool := c.batch.any fun d => some a ∈ d.ptrs

namespace World

/-- A connection in batch mode, with nothing in the buffer. -/
def start (heap : Heap) (store : Store) : World := ⟨heap, ⟨store, none, true, [], 0⟩, []⟩

def step (sha1 : List UInt8 → List UInt8) (w : World) : BatchAction → Option World
  | .insert rec answers =>
      if live w.heap rec then
        let (m, conn, code) := insert sha1 ⟨w.heap, answers, false⟩ w.conn rec .done
        some ⟨m.heap, conn, w.calls ++ [⟨rec.deref w.heap, code, m.exhausted⟩]⟩
      else none
  | .caller a block => if w.conn.owns a then none else some { w with heap := Function.update w.heap a block }

end World

/-- Records inserted in direct mode. -/
def insertAll (sha1 : List UInt8 → List UInt8) (store : Store) (rs : List (Record (List UInt8))) : Store :=
  rs.foldl (fun store r => (packetDbInsert sha1 store r .done).1) store

/-- The records that were accepted. -/
def accepted (calls : List Call) : List (Record (List UInt8)) :=
  (calls.filter fun c => c.code = PACKET_DB_INSERT_OK).map Call.record

section Lemmas
variable {h h' : Heap} {r : Record ℕ}

theorem live_iff : live h r = true ↔ Live h r := by
  unfold live Live
  rw [List.all_eq_true]
  constructor
  · intro hall a ha
    have hsome := hall _ ha
    exact Option.isSome_iff_ne_none.mp hsome
  · intro hall p hp
    cases p with
    | none => rfl
    | some a => exact Option.isSome_iff_ne_none.mpr (hall a hp)

theorem deref_valid (h : Heap) (r : Record ℕ) : (r.deref h).valid = r.valid := by
  simp [Record.valid, Record.deref, textAt, bytesAt]

/-- A record whose blocks are left alone says the same. -/
theorem deref_congr (hsame : ∀ a, some a ∈ r.ptrs → h' a = h a) : r.deref h' = r.deref h := by
  have hread : ∀ p ∈ r.ptrs, ∀ a ∈ p, h'.read a = h.read a := by
    rintro _ hp a rfl
    unfold Heap.read
    rw [hsame a hp]
  have htext : ∀ p ∈ r.ptrs, textAt h' p = textAt h p := by
    intro p hp
    refine Option.map_congr fun a ha => ?_
    rw [hread p hp a ha]
  have hpayload : bytesAt h' r.payloadLen r.payload = bytesAt h r.payloadLen r.payload := by
    refine Option.map_congr fun a ha => ?_
    rw [hread _ (by simp [Record.ptrs]) a ha]
  unfold Record.deref
  rw [htext _ (by simp [Record.ptrs]), htext r.satellite (by simp [Record.ptrs]),
    htext r.packetTypeName (by simp [Record.ptrs]), htext r.sourceTool (by simp [Record.ptrs]),
    htext r.sourceRun (by simp [Record.ptrs]), htext r.decodedSummary (by simp [Record.ptrs]),
    htext r.sessionDir (by simp [Record.ptrs]), htext r.captureOrigin (by simp [Record.ptrs]), hpayload]

theorem accepted_concat (calls : List Call) (c : Call) :
    accepted (calls ++ [c]) =
      if c.code = PACKET_DB_INSERT_OK then accepted calls ++ [c.record] else accepted calls := by
  unfold accepted
  rw [List.filter_append, List.map_append]
  split
  · next hc => simp [hc]
  · next hc => simp [hc]

/-- A record that direct mode refuses changes nothing. -/
theorem insertAll_concat_invalid (sha1 : List UInt8 → List UInt8) (store : Store)
    (rs : List (Record (List UInt8))) {x : Record (List UInt8)} (hx : x.valid = false) :
    insertAll sha1 store (rs ++ [x]) = insertAll sha1 store rs := by
  unfold insertAll packetDbInsert
  rw [List.foldl_append, List.foldl_cons, List.foldl_nil, hx]
  rfl

theorem insertAll_concat (sha1 : List UInt8 → List UInt8) (store : Store) (rs : List (Record (List UInt8)))
    (x : Record (List UInt8)) :
    insertAll sha1 store (rs ++ [x]) = (packetDbInsert sha1 (insertAll sha1 store rs) x .done).1 := by
  unfold insertAll
  rw [List.foldl_append, List.foldl_cons, List.foldl_nil]

end Lemmas

/-! ## The buffer -/

/-- The buffer holds what the accepted records said, in blocks that are still there. -/
structure Buffered (store : Store) (w : World) : Prop where
  batchMode : w.conn.batchMode = true
  saved : w.conn.saved = none
  store : w.conn.store = store
  valid : ∀ d ∈ w.conn.batch, d.valid = true
  live : ∀ d ∈ w.conn.batch, Live w.heap d
  records : w.conn.batch.map (Record.deref w.heap) = accepted w.calls
  codes : ∀ c ∈ w.calls, (c.code = PACKET_DB_INSERT_OK → c.record.valid = true) ∧
    (c.exhausted = false → c.record.valid = true → c.code = PACKET_DB_INSERT_OK)

theorem buffered_start (heap : Heap) (store : Store) : Buffered store (.start heap store) where
  batchMode := rfl
  saved := rfl
  store := rfl
  valid _ hd := absurd hd List.not_mem_nil
  live _ hd := absurd hd List.not_mem_nil
  records := rfl
  codes _ hc := absurd hc List.not_mem_nil

namespace Buffered
variable {store : Store} {w : World}

/-- Memory changes, but not that of the buffer. -/
theorem keep (b : Buffered store w) {heap : Heap} (hsame : ∀ a, w.conn.owns a = true → heap a = w.heap a) :
    Buffered store { w with heap } := by
  have hown : ∀ d ∈ w.conn.batch, ∀ a, some a ∈ d.ptrs → heap a = w.heap a := by
    intro d hd a ha
    exact hsame a (List.any_eq_true.mpr ⟨d, hd, decide_eq_true ha⟩)
  refine ⟨b.batchMode, b.saved, b.store, b.valid, ?_, ?_, b.codes⟩
  · intro d hd a ha
    show heap a ≠ none
    rw [hown d hd a ha]
    exact b.live d hd a ha
  · rw [← b.records]
    exact List.map_congr_left fun d hd => deref_congr (hown d hd)

/-- A call that leaves the buffer alone. -/
theorem refuse (b : Buffered store w) {x : Record (List UInt8)} {code : ℤ} {exhausted : Bool}
    (hcode : code ≠ PACKET_DB_INSERT_OK) (hwhy : exhausted = false → x.valid = false) :
    Buffered store { w with calls := w.calls ++ [⟨x, code, exhausted⟩] } := by
  refine ⟨b.batchMode, b.saved, b.store, b.valid, b.live, ?_, ?_⟩
  · show _ = accepted (w.calls ++ [⟨x, code, exhausted⟩])
    rw [accepted_concat, if_neg hcode]
    exact b.records
  · intro c hc
    rcases List.mem_append.mp hc with hc | hc
    · exact b.codes c hc
    · rw [List.mem_singleton.mp hc]
      refine ⟨fun h => absurd h hcode, fun hleft hvalid => ?_⟩
      rw [hwhy hleft] at hvalid
      cases hvalid

/-- A larger array for the same buffer. -/
theorem grow (b : Buffered store w) (cap : ℕ) : Buffered store { w with conn := { w.conn with batchCap := cap } } :=
  ⟨b.batchMode, b.saved, b.store, b.valid, b.live, b.records, b.codes⟩

/-- The blocks of the buffer are allocated. -/
theorem live_of_owns (b : Buffered store w) {a : ℕ} (ha : w.conn.owns a = true) : w.heap a ≠ none := by
  obtain ⟨d, hd, hmem⟩ := List.any_eq_true.mp ha
  exact b.live d hd a (of_decide_eq_true hmem)

/-- A record is copied to the buffer. -/
theorem accept (b : Buffered store w) {m m' : Mem} {rec d : Record ℕ} {exhausted : Bool} (hm : m.heap = w.heap)
    (hc : Copied m rec m' d) (hrec : rec.valid = true) (hoom : oom rec d = false) :
    Buffered store ⟨m'.heap, { w.conn with batch := w.conn.batch ++ [d] },
      w.calls ++ [⟨rec.deref w.heap, PACKET_DB_INSERT_OK, exhausted⟩]⟩ := by
  have hkeep : Buffered store { w with heap := m'.heap } := b.keep fun a ha =>
    (hc.kept a (hm ▸ b.live_of_owns ha)).trans (congrFun hm a)
  have hderef : d.deref m'.heap = rec.deref w.heap := hm ▸ hc.deref hoom
  have hvalid : d.valid = true := by rw [← deref_valid m'.heap, hderef, deref_valid, hrec]
  refine ⟨b.batchMode, b.saved, b.store, ?_, ?_, ?_, ?_⟩
  · intro x hx
    rcases List.mem_append.mp hx with hx | hx
    · exact b.valid x hx
    · rw [List.mem_singleton.mp hx]
      exact hvalid
  · intro x hx
    rcases List.mem_append.mp hx with hx | hx
    · exact hkeep.live x hx
    · rw [List.mem_singleton.mp hx]
      exact hc.live
  · show (w.conn.batch ++ [d]).map (Record.deref m'.heap) = _
    rw [accepted_concat, if_pos rfl, List.map_append, List.map_singleton, hderef]
    exact congrArg (· ++ [rec.deref w.heap]) hkeep.records
  · intro c hcall
    rcases List.mem_append.mp hcall with hcall | hcall
    · exact b.codes c hcall
    · rw [List.mem_singleton.mp hcall]
      exact ⟨fun _ => by rw [deref_valid, hrec], fun _ _ => rfl⟩

theorem growBatch_cases {m m' : Mem} {c : Conn} {c' : Option Conn} (h : growBatch m c = (m', c')) :
    m'.heap = m.heap ∧ (c' = none ∧ m'.exhausted = true ∨ ∃ cap, c' = some { c with batchCap := cap }) := by
  unfold growBatch Mem.realloc at h
  split at h
  · split at h <;> cases h
    all_goals
      next heq =>
        split at heq <;> cases heq
        first | exact ⟨rfl, .inr ⟨_, rfl⟩⟩ | exact ⟨rfl, .inl ⟨rfl, rfl⟩⟩
  · cases h
    exact ⟨rfl, .inr ⟨c.batchCap, rfl⟩⟩

/-- A call of `packet_db_insert`. -/
theorem insert (b : Buffered store w) (sha1 : List UInt8 → List UInt8) {rec : Record ℕ} (hlive : Live w.heap rec)
    {answers : List (Option ℕ)} {m : Mem} {conn : Conn} {code : ℤ}
    (h : PacketDb.insert sha1 ⟨w.heap, answers, false⟩ w.conn rec .done = (m, conn, code)) :
    Buffered store ⟨m.heap, conn, w.calls ++ [⟨rec.deref w.heap, code, m.exhausted⟩]⟩ := by
  unfold PacketDb.insert at h
  rw [if_pos b.batchMode] at h
  split at h
  · next hrec =>
      unfold batchAppend at h
      rcases hgrow : growBatch ⟨w.heap, answers, false⟩ w.conn with ⟨m₁, c₁⟩
      rw [hgrow] at h
      obtain ⟨hheap, ⟨rfl, hexhausted⟩ | ⟨cap, rfl⟩⟩ := growBatch_cases hgrow
      · cases h
        rw [hheap, hexhausted]
        exact b.refuse (by decide) nofun
      · rcases hcopy : copyRecord m₁ rec with ⟨m₂, d⟩
        simp only [hcopy] at h
        have hheap : m₁.heap = w.heap := hheap
        have hcopied : Copied m₁ rec m₂ d := copyRecord_spec (hheap ▸ hlive) hcopy
        split at h
        · next hoom =>
            cases h
            -- What is freed was allocated in this call.
            have hkeep : ∀ a, w.conn.owns a = true → freeRecord m₂.heap d a = w.heap a := by
              intro a ha
              have ha := b.live_of_owns ha
              rw [← hheap] at ha ⊢
              unfold freeRecord
              rw [foldl_free _ fun hmem => ha (hcopied.owned a hmem), hcopied.kept a ha]
            rw [hcopied.missing hrec hoom]
            exact ((b.keep hkeep).grow cap).refuse (by decide) nofun
        · next hoom =>
            cases h
            exact (b.grow cap).accept hheap hcopied hrec (Bool.eq_false_iff.mpr hoom)
  · next hrec =>
      cases h
      exact b.refuse (by decide) fun _ => by rw [deref_valid]; exact Bool.eq_false_iff.mpr hrec

theorem step (b : Buffered store w) {sha1 : List UInt8 → List UInt8} {a : BatchAction} {w' : World}
    (h : w.step sha1 a = some w') : Buffered store w' := by
  cases a with
  | insert rec answers =>
      simp only [World.step, Option.ite_none_right_eq_some, Option.some.injEq] at h
      obtain ⟨hlive, rfl⟩ := h
      exact b.insert sha1 (live_iff.mp hlive) rfl
  | caller a block =>
      simp only [World.step, Option.ite_none_left_eq_some, Option.some.injEq] at h
      obtain ⟨hown, rfl⟩ := h
      refine b.keep fun x hx => Function.update_of_ne ?_ _ _
      rintro rfl
      exact hown hx

end Buffered

/-! ## The transaction -/

/-- The transaction can be rolled back to `before`, or has been. -/
def Conn.Undoable (c : Conn) (before : Store) : Prop :=
  c.rollback.store = before ∧ c.rollback.saved = none

section Transaction
variable {c c' : Conn} {before : Store}

theorem undoable_of_saved (h : c.saved = some before) : c.Undoable before := by
  unfold Conn.Undoable Conn.rollback
  rw [h]
  exact ⟨rfl, rfl⟩

theorem undoable_rollback (h : c.saved = some before) : c.rollback.Undoable before := by
  have hrolled : c.rollback = { c with store := before, saved := none } := by
    unfold Conn.rollback
    rw [h]
  rw [hrolled]
  exact ⟨rfl, rfl⟩

theorem code_ne_ok {rc : Rc} (h : rc ≠ .done) : rc.code ≠ PACKET_DB_INSERT_OK := by
  cases rc with
  | done => exact absurd rfl h
  | busy | error => decide

/-- A row is written, or the transaction can be undone. -/
theorem insertRow_spec (sha1 : List UInt8 → List UInt8) (h : Heap) (hsaved : c.saved = some before) {r : Record ℕ}
    (hvalid : r.valid = true) (rc : Rc) (undone : Bool) {code : ℤ}
    (hrow : c.insertRow sha1 h r rc undone = (c', code)) :
    (code = PACKET_DB_INSERT_OK ∧ c'.saved = some before ∧
      c'.store = (packetDbInsert sha1 c.store (r.deref h) .done).1) ∨
      (code ≠ PACKET_DB_INSERT_OK ∧ c'.Undoable before) := by
  cases rc with
  | done =>
      cases hrow
      refine .inl ⟨rfl, hsaved, ?_⟩
      unfold packetDbInsert
      rw [deref_valid, if_pos hvalid]
      rfl
  | busy | error =>
      cases hrow
      refine .inr ⟨code_ne_ok nofun, ?_⟩
      split
      · exact undoable_rollback hsaved
      · exact undoable_of_saved hsaved

/-- All rows are written, or the transaction can be undone. -/
theorem flushRows_spec (sha1 : List UInt8 → List UInt8) (h : Heap) (hsaved : c.saved = some before)
    {rs : List (Record ℕ)} (hvalid : ∀ r ∈ rs, r.valid = true) (answers : List (Rc × Bool)) {result : ℤ}
    (hrows : flushRows sha1 h c rs answers = (c', result)) :
    (result = PACKET_DB_INSERT_OK ∧ c'.saved = some before ∧
      c'.store = insertAll sha1 c.store (rs.map (Record.deref h))) ∨
      (result ≠ PACKET_DB_INSERT_OK ∧ c'.Undoable before) := by
  induction rs generalizing c answers with
  | nil =>
      cases hrows
      exact .inl ⟨rfl, hsaved, rfl⟩
  | cons r rs ih =>
      rcases hrow : c.insertRow sha1 h r (answers.headD (.done, false)).1 (answers.headD (.done, false)).2 with
        ⟨c₁, code⟩
      simp only [flushRows, hrow] at hrows
      have hspec := insertRow_spec sha1 h hsaved (hvalid r List.mem_cons_self) _ _ hrow
      split at hrows
      · next hcode =>
          obtain ⟨-, hsaved₁, hstore⟩ := hspec.resolve_right fun hfail => hfail.1 hcode
          have hrest := ih hsaved₁ (fun x hx => hvalid x (List.mem_cons_of_mem _ hx)) _ hrows
          rw [hstore] at hrest
          exact hrest
      · next hcode =>
          cases hrows
          exact .inr (hspec.resolve_left fun hdone => hcode hdone.1)

/-- The transaction is committed with all rows, or rolled back. -/
theorem flushEnd_spec {after : Store} {result : ℤ} (answers : Answers)
    (hrows : (result = PACKET_DB_INSERT_OK ∧ c.saved = some before ∧ c.store = after) ∨
      (result ≠ PACKET_DB_INSERT_OK ∧ c.Undoable before)) {result' : ℤ}
    (hend : flushEnd answers c result = (c', result')) :
    c'.saved = none ∧ ((result' = PACKET_DB_INSERT_OK ∧ c'.store = after) ∨
      (result' ≠ PACKET_DB_INSERT_OK ∧ c'.store = before)) := by
  unfold flushEnd at hend
  rcases hrows with ⟨hok, hsaved, hstore⟩ | ⟨hfail, hundo⟩
  · rw [if_pos hok] at hend
    unfold Conn.commit at hend
    rw [hsaved] at hend
    cases hrc : answers.commit with
    | done =>
        simp only [hrc, if_true] at hend
        cases hend
        exact ⟨rfl, .inl ⟨rfl, hstore⟩⟩
    | busy | error =>
        simp only [hrc, reduceCtorEq, if_false] at hend
        cases hend
        have hundo : Conn.Undoable (if answers.undone = true then c.rollback else c) before := by
          split
          · exact undoable_rollback hsaved
          · exact undoable_of_saved hsaved
        exact ⟨hundo.2, .inr ⟨by decide, hundo.1⟩⟩
  · rw [if_neg hfail] at hend
    cases hend
    exact ⟨hundo.2, .inr ⟨hfail, hundo.1⟩⟩

end Transaction

/-- When every call had memory, the records that were not accepted are those that direct mode refuses. -/
theorem insertAll_accepted (sha1 : List UInt8 → List UInt8) (store : Store) {calls : List Call}
    (hcodes : ∀ c ∈ calls, (c.code = PACKET_DB_INSERT_OK → c.record.valid = true) ∧
      (c.exhausted = false → c.record.valid = true → c.code = PACKET_DB_INSERT_OK))
    (hleft : ∀ c ∈ calls, c.exhausted = false) :
    insertAll sha1 store (accepted calls) = insertAll sha1 store (calls.map Call.record) := by
  induction calls using List.reverseRecOn with
  | nil => rfl
  | append_singleton calls c ih =>
      have hmem : c ∈ calls ++ [c] := List.mem_append_right _ (List.mem_singleton_self c)
      have ih := ih (fun x hx => hcodes x (List.mem_append_left _ hx)) fun x hx => hleft x (List.mem_append_left _ hx)
      rw [accepted_concat, List.map_append, List.map_singleton]
      split
      · rw [insertAll_concat, insertAll_concat, ih]
      · next hcode =>
          have hinvalid : c.record.valid = false :=
            Bool.eq_false_iff.mpr fun hvalid => hcode ((hcodes c hmem).2 (hleft c hmem) hvalid)
          rw [insertAll_concat_invalid sha1 store _ hinvalid, ih]

/-- Records are inserted in batch mode, the caller does to its memory what it likes, and the buffer is flushed. When the
flush returns OK, the store is that of direct mode with the accepted records, which are all the records that direct mode
accepts as long as there is memory; else the store is that of before. The buffer is empty, and no transaction open. -/
theorem flush_refines (sha1 : List UInt8 → List UInt8) (heap : Heap) (store : Store) {w : World}
    (h : Reaches (World.step sha1) Free (.start heap store) w) (answers : Answers) {heap' : Heap} {conn : Conn}
    {result : ℤ} (hflush : packetDbFlush sha1 w.heap w.conn answers = (heap', conn, result)) :
    conn.batch = [] ∧ conn.saved = none ∧
      (result = PACKET_DB_INSERT_OK → conn.store = insertAll sha1 store (accepted w.calls) ∧
        ((∀ c ∈ w.calls, c.exhausted = false) → conn.store = insertAll sha1 store (w.calls.map Call.record))) ∧
      (result ≠ PACKET_DB_INSERT_OK → conn.store = store) := by
  have hb : Buffered store w := h.invariant (buffered_start heap store) fun _ _ _ hb _ hs => hb.step hs
  have hall := fun hleft => insertAll_accepted sha1 store hb.codes hleft
  suffices hdone : conn.batch = [] ∧ conn.saved = none ∧
      ((result = PACKET_DB_INSERT_OK ∧ conn.store = insertAll sha1 store (accepted w.calls)) ∨
        (result ≠ PACKET_DB_INSERT_OK ∧ conn.store = store)) by
    obtain ⟨hbatch, hsaved, hcases⟩ := hdone
    refine ⟨hbatch, hsaved, fun hok => ?_, fun hne => (hcases.resolve_left fun hok => hne hok.1).2⟩
    have hstore := (hcases.resolve_right fun hfail => hfail.1 hok).2
    exact ⟨hstore, fun hleft => hstore.trans (hall hleft)⟩
  unfold packetDbFlush at hflush
  split at hflush
  · next hbatch =>
      cases hflush
      have hnone : accepted w.calls = [] := by rw [← hb.records, hbatch, List.map_nil]
      rw [hnone]
      exact ⟨hbatch, hb.saved, .inl ⟨rfl, hb.store⟩⟩
  · have hbegin : w.conn.beginImmediate answers.start =
        (if answers.start = .done then { w.conn with saved := some w.conn.store } else w.conn, answers.start) := by
      unfold Conn.beginImmediate
      rw [hb.saved]
    rw [hbegin] at hflush
    cases hstart : answers.start with
    | done =>
        rcases hrows : flushRows sha1 w.heap { w.conn with saved := some w.conn.store } w.conn.batch answers.rows
          with ⟨c₁, result₁⟩
        rcases hend : flushEnd answers c₁ result₁ with ⟨c₂, result₂⟩
        simp only [hstart, if_true, hrows, hend] at hflush
        cases hflush
        have hspec := flushEnd_spec answers (flushRows_spec sha1 w.heap rfl hb.valid answers.rows hrows) hend
        rw [hb.records, hb.store] at hspec
        exact ⟨rfl, hspec⟩
    | busy | error =>
        simp only [hstart, reduceCtorEq, if_false] at hflush
        cases hflush
        exact ⟨rfl, hb.saved, .inr ⟨by decide, hb.store⟩⟩

/-- A record is buffered, the caller writes over its payload, and the flush stores the payload of before. -/
theorem flush_refines_reused : ∃ conn : Conn, conn.batch = [] ∧ conn.saved = none ∧
    conn.store.table.rows.map (fun x => x.2.payload) = [[1]] ∧
      conn.store = insertAll sha1One .empty
        [(Record.deref (fun a => if a < 4 then some [1, 0] else none)
          { Record.blank with
            tsReceived := some 0, packetTypeName := some 1, sourceTool := some 2, payload := some 3
            payloadLen := 1 })] := by
  have hrun : Reaches (World.step sha1One) Free (.start (fun a => if a < 4 then some [1, 0] else none) .empty) _ :=
    .of_run [.insert
      { Record.blank with
        tsReceived := some 0, packetTypeName := some 1, sourceTool := some 2, payload := some 3, payloadLen := 1 }
      [some 9, some 10, some 11, some 12, some 13], .caller 3 (some [8])] (by decide +kernel)
  obtain ⟨hbatch, hsaved, hok, -⟩ := flush_refines sha1One _ _ hrun ⟨.done, [], .done, false⟩ rfl
  refine ⟨_, hbatch, hsaved, ?_, (hok (by decide +kernel)).1.trans ?_⟩
  · decide +kernel
  · rfl

end SimpleSatOps.PacketDb
