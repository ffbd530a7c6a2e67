import SimpleSatOps.Db.PacketDb
import SimpleSatOps.Lib.Heap

/-!
# Batch mode

* `Record.deref`, `copyRecord` : what a record says, and the deep copy of `batch_append`;
* `Conn` : a connection with its transaction and its buffer;
* `insert`, `packetDbFlush` : `packet_db_insert` in both modes, and the transaction that writes the buffer;
* `copyRecord_spec` : a copy that is complete says the same, in blocks of its own.
-/

namespace SimpleSatOps.PacketDb
open Heap

/-- The pointers of a record, in the order of `free_record`. -/
def Record.ptrs {α : Type} (r : Record α) : List (Option α) :=
  [r.tsReceived, r.satellite, r.packetTypeName, r.sourceTool, r.sourceRun, r.decodedSummary, r.sessionDir,
    r.captureOrigin, r.payload]

/-- The text at a pointer. -/
def textAt (h : Heap) (p : Option ℕ) : Option (List UInt8) := p.map fun a => cstr (h.read a)

def bytesAt (h : Heap) (n : ℕ) (p : Option ℕ) : Option (List UInt8) := p.map fun a => (h.read a).take n

/-- What a record says. -/
def Record.deref (h : Heap) (r : Record ℕ) : Record (List UInt8) :=
  { r with
    tsReceived := textAt h r.tsReceived
    satellite := textAt h r.satellite
    packetTypeName := textAt h r.packetTypeName
    payload := bytesAt h r.payloadLen r.payload
    sourceTool := textAt h r.sourceTool
    sourceRun := textAt h r.sourceRun
    decodedSummary := textAt h r.decodedSummary
    sessionDir := textAt h r.sessionDir
    captureOrigin := textAt h r.captureOrigin }

/-! ## Buffering -/

/-- `dup_str` -/
def dupStr (m : Mem) (s : Option ℕ) : Mem × Option ℕ := m.dup (fun b => cstr b ++ [0]) s

/-- `dup_bytes` -/
def dupBytes (m : Mem) (p : Option ℕ) (n : ℕ) : Mem × Option ℕ := m.dup (List.take n) p

/-- The copies of `batch_append`. -/
def copyRecord (m : Mem) (rec : Record ℕ) : Mem × Record ℕ :=
  let (m, tsReceived) := dupStr m rec.tsReceived
  let (m, satellite) := dupStr m rec.satellite
  let (m, packetTypeName) := dupStr m rec.packetTypeName
  let (m, sourceTool) := dupStr m rec.sourceTool
  let (m, sourceRun) := dupStr m rec.sourceRun
  let (m, decodedSummary) := dupStr m rec.decodedSummary
  let (m, sessionDir) := dupStr m rec.sessionDir
  let (m, captureOrigin) := dupStr m rec.captureOrigin
  let (m, payload) := dupBytes m rec.payload rec.payloadLen
  (m, { rec with
    tsReceived, satellite, packetTypeName, sourceTool, sourceRun, decodedSummary, sessionDir, captureOrigin, payload })

/-- The check of `batch_append` that memory was exhausted. -/
def oom (rec d : Record ℕ) : Bool :=
  d.tsReceived.isNone || d.packetTypeName.isNone || d.sourceTool.isNone || d.payload.isNone
    || (rec.satellite.isSome && d.satellite.isNone)
    || (rec.sourceRun.isSome && d.sourceRun.isNone)
    || (rec.decodedSummary.isSome && d.decodedSummary.isNone)
    || (rec.sessionDir.isSome && d.sessionDir.isNone)
    || (rec.captureOrigin.isSome && d.captureOrigin.isNone)

/-- `free_record` -/
def freeRecord (h : Heap) (d : Record ℕ) : Heap := d.ptrs.foldl free h

/-- `packet_db_t`. `saved` is the store at the beginning of the transaction, `none` outside of one. -/
structure Conn where
  store : Store
  saved : Option Store
  batchMode : Bool
  batch : List (Record ℕ)
  batchCap : ℕ

/-- The buffer is made larger when it is full. -/
def growBatch (m : Mem) (c : Conn) : Mem × Option Conn :=
  if c.batch.length = c.batchCap then
    match m.realloc with
    | (m, true) => (m, some { c with batchCap := if c.batchCap = 0 then 128 else c.batchCap * 2 })
    | (m, false) => (m, none)
  else (m, some c)

/-- `batch_append` -/
def batchAppend (m : Mem) (c : Conn) (rec : Record ℕ) : Mem × Conn × ℤ :=
  match growBatch m c with
  | (m, none) => (m, c, PACKET_DB_INSERT_ERROR)
  | (m, some c) =>
      let (m, d) := copyRecord m rec
      if oom rec d then ({ m with heap := freeRecord m.heap d }, c, PACKET_DB_INSERT_ERROR)
      else (m, { c with batch := c.batch ++ [d] }, PACKET_DB_INSERT_OK)

/-- `packet_db_insert` -/
def insert (sha1 : List UInt8 → List UInt8) (m : Mem) (c : Conn) (rec : Record ℕ) (rc : Rc) : Mem × Conn × ℤ :=
  if rec.valid then
    if c.batchMode then batchAppend m c rec
    else
      let (store, code) := insertBound sha1 c.store (rec.deref m.heap) rc
      (m, { c with store }, code)
  else (m, c, -1)

/-! ## The transaction -/

namespace Conn

/-- `BEGIN IMMEDIATE` -/
def beginImmediate (c : Conn) (rc : Rc) : Conn × Rc :=
  match c.saved with
  | none => (if rc = .done then { c with saved := some c.store } else c, rc)
  | some _ => (c, .error)

/-- `ROLLBACK`; an error outside of a transaction, which is not looked at. -/
def rollback (c : Conn) : Conn :=
  match c.saved with
  | some store => { c with store, saved := none }
  | none => c

/-- `COMMIT`. One that fails may have rolled back by itself. -/
def commit (c : Conn) (rc : Rc) (undone : Bool) : Conn × Rc :=
  match c.saved with
  | some _ => (if rc = .done then { c with saved := none } else if undone then c.rollback else c, rc)
  | none => (c, .error)

/-- One row of the buffer is written. A statement that fails may have rolled back by itself. -/
def insertRow (sha1 : List UInt8 → List UInt8) (h : Heap) (c : Conn) (r : Record ℕ) (rc : Rc) (undone : Bool) :
    Conn × ℤ :=
  let (store, code) := insertBound sha1 c.store (r.deref h) rc
  (if rc ≠ .done ∧ undone then { c with store }.rollback else { c with store }, code)

/-- `batch_clear` -/
def clear (c : Conn) : Conn := { c with batch := [], batchCap := 0 }

end Conn

/-- What SQLite answers in the course of a flush. -/
structure Answers where
  start : Rc
  rows : List (Rc × Bool)
  commit : Rc
  undone : Bool

/-- The loop of `packet_db_flush`. -/
def flushRows (sha1 : List UInt8 → List UInt8) (h : Heap) (c : Conn) :
    List (Record ℕ) → List (Rc × Bool) → Conn × ℤ
  | [], _ => (c, PACKET_DB_INSERT_OK)
  | r :: rs, answers =>
      let (rc, undone) := answers.headD (.done, false)
      let (c, irc) := c.insertRow sha1 h r rc undone
      if irc = PACKET_DB_INSERT_OK then flushRows sha1 h c rs answers.tail else (c, irc)

/-- The end of `packet_db_flush`, with the result of the loop. -/
def flushEnd (answers : Answers) (c : Conn) (result : ℤ) : Conn × ℤ :=
  if result = PACKET_DB_INSERT_OK then
    match c.commit answers.commit answers.undone with
    | (c, .done) => (c, PACKET_DB_INSERT_OK)
    | (c, rc) => (c.rollback, rc.code)
  else (c.rollback, result)

/-- `packet_db_flush` -/
def packetDbFlush (sha1 : List UInt8 → List UInt8) (h : Heap) (c : Conn) (answers : Answers) : Heap × Conn × ℤ :=
  if c.batch = [] then (h, c, PACKET_DB_INSERT_OK)
  else
    let cleared := c.batch.foldl freeRecord h
    match c.beginImmediate answers.start with
    | (c, .done) =>
        let (c, result) := flushRows sha1 h c c.batch answers.rows
        let (c, result) := flushEnd answers c result
        (cleared, c.clear, result)
    | (c, rc) => (cleared, c.clear, rc.code)

/-! ## Copies -/

/-- What a record points to is allocated. -/
def Live (h : Heap) (r : Record ℕ) : Prop := ∀ a, some a ∈ r.ptrs → h a ≠ none

theorem textAt_copy {h h' : Heap} {p q : Option ℕ} (c : Copy (fun b => cstr b ++ [0]) h p h' q)
    (hq : p.isSome = true → q.isSome = true) : textAt h' q = textAt h p := by
  cases q with
  | none =>
      cases p with
      | none => rfl
      | some b => exact absurd (hq rfl) (by decide)
  | some a =>
      obtain ⟨-, b, rfl, hblock⟩ := c a rfl
      show some (cstr (h'.read a)) = some (cstr (h.read b))
      rw [Heap.read, hblock, Option.getD_some, cstr_append_nul (nul_not_mem_cstr _)]

theorem bytesAt_copy {h h' : Heap} {p q : Option ℕ} {n : ℕ} (c : Copy (List.take n) h p h' q)
    (hq : p.isSome = true → q.isSome = true) : bytesAt h' n q = bytesAt h n p := by
  cases q with
  | none =>
      cases p with
      | none => rfl
      | some b => exact absurd (hq rfl) (by decide)
  | some a =>
      obtain ⟨-, b, rfl, hblock⟩ := c a rfl
      show some ((h'.read a).take n) = some ((h.read b).take n)
      rw [Heap.read, hblock, Option.getD_some, List.take_take, min_self]

theorem dupStr_spec {m m' : Mem} {p q : Option ℕ} (h : dupStr m p = (m', q)) :
    Dup (fun b => cstr b ++ [0]) m p m' q := by
  have hspec := dup_spec (fun b => cstr b ++ [0]) m p
  unfold dupStr at h
  rwa [h] at hspec

theorem dupBytes_spec {m m' : Mem} {p q : Option ℕ} {n : ℕ} (h : dupBytes m p n = (m', q)) :
    Dup (List.take n) m p m' q := by
  have hspec := dup_spec (List.take n) m p
  unfold dupBytes at h
  rwa [h] at hspec

/-- What the copies of a record are. -/
structure Copied (m : Mem) (rec : Record ℕ) (m' : Mem) (d : Record ℕ) : Prop where
  kept : Kept m.heap m'.heap
  owned : ∀ a, some a ∈ d.ptrs → m.heap a = none
  live : Live m'.heap d
  deref : oom rec d = false → d.deref m'.heap = rec.deref m.heap
  missing : rec.valid = true → oom rec d = true → m'.exhausted = true

theorem copyRecord_spec {m m' : Mem} {rec d : Record ℕ} (hlive : Live m.heap rec)
    (h : copyRecord m rec = (m', d)) : Copied m rec m' d := by
  rcases h₁ : dupStr m rec.tsReceived with ⟨m₁, q₁⟩
  rcases h₂ : dupStr m₁ rec.satellite with ⟨m₂, q₂⟩
  rcases h₃ : dupStr m₂ rec.packetTypeName with ⟨m₃, q₃⟩
  rcases h₄ : dupStr m₃ rec.sourceTool with ⟨m₄, q₄⟩
  rcases h₅ : dupStr m₄ rec.sourceRun with ⟨m₅, q₅⟩
  rcases h₆ : dupStr m₅ rec.decodedSummary with ⟨m₆, q₆⟩
  rcases h₇ : dupStr m₆ rec.sessionDir with ⟨m₇, q₇⟩
  rcases h₈ : dupStr m₇ rec.captureOrigin with ⟨m₈, q₈⟩
  rcases h₉ : dupBytes m₈ rec.payload rec.payloadLen with ⟨m₉, q₉⟩
  simp only [copyRecord, h₁, h₂, h₃, h₄, h₅, h₆, h₇, h₈, h₉, Prod.mk.injEq] at h
  obtain ⟨rfl, rfl⟩ := h
  have s₁ := dupStr_spec h₁
  have s₂ := dupStr_spec h₂
  have s₃ := dupStr_spec h₃
  have s₄ := dupStr_spec h₄
  have s₅ := dupStr_spec h₅
  have s₆ := dupStr_spec h₆
  have s₇ := dupStr_spec h₇
  have s₈ := dupStr_spec h₈
  have s₉ := dupBytes_spec h₉
  -- From the beginning to each copy, and from each copy to the end.
  have k₂ := s₁.kept.trans s₂.kept
  have k₃ := k₂.trans s₃.kept
  have k₄ := k₃.trans s₄.kept
  have k₅ := k₄.trans s₅.kept
  have k₆ := k₅.trans s₆.kept
  have k₇ := k₆.trans s₇.kept
  have k₈ := k₇.trans s₈.kept
  have e₈ := s₉.kept
  have e₇ := s₈.kept.trans e₈
  have e₆ := s₇.kept.trans e₇
  have e₅ := s₆.kept.trans e₆
  have e₄ := s₅.kept.trans e₅
  have e₃ := s₄.kept.trans e₄
  have e₂ := s₃.kept.trans e₃
  have e₁ := s₂.kept.trans e₂
  have hp : ∀ {p : Option ℕ}, p ∈ rec.ptrs → ∀ b, p = some b → m.heap b ≠ none := by
    rintro _ hmem b rfl
    exact hlive b hmem
  have c₁ := s₁.copy.widen (.refl _) (hp (by simp [Record.ptrs])) e₁
  have c₂ := s₂.copy.widen s₁.kept (hp (by simp [Record.ptrs])) e₂
  have c₃ := s₃.copy.widen k₂ (hp (by simp [Record.ptrs])) e₃
  have c₄ := s₄.copy.widen k₃ (hp (by simp [Record.ptrs])) e₄
  have c₅ := s₅.copy.widen k₄ (hp (by simp [Record.ptrs])) e₅
  have c₆ := s₆.copy.widen k₅ (hp (by simp [Record.ptrs])) e₆
  have c₇ := s₇.copy.widen k₆ (hp (by simp [Record.ptrs])) e₇
  have c₈ := s₈.copy.widen k₇ (hp (by simp [Record.ptrs])) e₈
  have c₉ := s₉.copy.widen k₈ (hp (by simp [Record.ptrs])) (.refl _)
  have hfresh : ∀ a, some a ∈ [q₁, q₂, q₃, q₄, q₅, q₆, q₇, q₈, q₉] → m.heap a = none ∧ m₉.heap a ≠ none := by
    intro a ha
    simp only [List.mem_cons, List.not_mem_nil, or_false] at ha
    rcases ha with ha | ha | ha | ha | ha | ha | ha | ha | ha
    exacts [c₁.fresh ha.symm, c₂.fresh ha.symm, c₃.fresh ha.symm, c₄.fresh ha.symm, c₅.fresh ha.symm,
      c₆.fresh ha.symm, c₇.fresh ha.symm, c₈.fresh ha.symm, c₉.fresh ha.symm]
  refine ⟨k₈.trans s₉.kept, fun a ha => (hfresh a ha).1, fun a ha => (hfresh a ha).2, fun hoom => ?_,
    fun hvalid hoom => ?_⟩
  · simp only [oom, Bool.or_eq_false_iff, Option.isNone_eq_false_iff, Bool.and_eq_false_imp] at hoom
    obtain ⟨⟨⟨⟨⟨⟨⟨⟨p₁, p₃⟩, p₄⟩, p₉⟩, p₂⟩, p₅⟩, p₆⟩, p₇⟩, p₈⟩ := hoom
    simp only [Record.deref, textAt_copy c₁ fun _ => p₁, textAt_copy c₂ p₂, textAt_copy c₃ fun _ => p₃,
      textAt_copy c₄ fun _ => p₄, textAt_copy c₅ p₅, textAt_copy c₆ p₆, textAt_copy c₇ p₇, textAt_copy c₈ p₈,
      bytesAt_copy c₉ fun _ => p₉]
  · by_contra hleft
    have l₉ := Bool.eq_false_iff.mpr hleft
    have l₈ := s₉.left l₉
    have l₇ := s₈.left l₈
    have l₆ := s₇.left l₇
    have l₅ := s₆.left l₆
    have l₄ := s₅.left l₅
    have l₃ := s₄.left l₄
    have l₂ := s₃.left l₃
    have l₁ := s₂.left l₂
    simp only [Record.valid, Bool.and_eq_true] at hvalid
    obtain ⟨⟨⟨v₁, v₄⟩, v₉⟩, v₃⟩ := hvalid
    refine Bool.eq_false_iff.mp ?_ hoom
    simp only [oom, Bool.or_eq_false_iff, Option.isNone_eq_false_iff, Bool.and_eq_false_imp]
    exact ⟨⟨⟨⟨⟨⟨⟨⟨s₁.isSome l₁ v₁, s₃.isSome l₃ v₃⟩, s₄.isSome l₄ v₄⟩, s₉.isSome l₉ v₉⟩, s₂.isSome l₂⟩,
      s₅.isSome l₅⟩, s₆.isSome l₆⟩, s₇.isSome l₇⟩, s₈.isSome l₈⟩

end SimpleSatOps.PacketDb
