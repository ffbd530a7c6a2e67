import SimpleSatOps.Lib.CText
import SimpleSatOps.Lib.Double
import SimpleSatOps.Lib.Table

/-!
# The packet store

* `Record`, `Row` : what a receiver hands over, and what the `packet` table holds;
* `Store` : the table, the columns later versions added, the two indexes of the migrations, `PRAGMA user_version`;
* `insertBound`, `packetDbInsert` : one record, written at once;
* `Statement`, `exec` : the statements of `packet_db_open`;
* `ladder`, `migrations` : which of them are run from a version.

SQLite: each statement is atomic, NULL is distinct from NULL in a unique index, `OR IGNORE` drops a row that breaks a
constraint, and only such a row.
-/

namespace SimpleSatOps.PacketDb

/-! ## Records and rows -/

/-- `packet_db_record_t`. A pointer is `none` when it is NULL and else what it points to: a text, or an address of
it. -/
structure Record (α : Type) where
  tsReceived : Option α
  satellite : Option α
  packetType : ℤ
  packetTypeName : Option α
  cspSrc : ℤ
  cspDst : ℤ
  cspDport : ℤ
  cspSport : ℤ
  cspPrio : ℤ
  cspFlags : ℤ
  cspPresent : Bool
  payload : Option α
  payloadLen : ℕ
  golayErrs : ℤ
  rsErrs : ℤ
  hmacOk : ℤ
  crcStatus : ℤ
  sourceTool : Option α
  sourceRun : Option α
  audioOffsetS : Double
  decodedSummary : Option α
  azDeg : Double
  elDeg : Double
  rangeKm : Double
  rangeRateKmS : Double
  dopplerHzOffset : Double
  tleId : ℤ
  sessionDir : Option α
  captureOrigin : Option α

/-- The columns of `packet` but the id. -/
structure Row where
  tsReceived : List UInt8
  satellite : Option (List UInt8)
  packetType : ℤ
  packetTypeName : List UInt8
  cspSrc : Option ℤ
  cspDst : Option ℤ
  cspDport : Option ℤ
  cspSport : Option ℤ
  cspPrio : Option ℤ
  cspFlags : Option ℤ
  payload : List UInt8
  payloadSha1 : List UInt8
  golayErrs : Option ℤ
  rsErrs : Option ℤ
  hmacOk : Option ℤ
  crcStatus : Option ℤ
  sourceTool : List UInt8
  sourceRun : Option (List UInt8)
  audioOffsetS : Option Double
  decodedSummary : Option (List UInt8)
  azDeg : Option Double
  elDeg : Option Double
  rangeKm : Option Double
  rangeRateKmS : Option Double
  dopplerHzOffset : Option Double
  tleId : Option ℤ
  sessionDir : Option (List UInt8)
  captureOrigin : Option (List UInt8)
deriving DecidableEq

/-- A record that says nothing. -/
def Record.blank {α : Type} : Record α where
  tsReceived := none
  satellite := none
  packetType := 0
  packetTypeName := none
  cspSrc := 0
  cspDst := 0
  cspDport := 0
  cspSport := 0
  cspPrio := 0
  cspFlags := 0
  cspPresent := false
  payload := none
  payloadLen := 0
  golayErrs := 0
  rsErrs := 0
  hmacOk := 0
  crcStatus := 0
  sourceTool := none
  sourceRun := none
  audioOffsetS := .zero
  decodedSummary := none
  azDeg := .zero
  elDeg := .zero
  rangeKm := .zero
  rangeRateKmS := .zero
  dopplerHzOffset := .zero
  tleId := 0
  sessionDir := none
  captureOrigin := none

/-- A frame as a receiver hands it over, without an origin. -/
def frame (run : List UInt8) : Record (List UInt8) :=
  { Record.blank with
    tsReceived := some (text "2026-01-01T00:00:00Z")
    packetTypeName := some (text "beacon")
    payload := some [1]
    payloadLen := 1
    sourceTool := some (text "rx_replay")
    sourceRun := some run }

/-- The SHA-1 of the payload `01`. -/
def sha1One : List UInt8 → List UInt8 := fun _ =>
  [0xbf, 0x8b, 0x45, 0x30, 0xd8, 0xd2, 0x46, 0xdd, 0x74, 0xac, 0x53, 0xa1, 0x34, 0x71, 0xbb, 0xa1,
    0x79, 0x41, 0xdf, 0xf7]

/-- The pointers `packet_db_insert` asks for. -/
def Record.valid {α : Type} (r : Record α) : Bool :=
  r.tsReceived.isSome && r.sourceTool.isSome && r.payload.isSome && r.packetTypeName.isSome

/-- `bind_int_or_null` -/
def intOrNull (v : ℤ) (valid : Bool) : Option ℤ := if valid then some v else none

/-- `bind_double_or_null` -/
def doubleOrNull (v : Double) : Option Double := if v.isNan then none else some v

/-- The values `insert_bound` binds; `none` when a column that is NOT NULL would be NULL. -/
def Record.row (sha1 : List UInt8 → List UInt8) (r : Record (List UInt8)) : Option Row := do
  let tsReceived ← r.tsReceived
  let packetTypeName ← r.packetTypeName
  let payload ← r.payload
  let sourceTool ← r.sourceTool
  return {
    tsReceived
    satellite := r.satellite
    packetType := r.packetType
    packetTypeName
    cspSrc := intOrNull r.cspSrc r.cspPresent
    cspDst := intOrNull r.cspDst r.cspPresent
    cspDport := intOrNull r.cspDport r.cspPresent
    cspSport := intOrNull r.cspSport r.cspPresent
    cspPrio := intOrNull r.cspPrio r.cspPresent
    cspFlags := intOrNull r.cspFlags r.cspPresent
    payload
    payloadSha1 := sha1 payload
    golayErrs := some r.golayErrs
    rsErrs := some r.rsErrs
    hmacOk := some r.hmacOk
    crcStatus := some r.crcStatus
    sourceTool
    sourceRun := r.sourceRun
    audioOffsetS := doubleOrNull r.audioOffsetS
    decodedSummary := r.decodedSummary
    azDeg := doubleOrNull r.azDeg
    elDeg := doubleOrNull r.elDeg
    rangeKm := doubleOrNull r.rangeKm
    rangeRateKmS := doubleOrNull r.rangeRateKmS
    dopplerHzOffset := doubleOrNull r.dopplerHzOffset
    tleId := if 0 < r.tleId then some r.tleId else none
    sessionDir := r.sessionDir
    captureOrigin := r.captureOrigin }

/-! ## The store -/

/-- `UNIQUE (payload_sha1, source_tool, source_run)` of the table. -/
def sha1ToolRun : Index Row (List UInt8) := fun r => [some r.payloadSha1, some r.sourceTool, r.sourceRun]

/-- `idx_packet_sha1_tool` -/
def sha1Tool : Index Row (List UInt8) := fun r => [some r.payloadSha1, some r.sourceTool]

/-- `idx_packet_sha1_tool_origin` -/
def sha1ToolOrigin : Index Row (List UInt8) := fun r => [some r.payloadSha1, some r.sourceTool, r.captureOrigin]

/-- The columns that versions 2 and 4 added. -/
inductive Column where
  | azDeg
  | elDeg
  | rangeKm
  | rangeRateKmS
  | dopplerHzOffset
  | tleId
  | sessionDir
  | captureOrigin
deriving DecidableEq

/-- The columns of version 2. -/
def v2Columns : List Column := [.azDeg, .elDeg, .rangeKm, .rangeRateKmS, .dopplerHzOffset, .tleId, .sessionDir]

structure Store where
  created : Bool
  table : Table Row
  columns : List Column
  hasSha1Tool : Bool
  hasSha1ToolOrigin : Bool
  userVersion : ℕ

namespace Store

/-- No file, or an empty one. -/
def empty : Store := ⟨false, .empty, [], false, false, 0⟩

/-- The unique indexes there are. -/
def indexes (s : Store) : List (Index Row (List UInt8)) :=
  sha1ToolRun :: ((if s.hasSha1Tool then [sha1Tool] else []) ++ if s.hasSha1ToolOrigin then [sha1ToolOrigin] else [])

/-- `INSERT_SQL` -/
def insertRow (s : Store) : Option Row → Store
  | none => { s with table := s.table.skip }
  | some r => { s with table := s.table.insertOrIgnore s.indexes r }

end Store

def PACKET_DB_INSERT_OK : ℤ := 0
def PACKET_DB_INSERT_ERROR : ℤ := -1
def PACKET_DB_INSERT_BUSY : ℤ := -2

/-- What SQLite answers to a statement that writes; `busy` is also `SQLITE_LOCKED`. -/
inductive Rc where
  | done
  | busy
  | error
deriving DecidableEq

def Rc.code : Rc → ℤ
  | .done => PACKET_DB_INSERT_OK
  | .busy => PACKET_DB_INSERT_BUSY
  | .error => PACKET_DB_INSERT_ERROR

section Insert
variable (sha1 : List UInt8 → List UInt8)

/-- `insert_bound` -/
def insertBound (s : Store) (r : Record (List UInt8)) : Rc → Store × ℤ
  | .done => (s.insertRow (r.row sha1), PACKET_DB_INSERT_OK)
  | rc => (s, rc.code)

/-- `packet_db_insert`, in direct mode. -/
def packetDbInsert (s : Store) (r : Record (List UInt8)) (rc : Rc) : Store × ℤ :=
  if r.valid then insertBound sha1 s r rc else (s, -1)

end Insert

/-! ## Opening -/

def ctsGround : List UInt8 := text "cts_ground"

def Row.backfill (r : Row) : Row := { r with captureOrigin := some (r.captureOrigin.getD ctsGround) }

/-- The statements of `packet_db_open`; `prepare` is that of the statements at the end of it. -/
inductive Statement where
  | schema
  | readVersion
  | alter (c : Column)
  | deleteDuplicates
  | createSha1Tool
  | backfillOrigin
  | dropSha1Tool
  | createSha1ToolOrigin
  | stamp (version : ℕ)
  | prepare
deriving DecidableEq

namespace Store

/-- What a statement does; `none` when it fails. A stamp that fails changes nothing, and its failure is not looked at.
The update is checked at its end: a row that has no origin moves to where only rows from before can be. -/
def exec (s : Store) (stamped : Bool) : Statement → Option Store
  | .schema =>
      some (if s.created then s else { s with created := true, columns := v2Columns ++ [.captureOrigin] })
  | .readVersion => some s
  | .alter c => some (if c ∈ s.columns then s else { s with columns := s.columns ++ [c] })
  | .deleteDuplicates => some { s with table := s.table.keepFirst fun r => (r.payloadSha1, r.sourceTool) }
  | .createSha1Tool =>
      if s.hasSha1Tool = true ∨ s.table.Unique sha1Tool then some { s with hasSha1Tool := true } else none
  | .backfillOrigin =>
      if .captureOrigin ∈ s.columns ∧ (s.hasSha1ToolOrigin = true → (s.table.update Row.backfill).Unique sha1ToolOrigin)
      then some { s with table := s.table.update Row.backfill }
      else none
  | .dropSha1Tool => some { s with hasSha1Tool := false }
  | .createSha1ToolOrigin =>
      if .captureOrigin ∈ s.columns ∧ (s.hasSha1ToolOrigin = true ∨ s.table.Unique sha1ToolOrigin)
      then some { s with hasSha1ToolOrigin := true }
      else none
  | .stamp version => some (if stamped then { s with userVersion := version } else s)
  | .prepare => if ∀ c ∈ v2Columns ++ [.captureOrigin], c ∈ s.columns then some s else none

end Store

/-- `MIGRATION_V2_ALTERS` -/
def MIGRATION_V2_ALTERS : List Statement := v2Columns.map .alter

def MIGRATION_V3_STEPS : List Statement := [.deleteDuplicates, .createSha1Tool]

def MIGRATION_V4_STEPS : List Statement :=
  [.alter .captureOrigin, .backfillOrigin, .dropSha1Tool, .createSha1ToolOrigin]

/-- What follows after the version was read. -/
def ladder (userVersion : ℕ) : List Statement :=
  (if userVersion < 2 then MIGRATION_V2_ALTERS ++ [.stamp 2] else []) ++
    (if userVersion < 3 then MIGRATION_V3_STEPS ++ [.stamp 3] else []) ++
      (if userVersion < 4 then MIGRATION_V4_STEPS ++ [.stamp 4] else []) ++ [.prepare]

end SimpleSatOps.PacketDb
