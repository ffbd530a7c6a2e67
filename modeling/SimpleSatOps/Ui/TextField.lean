import SimpleSatOps.Lib.CText
import SimpleSatOps.Lib.Lines

/-!
# Text fields

* `TextField` : the string in the buffer and the cursor;
* `uiTfInsert`, `uiTfBackspace`, `uiTfDelete`, `uiTfKillToEnd`, `uiTfKillWordBack` : the edits, each with whether the
  buffer changed;
* `uiTfLeft`, `uiTfRight`, `uiTfHome`, `uiTfEnd`, `uiTfClampCursor` : cursor movement.
-/

namespace SimpleSatOps

/-- A field: the string and the cursor in front of its `cursor`-th character. -/
structure TextField where
  buf : List UInt8
  cursor : ℕ
deriving DecidableEq

namespace TextField

/-- A field with the cursor behind the last character. -/
def ofText (s : List UInt8) : TextField := ⟨s, s.length⟩

/-- `ui_tf_insert` into a buffer of `cap` bytes. -/
def uiTfInsert (cap : ℕ) (ch : UInt8) (t : TextField) : TextField × Bool :=
  if cap ≤ t.buf.length + 1 then (t, false)
  else
    let cur := min t.cursor t.buf.length
    (⟨t.buf.take cur ++ ch :: t.buf.drop cur, cur + 1⟩, true)

def uiTfBackspace (t : TextField) : TextField × Bool :=
  if t.cursor = 0 ∨ t.buf = [] then (t, false) else (⟨t.buf.eraseIdx (t.cursor - 1), t.cursor - 1⟩, true)

def uiTfDelete (t : TextField) : TextField × Bool :=
  if t.buf.length ≤ t.cursor then (t, false) else (⟨t.buf.eraseIdx t.cursor, t.cursor⟩, true)

def uiTfKillToEnd (t : TextField) : TextField × Bool :=
  if t.buf.length ≤ t.cursor then (t, false) else (⟨t.buf.take t.cursor, t.cursor⟩, true)

def uiTfLeft (t : TextField) : TextField := { t with cursor := t.cursor - 1 }

def uiTfRight (t : TextField) : TextField := if t.cursor < t.buf.length then { t with cursor := t.cursor + 1 } else t

def uiTfHome (t : TextField) : TextField := { t with cursor := 0 }

def uiTfEnd (t : TextField) : TextField := { t with cursor := t.buf.length }

/-- `ui_tf_kill_word_back`: the spaces before the cursor go, and the word before them. -/
def uiTfKillWordBack (t : TextField) : TextField × Bool :=
  let cur := (((t.buf.take t.cursor).rdropWhile (· == byte ' ')).rdropWhile (· != byte ' ')).length
  if t.cursor = 0 ∨ cur = t.cursor then (t, false) else (⟨t.buf.take cur ++ t.buf.drop t.cursor, cur⟩, true)

def uiTfClampCursor (t : TextField) : TextField := { t with cursor := min t.cursor t.buf.length }

end TextField

end SimpleSatOps
