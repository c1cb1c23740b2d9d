import Mathlib.Data.Nat.Notation

/-!
# Input file streams

`std::ifstream` on a binary file.  A stream has a position and the bits `eofbit` and `failbit`,
which one call leaves for the next: a read that meets the end of the file sets both, a seek clears
`eofbit` only, and nothing but `clear` or a new `open` clears `failbit`.

## Main results

* `seekg_good`, `read_full`, `read_short` : what the calls do on a stream without errors;
* `seekg_failed` : a failed stream stays failed.
-/

/-- An input stream of elements of `α`. -/
structure IFStream (α : Type*) where
  /-- The content of the open file. -/
  file : Option (Array α) := none
  pos : ℕ := 0
  eofbit : Bool := false
  failbit : Bool := false
  /-- The number of elements that the last unformatted input has extracted. -/
  gcount : ℕ := 0

namespace IFStream

variable {α : Type*} {n : ℕ} (s : IFStream α)

/-- `is_open`. -/
def isOpen : Bool := s.file.isSome

/-- `open`; the content is `none` when the host cannot open the file. -/
def openFile (content : Option (Array α)) : IFStream α :=
  match s.file, content with
  | none, some f => { s with file := some f, pos := 0, eofbit := false, failbit := false }
  -- a stream that is open already keeps its file
  | _, _ => { s with failbit := true }

/-- `seekg` to an absolute position, which may be past the end. -/
def seekg (off : ℕ) : IFStream α :=
  let s := { s with eofbit := false }
  if s.failbit || !s.isOpen then { s with failbit := true } else { s with pos := off }

/-- `read` of a whole buffer: a short read leaves the rest of the buffer as it was. -/
def read (buf : Vector α n) : Vector α n × IFStream α :=
  if s.eofbit || s.failbit then (buf, { s with failbit := true, gcount := 0 })
  else
    let data := s.file.getD #[]
    let gcount := min n (data.size - s.pos)
    (.ofFn fun i => data[s.pos + i.1]?.getD buf[i],
      { s with
        pos := s.pos + gcount
        gcount
        eofbit := decide (gcount < n)
        failbit := decide (gcount < n) })

variable {s} {data : Array α}

theorem seekg_good (hf : s.file = some data) (hb : s.failbit = false) (off : ℕ) :
    s.seekg off = { s with eofbit := false, pos := off } := by
  simp [seekg, isOpen, hf, hb]

theorem seekg_failed (hb : s.failbit = true) (off : ℕ) :
    s.seekg off = { s with eofbit := false } := by
  simp [seekg, hb]

section Read

variable (hf : s.file = some data) (he : s.eofbit = false) (hb : s.failbit = false)
  (buf : Vector α n)

include hf he hb

theorem read_full (h : s.pos + n ≤ data.size) :
    (s.read buf).2 = { s with pos := s.pos + n, gcount := n } ∧
      ∀ i < n, (s.read buf).1[i]? = data[s.pos + i]? := by
  have hn : min n (data.size - s.pos) = n := by omega
  constructor
  · simp [read, hf, he, hb, hn]
  · intro i hi
    have hlt : s.pos + i < data.size := by omega
    simp [read, hf, he, hb, hi, hlt]

theorem read_short (hn : 0 < n) (h : data.size < s.pos + n) :
    (s.read buf).2.file = some data ∧ (s.read buf).2.failbit = true ∧
      (s.read buf).2.gcount < n := by
  have hlt : min n (data.size - s.pos) < n := by omega
  simpa [read, hf, he, hb] using hlt

end Read

end IFStream
