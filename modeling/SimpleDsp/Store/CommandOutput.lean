import SimpleDsp.Lib.LineReader
import SimpleDsp.Store.Value

/-!
# The output of a command

`exec` reads what a command prints through one buffer of 128 characters.

* `readLoop_eq`: what the loop still adds is what the pipe still holds;
* `exec_whole`: `exec` returns all of an output without zeros.
-/

namespace SimpleDsp

open DecimalText LineReader

namespace Command

/-- `char buffer[size]` -/
abbrev CharArray (size : Nat) := { t : Text // t.length = size }

def endsLine (c : Char) : Bool := c == '\n'

/-- The piece and its terminator at the front, the old characters behind. -/
def CharArray.store {size : Nat} (buffer : CharArray size) (t : Text) (fits : t.length < size) :
    CharArray size :=
  ⟨t ++ nul :: buffer.1.drop (t.length + 1), by
    have length := buffer.2
    simp only [List.length_append, List.length_cons, List.length_drop, length]
    omega⟩

/-- `fgets` for a buffer that holds at least one character and the terminator. If
there is nothing to read it returns `NULL` and leaves the buffer. -/
def fgets {limit : Nat} (buffer : CharArray (limit + 2)) (stream : Stream Char) :
    Option (CharArray (limit + 2)) × Stream Char :=
  let taken := piece endsLine (limit + 1) stream.rest
  have fits : taken.length < limit + 2 :=
    Nat.lt_succ_of_le (length_piece_le endsLine (limit + 1) stream.rest)
  (if taken = [] then none else some (buffer.store taken fits),
    stream.read endsLine (limit + 1))

/-- The variables of `exec`. -/
structure Reading where
  pipe : Stream Char
  buffer : CharArray 128
  result : Text

/-- One pass through the loop. -/
def Reading.step (s : Reading) : Reading :=
  match fgets s.buffer s.pipe with
  | (some buffer, pipe) => ⟨pipe, buffer, s.result ++ cString buffer.1⟩
  | (none, pipe) => { s with pipe }

/-- `while(!feof(pipe))`; `none` when the fuel does not last. -/
def readLoop : Nat → Reading → Option Text
  | 0, s => if s.pipe.atEnd then some s.result else none
  | fuel + 1, s => if s.pipe.atEnd then some s.result else readLoop fuel s.step

/-- `popen` gives a pipe with the output of the command, or `NULL`; the buffer is
not initialised. -/
def exec (fuel : Nat) (uninit : CharArray 128) (popen : Option Text) : Option Text :=
  match popen with
  | none => some []
  | some output => readLoop fuel ⟨.ofList output, uninit, []⟩

theorem cString_store {size : Nat} (buffer : CharArray size) {t : Text} (fits : t.length < size)
    (plain : nul ∉ t) : cString (buffer.store t fits).1 = t :=
  cString_append_nul plain

theorem Reading.step_pipe (s : Reading) : s.step.pipe = s.pipe.read endsLine 127 := by
  unfold step fgets
  by_cases nothing : piece endsLine 127 s.pipe.rest = [] <;> simp [nothing]

/-- A pass moves characters from the pipe to the result. -/
theorem Reading.step_conserves (s : Reading) (plain : nul ∉ s.pipe.rest) :
    s.step.result ++ s.step.pipe.rest = s.result ++ s.pipe.rest := by
  have whole := s.pipe.piece_append_rest endsLine 127
  rw [s.step_pipe]
  by_cases nothing : piece endsLine 127 s.pipe.rest = []
  · have same : s.step.result = s.result := by simp [step, fgets, nothing]
    rw [nothing, List.nil_append] at whole
    rw [same, whole]
  · have taken : nul ∉ piece endsLine 127 s.pipe.rest :=
      fun h => plain (mem_of_mem_piece endsLine h)
    have added : s.step.result = s.result ++ piece endsLine 127 s.pipe.rest := by
      simp [step, fgets, nothing, cString_store, taken]
    rw [added, List.append_assoc, whole]

theorem Reading.step_plain (s : Reading) (plain : nul ∉ s.pipe.rest) :
    nul ∉ s.step.pipe.rest := by
  intro h
  rw [s.step_pipe] at h
  exact plain (List.mem_of_mem_drop h)

/-- As many passes as calls are left are enough. -/
theorem readLoop_eq (s : Reading) (plain : nul ∉ s.pipe.rest) (fuel : Nat)
    (enough : s.pipe.left ≤ fuel) : readLoop fuel s = some (s.result ++ s.pipe.rest) := by
  induction fuel generalizing s with
  | zero =>
    have shows : s.pipe.atEnd = true := by
      by_contra more
      rw [Stream.left, if_neg more] at enough
      omega
    rw [readLoop, if_pos shows, s.pipe.ended shows, List.append_nil]
  | succ fuel ih =>
    cases shows : s.pipe.atEnd with
    | true => simp [readLoop, shows, s.pipe.ended shows]
    | false =>
      have closer : (s.pipe.read endsLine 127).left < s.pipe.left :=
        s.pipe.left_read endsLine 126 shows
      have rest := ih s.step (s.step_plain plain) (by rw [s.step_pipe]; omega)
      rw [readLoop, if_neg (by simp [shows]), rest, s.step_conserves plain]

theorem exec_whole (uninit : CharArray 128) (output : Text) (plain : nul ∉ output) :
    ∀ fuel, output.length < fuel → exec fuel uninit (some output) = some output :=
  fun fuel enough => readLoop_eq ⟨.ofList output, uninit, []⟩ plain fuel enough

/-- One row of PG, and its id. -/
theorem exec_whole_row : exec 4 ⟨List.replicate 128 'x', rfl⟩ (some "42\n".toList) =
    some "42\n".toList :=
  exec_whole ⟨List.replicate 128 'x', rfl⟩ "42\n".toList (by decide) 4 (by decide)

end Command

end SimpleDsp
