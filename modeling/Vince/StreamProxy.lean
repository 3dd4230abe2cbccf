import Mathlib.Data.List.Basic

/-!
# Proxying a stream (`proxyConn`)

`proxyConn` reads from the remote connection and writes to the local one in a loop, while a
goroutine does the same in the other direction. They have buffers of their own, but share the
variables `n` and `err`, so that either may see what the other has assigned. Both buffers are cut to
length zero before they are read into, and a read into an empty buffer delivers nothing.

A schedule says which of the two makes its next statement and what the connections do in it.
-/

namespace StreamProxy

abbrev Bytes := List (Fin 256)

/-- A slice from the start of its array. -/
structure Buf where
  cells : Bytes
  len : ℕ
  within : len ≤ cells.length

namespace Buf

/-- `buf[:n]`; `none` is a panic. -/
def reslice (b : Buf) (n : ℕ) : Option Buf :=
  if within : n ≤ b.cells.length then some ⟨b.cells, n, within⟩ else none

def contents (b : Buf) : Bytes := b.cells.take b.len

/-- What a read leaves in the buffer that it is given. -/
def fill (b : Buf) (chunk : Bytes) : Buf where
  cells := chunk.take b.len ++ b.cells.drop (chunk.take b.len).length
  len := b.len
  within := by
    have within := b.within
    rw [List.length_append, List.length_drop, List.length_take]
    omega

end Buf

inductive Err where
  | eof
  | other
  deriving DecidableEq

/-- `remote.Read` into a buffer of some length: as much of what is there as the connection likes,
but something; the end of the file when there is no more; and nothing into an empty buffer, where
the end of the file may or may not be reported. -/
def remoteRead (pending : Bytes) (len want : ℕ) (eager : Bool) : Bytes × Option Err :=
  if len = 0 then ([], if pending.isEmpty && eager then some .eof else none)
  else if pending.isEmpty then ([], some .eof)
  else (pending.take (max 1 (min want len)), none)

/-- The statement that comes next. -/
inductive Pc where
  | top
  | read
  | tested
  | write
  | wrote
  | returned
  | panicked
  deriving DecidableEq

structure State where
  /-- What the remote side has sent and is not read yet. -/
  pending : Bytes
  /-- What was written to the local connection, one entry for each call. -/
  written : List Bytes
  /-- The remote side has reported the end of the file. -/
  eof : Bool
  n : ℕ
  err : Option Err
  buf : Buf
  pc : Pc
  /-- The buffer of the goroutine. -/
  localBuf : Buf
  localPc : Pc

namespace State

/-- The next statement of the loop from the remote to the local connection. Writes succeed. -/
def remoteToLocal (s : State) (cancelled : Bool) (want : ℕ) (eager : Bool) : State :=
  match s.pc with
  | .top =>
    if cancelled then { s with pc := .returned }
    else match s.buf.reslice 0 with
      | none => { s with pc := .panicked }
      | some buf => { s with buf := buf, pc := .read }
  | .read =>
    let result := remoteRead s.pending s.buf.len want eager
    { s with
      pending := s.pending.drop result.1.length
      eof := s.eof || result.2 = some .eof
      buf := s.buf.fill result.1
      n := result.1.length
      err := result.2
      pc := .tested }
  | .tested => if s.err = none then { s with pc := .write } else { s with pc := .returned }
  | .write => match s.buf.reslice s.n with
    | none => { s with pc := .panicked }
    | some chunk => { s with
        written := s.written ++ [chunk.contents]
        n := chunk.len
        err := none
        pc := .wrote }
  | .wrote => if s.err = none then { s with pc := .top } else { s with pc := .returned }
  | .returned => s
  | .panicked => s

/-- The next statement of the goroutine. It looks at the context, but goes on in any case. What it
reads from the local connection may be anything that fits, and any error. -/
def localToRemote (s : State) (chunk : Bytes) (err : Option Err) : State :=
  match s.localPc with
  | .top => { s with localPc := .read }
  | .read => { s with
      localBuf := s.localBuf.fill chunk
      n := (chunk.take s.localBuf.len).length
      err := err
      localPc := .tested }
  | .tested =>
    if s.err = none then { s with localPc := .write } else { s with localPc := .returned }
  | .write => match s.localBuf.reslice s.n with
    | none => { s with localPc := .panicked }
    | some chunk => { s with n := chunk.len, err := none, localPc := .wrote }
  | .wrote => if s.err = none then { s with localPc := .top } else { s with localPc := .returned }
  | .returned => s
  | .panicked => s

end State

inductive Choice where
  | loop (cancelled : Bool) (want : ℕ) (eager : Bool)
  | goroutine (chunk : Bytes) (err : Option Err)

def State.step (s : State) : Choice → State
  | .loop cancelled want eager => s.remoteToLocal cancelled want eager
  | .goroutine chunk err => s.localToRemote chunk err

/-- Both at the top of their loops, with the slices they got; the goroutine has cut its own. -/
def start (stream : Bytes) (buf localBuf : Buf) : State :=
  ⟨stream, [], false, 0, none, buf, .top, ⟨localBuf.cells, 0, Nat.zero_le _⟩, .top⟩

/-- Every byte so far is forwarded in order, all of them at the end of the file, and every round
that came to its write has written something. -/
structure Forwards (stream : Bytes) (s : State) : Prop where
  in_order : ∀ k, (s.written.take k).flatten <+: stream
  whole : s.eof = true → s.written.flatten = stream
  progress : ∀ chunk ∈ s.written, chunk ≠ []

/-! ## Nothing is read and nothing written -/

structure Stuck (stream : Bytes) (s : State) : Prop where
  pending : s.pending = stream
  eof : s.eof = true → stream = []
  n : s.n = 0
  buf : s.pc = .read → s.buf.len = 0
  localBuf : s.localBuf.len = 0

variable {stream : Bytes} {s : State}

theorem stuck_start (stream : Bytes) (buf localBuf : Buf) :
    Stuck stream (start stream buf localBuf) := by
  refine ⟨rfl, ?_, rfl, ?_, rfl⟩
  · intro eof
    cases eof
  · intro read
    cases read

theorem remoteRead_empty (pending : Bytes) (want : ℕ) (eager : Bool) :
    (remoteRead pending 0 want eager).1 = [] ∧
      ((remoteRead pending 0 want eager).2 = some .eof → pending = []) := by
  rw [remoteRead, if_pos rfl]
  refine ⟨rfl, fun eof => ?_⟩
  by_cases none : pending = []
  · exact none
  · simp [none] at eof

theorem reslice_zero (b : Buf) : b.reslice 0 = some ⟨b.cells, 0, Nat.zero_le _⟩ :=
  dif_pos (Nat.zero_le _)

theorem Stuck.remoteToLocal (stuck : Stuck stream s) (cancelled : Bool) (want : ℕ) (eager : Bool) :
    Stuck stream (s.remoteToLocal cancelled want eager) := by
  obtain ⟨pending, eof, n, buf, localBuf⟩ := stuck
  rw [State.remoteToLocal]
  cases pc : s.pc with
  | top =>
    cases cancelled with
    | true => exact ⟨pending, eof, n, by simp, localBuf⟩
    | false =>
      rw [reslice_zero]
      exact ⟨pending, eof, n, fun _ => rfl, localBuf⟩
  | read =>
    obtain ⟨nothing, ended⟩ := remoteRead_empty s.pending want eager
    rw [← buf pc] at nothing ended
    simp only [nothing]
    refine ⟨pending, fun reported => ?_, rfl, by simp, localBuf⟩
    rcases Bool.or_eq_true_iff.mp reported with before | now
    · exact eof before
    · rw [← pending]
      exact ended (of_decide_eq_true now)
  | tested =>
    dsimp only
    split
    · exact ⟨pending, eof, n, by simp, localBuf⟩
    · exact ⟨pending, eof, n, by simp, localBuf⟩
  | write =>
    simp only [n, reslice_zero]
    exact ⟨pending, eof, rfl, by simp, localBuf⟩
  | wrote =>
    dsimp only
    split
    · exact ⟨pending, eof, n, by simp, localBuf⟩
    · exact ⟨pending, eof, n, by simp, localBuf⟩
  | returned => exact ⟨pending, eof, n, buf, localBuf⟩
  | panicked => exact ⟨pending, eof, n, buf, localBuf⟩

theorem Stuck.localToRemote (stuck : Stuck stream s) (chunk : Bytes) (err : Option Err) :
    Stuck stream (s.localToRemote chunk err) := by
  obtain ⟨pending, eof, n, buf, localBuf⟩ := stuck
  rw [State.localToRemote]
  cases s.localPc with
  | top => exact ⟨pending, eof, n, buf, localBuf⟩
  | read =>
    refine ⟨pending, eof, ?_, buf, localBuf⟩
    show (chunk.take s.localBuf.len).length = 0
    rw [localBuf, List.take_zero, List.length_nil]
  | tested =>
    dsimp only
    split
    · exact ⟨pending, eof, n, buf, localBuf⟩
    · exact ⟨pending, eof, n, buf, localBuf⟩
  | write =>
    simp only [n, reslice_zero]
    exact ⟨pending, eof, rfl, buf, localBuf⟩
  | wrote =>
    dsimp only
    split
    · exact ⟨pending, eof, n, buf, localBuf⟩
    · exact ⟨pending, eof, n, buf, localBuf⟩
  | returned => exact ⟨pending, eof, n, buf, localBuf⟩
  | panicked => exact ⟨pending, eof, n, buf, localBuf⟩

theorem Stuck.step (stuck : Stuck stream s) (choice : Choice) : Stuck stream (s.step choice) := by
  cases choice with
  | loop cancelled want eager => exact stuck.remoteToLocal cancelled want eager
  | goroutine chunk err => exact stuck.localToRemote chunk err

theorem Stuck.run (stuck : Stuck stream s) (schedule : List Choice) :
    Stuck stream (schedule.foldl State.step s) := by
  induction schedule generalizing s with
  | nil => exact stuck
  | cons choice schedule ih => exact ih (stuck.step choice)

/-- The step is the write of the loop. -/
def State.writes (s : State) : Choice → Bool
  | .loop _ _ _ => s.pc = .write
  | .goroutine _ _ => false

/-- How often the loop makes its write. -/
def writes : State → List Choice → ℕ
  | _, [] => 0
  | s, choice :: schedule => (s.writes choice).toNat + writes (s.step choice) schedule

/-- The goroutine writes nothing to the local connection, and the loop nothing but empty chunks. -/
theorem Stuck.written_step (stuck : Stuck stream s) (choice : Choice) :
    (s.step choice).written = s.written ++ List.replicate (s.writes choice).toNat [] := by
  cases choice with
  | loop cancelled want eager =>
    rw [State.step, State.remoteToLocal, State.writes]
    cases s.pc with
    | top =>
      cases cancelled with
      | true => simp
      | false => simp [reslice_zero]
    | tested =>
      dsimp only
      split <;> simp
    | write => simp [stuck.n, reslice_zero, Buf.contents]
    | wrote =>
      dsimp only
      split <;> simp
    | read => simp
    | returned => simp
    | panicked => simp
  | goroutine chunk err =>
    rw [State.step, State.localToRemote, State.writes]
    cases s.localPc with
    | tested =>
      dsimp only
      split <;> simp
    | write => simp [stuck.n, reslice_zero]
    | wrote =>
      dsimp only
      split <;> simp
    | top => simp
    | read => simp
    | returned => simp
    | panicked => simp

theorem Stuck.written_run (stuck : Stuck stream s) (schedule : List Choice) :
    (schedule.foldl State.step s).written =
      s.written ++ List.replicate (writes s schedule) [] := by
  induction schedule generalizing s with
  | nil => simp [writes]
  | cons choice schedule ih =>
    rw [List.foldl_cons, ih (stuck.step choice), stuck.written_step, writes, List.append_assoc,
      List.replicate_append_replicate]

/-! ## Forwarding -/

/-- In no schedule is anything taken from the remote connection or a byte written to the local one,
so the stream is forwarded iff no step is the write of the loop. -/
theorem forwards_iff (stream : Bytes) (buf localBuf : Buf) (schedule : List Choice) :
    let s := schedule.foldl State.step (start stream buf localBuf)
    (Forwards stream s ↔ writes (start stream buf localBuf) schedule = 0) ∧
      s.pending = stream ∧ s.written.flatten = [] := by
  intro s
  have stuck : Stuck stream s := (stuck_start stream buf localBuf).run schedule
  have written : s.written = List.replicate (writes (start stream buf localBuf) schedule) [] :=
    (stuck_start stream buf localBuf).written_run schedule
  have nothing : s.written.flatten = [] := by rw [written, List.flatten_replicate_nil]
  refine ⟨⟨fun forwards => ?_, fun none => ?_⟩, stuck.pending, nothing⟩
  · by_contra some
    have member : [] ∈ s.written := by
      rw [written]
      exact List.mem_replicate.mpr ⟨some, rfl⟩
    exact forwards.progress [] member rfl
  · rw [none, List.replicate_zero] at written
    refine ⟨fun k => ?_, fun eof => ?_, ?_⟩
    · rw [written, List.take_nil]
      exact List.nil_prefix
    · rw [nothing, stuck.eof eof]
    · intro chunk member
      rw [written] at member
      cases member

/-- The five statements of a round in which the context is not cancelled. -/
def round (want : ℕ) (eager : Bool) : List Choice :=
  List.replicate 5 (.loop false want eager)

/-- One byte waits, and the loop goes round once: it has written nothing and read nothing. -/
theorem byte_not_forwarded :
    let buf : Buf :=
      ⟨List.replicate 1024 (Fin.last 255), 1024, Nat.le_of_eq List.length_replicate.symm⟩
    let s := (round 1024 false).foldl State.step (start [Fin.last 255] buf buf)
    s.pc = .top ∧ s.written = [[]] ∧ s.pending = [Fin.last 255] ∧ ¬ Forwards [Fin.last 255] s := by
  intro buf s
  have written : s.written = [[]] := rfl
  refine ⟨rfl, written, rfl, fun forwards => ?_⟩
  exact forwards.progress [] (by rw [written]; exact List.mem_singleton.mpr rfl) rfl

end StreamProxy
