import Jvc.Git.Bounded

open jvc.recovery

namespace jvc.git

/-- The two streams of a child process. -/
inductive Side
  | out
  | err
  deriving DecidableEq, Repr

/-- Where a pump thread stands: at `while not stop.is_set()`, inside
`stream.read(65536)` with what it got so far, at the inner loop that discards
what is past the cap, inside its read, or at its end. -/
inductive Phase
  | check
  | reading (chunk : List UInt8)
  | draining
  | discarding (count : Nat)
  | done

/-- One stream: what the child has still to write, what is in the pipe, whether the last
process that could write to it has let go of it, what the pump has kept, and where the
pump stands. -/
structure Stream where
  unsent : List UInt8
  pipe : List UInt8
  closed : Bool
  buf : List UInt8
  phase : Phase

/-- What is fixed for one run: the output of the child, the caps, how much a pipe
holds, and the exit code. -/
structure Setup where
  output : Side → List UInt8
  cap : Side → Nat
  capacity : Nat
  returncode : Int

/-- Where the main thread stands: at `proc.wait`, at `thread.join(timeout=10)` for one
of the pumps, at the copy of a buffer, or at its end. -/
inductive Main
  | waiting
  | joining (side : Side)
  | copying
  | copied (out : List UInt8)
  | returned (captured : Captured)

structure Capture where
  streams : Side → Stream
  exited : Bool
  stop : Bool
  main : Main

def READ_SIZE : Nat := 65536

/-- A step of `_pump`. A read ends when it has `READ_SIZE` bytes or at the end of
the stream: nobody can write to the pipe any more and it is empty. -/
inductive Pump (cap : Nat) (stop : Bool) : Stream → Stream → Prop
  | stopped {s : Stream} (h : s.phase = .check) (hstop : stop = true) :
      Pump cap stop s { s with phase := .done }
  | begin_read {s : Stream} (h : s.phase = .check) (hstop : stop = false) :
      Pump cap stop s { s with phase := .reading [] }
  | receive {s : Stream} {chunk : List UInt8} (n : Nat) (h : s.phase = .reading chunk) (hn : 0 < n)
      (hpipe : n ≤ s.pipe.length) (hroom : chunk.length + n ≤ READ_SIZE) :
      Pump cap stop s
        { s with pipe := s.pipe.drop n, phase := .reading (chunk ++ s.pipe.take n) }
  | append {s : Stream} {chunk : List UInt8} (h : s.phase = .reading chunk) (hne : chunk ≠ [])
      (hend : chunk.length = READ_SIZE ∨ s.closed = true ∧ s.pipe = []) :
      Pump cap stop s
        { s with
          buf := s.buf ++ chunk.take (cap + 1 - s.buf.length)
          phase := if cap < (s.buf ++ chunk.take (cap + 1 - s.buf.length)).length then .draining
            else .check }
  | end_of_stream {s : Stream} (h : s.phase = .reading []) (hclosed : s.closed = true)
      (hpipe : s.pipe = []) : Pump cap stop s { s with phase := .done }
  | drain_stopped {s : Stream} (h : s.phase = .draining) (hstop : stop = true) :
      Pump cap stop s { s with phase := .done }
  | begin_discard {s : Stream} (h : s.phase = .draining) (hstop : stop = false) :
      Pump cap stop s { s with phase := .discarding 0 }
  | discard {s : Stream} {count : Nat} (n : Nat) (h : s.phase = .discarding count) (hn : 0 < n)
      (hpipe : n ≤ s.pipe.length) (hroom : count + n ≤ READ_SIZE) :
      Pump cap stop s { s with pipe := s.pipe.drop n, phase := .discarding (count + n) }
  | discarded {s : Stream} {count : Nat} (h : s.phase = .discarding count) (hne : count ≠ 0)
      (hend : count = READ_SIZE ∨ s.closed = true ∧ s.pipe = []) :
      Pump cap stop s { s with phase := .draining }
  | drained {s : Stream} (h : s.phase = .discarding 0) (hclosed : s.closed = true)
      (hpipe : s.pipe = []) : Pump cap stop s { s with phase := .done }

/-- Who moves: the child, whoever holds the write ends of the pipes (the child, or a
process that it left behind), a pump thread, or the main thread. -/
inductive Actor
  | child
  | holder
  | pump (side : Side)
  | main

/-- What the main thread does after a join. -/
def Main.afterJoin : Side → Main
  | .out => .joining .err
  | .err => .copying

/-- The child writes and exits, its ends of the pipes are closed, the pumps read, and
the main thread waits for the exit, sets the stop flag, joins the pumps, copies the
buffers and returns. A join returns once the pump is done or the ten seconds are over;
the code does not ask which. -/
inductive Step (setup : Setup) : Actor → Capture → Capture → Prop
  | write {c : Capture} (side : Side) (n : Nat) (hrunning : c.exited = false) (hn : 0 < n)
      (hunsent : n ≤ (c.streams side).unsent.length)
      (hroom : (c.streams side).pipe.length + n ≤ setup.capacity) :
      Step setup .child c { c with
        streams := Function.update c.streams side { c.streams side with
          unsent := (c.streams side).unsent.drop n
          pipe := (c.streams side).pipe ++ (c.streams side).unsent.take n } }
  | exit {c : Capture} (hrunning : c.exited = false) (hsent : ∀ side, (c.streams side).unsent = []) :
      Step setup .child c { c with exited := true }
  | close {c : Capture} (side : Side) (hsent : (c.streams side).unsent = []) :
      Step setup .holder c { c with
        streams := Function.update c.streams side { c.streams side with closed := true } }
  | pump {c : Capture} (side : Side) (s : Stream)
      (h : Pump (setup.cap side) c.stop (c.streams side) s) :
      Step setup (.pump side) c { c with streams := Function.update c.streams side s }
  | set_stop {c : Capture} (hmain : c.main = .waiting) (hexited : c.exited = true) :
      Step setup .main c { c with stop := true, main := .joining .out }
  | join {c : Capture} (side : Side) (hmain : c.main = .joining side) :
      Step setup .main c { c with main := .afterJoin side }
  | copy_out {c : Capture} (hmain : c.main = .copying) :
      Step setup .main c { c with main := .copied (c.streams .out).buf }
  | copy_err {c : Capture} {out : List UInt8} (hmain : c.main = .copied out) :
      Step setup .main c { c with
        main := .returned (collected setup.returncode out (c.streams .err).buf (setup.cap .out)
          (setup.cap .err)) }

def Capture.start (setup : Setup) : Capture where
  streams side := ⟨setup.output side, [], false, [], .check⟩
  exited := false
  stop := false
  main := .waiting

/-- The interleavings whose steps all meet a condition on who moves and where. -/
inductive Schedule (setup : Setup) (Meets : Actor → Capture → Prop) : Capture → Prop
  | start : Schedule setup Meets (Capture.start setup)
  | step {c d : Capture} {actor : Actor} (h : Schedule setup Meets c) (hmeets : Meets actor c)
      (hstep : Step setup actor c d) : Schedule setup Meets d

/-- The output of the child, in full up to the caps. -/
def Setup.complete (setup : Setup) : Captured :=
  collected setup.returncode ((setup.output .out).take (setup.cap .out + 1))
    ((setup.output .err).take (setup.cap .err + 1)) (setup.cap .out) (setup.cap .err)

/-- The pump has nothing left to put into its buffer. -/
def Stream.Settled (s : Stream) : Prop :=
  match s.phase with
  | .check => s.pipe = []
  | .reading chunk => chunk = [] ∧ s.pipe = []
  | _ => True

/-- A pump that finds the stop flag set where it would read on has nothing left, and
neither has one whose buffer is copied. -/
def Drained : Actor → Capture → Prop
  | .pump side, c => c.stop = true → (c.streams side).phase = .check → (c.streams side).Settled
  | .main, c =>
    match c.main with
    | .copying => (c.streams .out).Settled
    | .copied _ => (c.streams .err).Settled
    | _ => True
  | _, _ => True

theorem Drained.of_running {c : Capture} {side : Side} (h : c.stop = false) :
    Drained (.pump side) c := fun hstop => by
  rw [h] at hstop
  cases hstop

theorem Drained.of_waiting {c : Capture} (h : c.main = .waiting) : Drained .main c := by
  simp [Drained, h]

theorem Drained.of_holder (c : Capture) : Drained .holder c := trivial

section Invariant

variable {setup : Setup} {c d : Capture} {actor : Actor} {output : List UInt8} {cap : Nat}
  {stop : Bool} {s s' : Stream}

/-- What a pump has kept, compared with the output of the child. -/
def Stream.Keeps (output : List UInt8) (cap : Nat) (s : Stream) : Prop :=
  match s.phase with
  | .check => output = s.buf ++ s.pipe ++ s.unsent ∧ s.buf.length ≤ cap
  | .reading chunk => output = s.buf ++ chunk ++ s.pipe ++ s.unsent ∧ s.buf.length ≤ cap
  | _ => s.buf = output.take (cap + 1)

/-- Once everything is sent and the pump has nothing left, its buffer is complete. -/
theorem Stream.Keeps.settled (h : s.Keeps output cap) (hsent : s.unsent = [])
    (hsettled : s.Settled) : s.buf = output.take (cap + 1) := by
  unfold Stream.Keeps at h
  unfold Stream.Settled at hsettled
  cases hphase : s.phase with
  | check =>
    simp only [hphase] at h hsettled
    obtain ⟨htotal, hshort⟩ := h
    rw [hsettled, hsent, List.append_nil, List.append_nil] at htotal
    rw [htotal, List.take_of_length_le (by omega)]
  | reading chunk =>
    simp only [hphase] at h hsettled
    obtain ⟨htotal, hshort⟩ := h
    rw [hsettled.1, hsettled.2, hsent, List.append_nil, List.append_nil, List.append_nil] at htotal
    rw [htotal, List.take_of_length_le (by omega)]
  | draining | discarding count | done =>
    simp only [hphase] at h
    exact h

theorem Pump.keeps (h : Pump cap stop s s') (hkeeps : s.Keeps output cap)
    (hclosed : s.closed = true → s.unsent = []) (hstopped : stop = true → s.unsent = [])
    (hdrained : stop = true → s.phase = .check → s.Settled) : s'.Keeps output cap := by
  cases h with
  | stopped hphase hstop => exact hkeeps.settled (hstopped hstop) (hdrained hstop hphase)
  | begin_read hphase =>
    simp only [Stream.Keeps, hphase] at hkeeps
    exact ⟨by simpa using hkeeps.1, hkeeps.2⟩
  | @receive chunk n hphase hn hpipe hroom =>
    simp only [Stream.Keeps, hphase] at hkeeps
    refine ⟨?_, hkeeps.2⟩
    rw [hkeeps.1]
    simp only [List.append_assoc, List.take_append_drop]
  | @append chunk hphase hne hend =>
    simp only [Stream.Keeps, hphase] at hkeeps
    obtain ⟨htotal, hshort⟩ := hkeeps
    simp only [Stream.Keeps]
    by_cases hfull : cap < (s.buf ++ chunk.take (cap + 1 - s.buf.length)).length
    · rw [if_pos hfull]
      have hlength : cap + 1 ≤ (s.buf ++ chunk).length := by
        rw [List.length_append, List.length_take] at hfull
        rw [List.length_append]
        omega
      change s.buf ++ chunk.take (cap + 1 - s.buf.length) = output.take (cap + 1)
      rw [htotal, List.append_assoc (s.buf ++ chunk), List.take_append_of_le_length hlength, List.take_append,
        List.take_of_length_le (by omega : s.buf.length ≤ cap + 1)]
    · rw [if_neg hfull]
      have hwhole : chunk.take (cap + 1 - s.buf.length) = chunk := by
        refine List.take_of_length_le ?_
        rw [List.length_append, List.length_take] at hfull
        omega
      rw [hwhole] at hfull
      exact ⟨by rw [hwhole]; exact htotal, by rw [hwhole]; omega⟩
  | end_of_stream hphase hended hpipe =>
    have hsettled : s.Settled := by simp [Stream.Settled, hphase, hpipe]
    exact hkeeps.settled (hclosed hended) hsettled
  | drain_stopped hphase | begin_discard hphase | discarded hphase | drained hphase =>
    simp only [Stream.Keeps, hphase] at hkeeps
    exact hkeeps
  | discard n hphase =>
    simp only [Stream.Keeps, hphase] at hkeeps
    exact hkeeps

theorem Pump.ends_eq (h : Pump cap stop s s') : s'.unsent = s.unsent ∧ s'.closed = s.closed := by
  cases h <;> exact ⟨rfl, rfl⟩

/-- What holds throughout a schedule without losses. -/
structure Capture.Sound (setup : Setup) (c : Capture) : Prop where
  keeps : ∀ side, (c.streams side).Keeps (setup.output side) (setup.cap side)
  sent : c.exited = true → ∀ side, (c.streams side).unsent = []
  closed : ∀ side, (c.streams side).closed = true → (c.streams side).unsent = []
  stopped : c.stop = true → c.exited = true
  waited : c.main ≠ .waiting → c.exited = true
  copied : ∀ out, c.main = .copied out → out = (setup.output .out).take (setup.cap .out + 1)
  returned : ∀ captured, c.main = .returned captured → captured = setup.complete

theorem Stream.Keeps.write (h : s.Keeps output cap) (n : Nat) :
    Stream.Keeps output cap { s with unsent := s.unsent.drop n, pipe := s.pipe ++ s.unsent.take n } := by
  unfold Stream.Keeps at h ⊢
  cases hphase : s.phase with
  | check | reading chunk =>
    simp only [hphase] at h ⊢
    exact ⟨by rw [h.1]; simp, h.2⟩
  | draining | discarding count | done =>
    simp only [hphase] at h ⊢
    exact h

theorem Capture.start_sound (setup : Setup) : (Capture.start setup).Sound setup where
  keeps side := ⟨rfl, Nat.zero_le _⟩
  sent h := by cases h
  closed _ h := by cases h
  stopped h := by cases h
  waited h := absurd rfl h
  copied _ h := by cases h
  returned _ h := by cases h

/-- One stream takes a step; nothing else changes. -/
theorem Capture.Sound.stream (hc : c.Sound setup) (side : Side) {s : Stream}
    (hkeeps : s.Keeps (setup.output side) (setup.cap side))
    (hsent : (c.exited = true ∨ s.closed = true) → s.unsent = []) :
    Capture.Sound setup { c with streams := Function.update c.streams side s } where
  keeps side' := by
    by_cases hside : side' = side
    · subst hside
      simpa only [Function.update_self] using hkeeps
    · simpa only [Function.update_of_ne hside] using hc.keeps side'
  sent hexited side' := by
    by_cases hside : side' = side
    · subst hside
      simpa only [Function.update_self] using hsent (.inl hexited)
    · simpa only [Function.update_of_ne hside] using hc.sent hexited side'
  closed side' := by
    by_cases hside : side' = side
    · subst hside
      simp only [Function.update_self]
      exact fun hclosed => hsent (.inr hclosed)
    · simp only [Function.update_of_ne hside]
      exact hc.closed side'
  stopped := hc.stopped
  waited := hc.waited
  copied := hc.copied
  returned := hc.returned

theorem Step.sound (h : Step setup actor c d) (hmeets : Drained actor c) (hc : c.Sound setup) :
    d.Sound setup := by
  cases h with
  | write side n hrunning hn hunsent hroom =>
    refine hc.stream side ((hc.keeps side).write n) fun hended => ?_
    have hempty : (c.streams side).unsent = [] := by
      rcases hended with hexited | hclosed
      · exact hc.sent hexited side
      · exact hc.closed side hclosed
    change (c.streams side).unsent.drop n = []
    rw [hempty, List.drop_nil]
  | exit hrunning hsent =>
    exact { hc with sent := fun _ => hsent, stopped := fun _ => rfl, waited := fun _ => rfl }
  | close side hsent => exact hc.stream side (hc.keeps side) fun _ => hsent
  | pump side s hpump =>
    obtain ⟨hunsent, hclosed⟩ := hpump.ends_eq
    refine hc.stream side (hpump.keeps (hc.keeps side) (hc.closed side)
      (fun hstop => hc.sent (hc.stopped hstop) side) hmeets) fun hended => ?_
    rw [hunsent]
    rw [hclosed] at hended
    rcases hended with hexited | hclosed
    · exact hc.sent hexited side
    · exact hc.closed side hclosed
  | set_stop hmain hexited =>
    exact { hc with
      stopped := fun _ => hexited
      waited := fun _ => hexited
      copied := by rintro out ⟨⟩
      returned := by rintro captured ⟨⟩ }
  | join side hmain =>
    have hexited : c.exited = true := hc.waited (by simp [hmain])
    refine { hc with waited := fun _ => hexited, copied := ?_, returned := ?_ }
    · rintro out hout
      cases side <;> cases hout
    · rintro captured hcaptured
      cases side <;> cases hcaptured
  | copy_out hmain =>
    have hexited : c.exited = true := hc.waited (by simp [hmain])
    have hsettled : (c.streams .out).Settled := by simpa only [Drained, hmain] using hmeets
    refine { hc with waited := fun _ => hexited, copied := ?_, returned := by rintro captured ⟨⟩ }
    rintro out ⟨⟩
    exact (hc.keeps .out).settled (hc.sent hexited .out) hsettled
  | @copy_err _ out hmain =>
    have hexited : c.exited = true := hc.waited (by simp [hmain])
    have hsettled : (c.streams .err).Settled := by simpa only [Drained, hmain] using hmeets
    refine { hc with waited := fun _ => hexited, copied := by rintro out ⟨⟩, returned := ?_ }
    rintro captured ⟨⟩
    rw [Setup.complete, ← hc.copied out hmain,
      ← (hc.keeps .err).settled (hc.sent hexited .err) hsettled]

theorem Schedule.sound (h : Schedule setup Drained c) : c.Sound setup := by
  induction h with
  | start => exact Capture.start_sound setup
  | step _ hmeets hstep ih => exact hstep.sound hmeets ih

end Invariant

/-- A bounded run of git returns the output of the child in full up to the caps,
as far as no pump is stopped, and no buffer copied, in front of bytes that the pump has
not put into its buffer. -/
theorem run_git_capped_complete {setup : Setup} {c : Capture} {captured : Captured}
    (h : Schedule setup Drained c) (hreturned : c.main = .returned captured) :
    captured = setup.complete :=
  h.sound.returned captured hreturned

/-- A child that prints one byte. -/
def sampleSetup : Setup where
  output side := if side = .out then [0x78] else []
  cap _ := 16
  capacity := 64
  returncode := 0

/-- The child of the sample has exited; `out` and `err` are its streams. -/
def sampleCapture (out err : Stream) (stop : Bool) (main : Main) : Capture where
  streams side := if side = .out then out else err
  exited := true
  stop := stop
  main := main

/-- A stream that a process left behind holds open, and on which nothing is printed. -/
def idleStream (phase : Phase) : Stream := ⟨[], [], false, [], phase⟩

section Samples

variable {out err s : Stream} {stop : Bool} {main : Main} {Meets : Actor → Capture → Prop}

theorem sample_pump_out (h : Pump 16 stop out s) :
    Step sampleSetup (.pump .out) (sampleCapture out err stop main) (sampleCapture s err stop main) := by
  have hstreams : (sampleCapture s err stop main).streams =
      Function.update (sampleCapture out err stop main).streams .out s := by
    funext side
    cases side <;> rfl
  have hstep := @Step.pump sampleSetup (sampleCapture out err stop main) .out s h
  rw [← hstreams] at hstep
  exact hstep

theorem sample_pump_err (h : Pump 16 stop err s) :
    Step sampleSetup (.pump .err) (sampleCapture out err stop main) (sampleCapture out s stop main) := by
  have hstreams : (sampleCapture out s stop main).streams =
      Function.update (sampleCapture out err stop main).streams .err s := by
    funext side
    cases side <;> rfl
  have hstep := @Step.pump sampleSetup (sampleCapture out err stop main) .err s h
  rw [← hstreams] at hstep
  exact hstep

/-- The child has printed and exited before a pump has moved. -/
theorem sample_exited (hchild : ∀ c, Meets .child c) : Schedule sampleSetup Meets
    (sampleCapture ⟨[], [0x78], false, [], .check⟩ (idleStream .check) false .waiting) := by
  have hwrite : Schedule sampleSetup Meets _ :=
    .step .start (hchild _) (.write .out 1 rfl (by decide) (by decide) (by decide))
  have hexit := hwrite.step (hchild _) (.exit rfl fun side => by cases side <;> rfl)
  have hstreams : (fun side => if side = .out then ⟨[], [0x78], false, [], .check⟩ else
      idleStream .check) = Function.update (Capture.start sampleSetup).streams .out
        ⟨[], [0x78], false, [], .check⟩ := by
    funext side
    cases side <;> rfl
  unfold sampleCapture
  rw [hstreams]
  exact hexit

theorem sample_close_out (h : out.unsent = []) : Step sampleSetup .holder
    (sampleCapture out err stop main) (sampleCapture { out with closed := true } err stop main) := by
  have hstreams : (sampleCapture { out with closed := true } err stop main).streams =
      Function.update (sampleCapture out err stop main).streams .out { out with closed := true } := by
    funext side
    cases side <;> rfl
  have hstep := @Step.close sampleSetup (sampleCapture out err stop main) .out h
  have hout : (sampleCapture out err stop main).streams .out = out := rfl
  rw [hout, ← hstreams] at hstep
  exact hstep

/-- The pump of stdout reads to the end of the stream before the stop flag is set. -/
theorem sample_read : Schedule sampleSetup Drained
    (sampleCapture ⟨[], [], true, [0x78], .done⟩ (idleStream .check) false .waiting) := by
  have hexited : Schedule sampleSetup Drained _ := sample_exited fun _ => trivial
  have hbegin := hexited.step (.of_running rfl) (sample_pump_out (.begin_read rfl rfl))
  have hreceive := hbegin.step (.of_running rfl)
    (sample_pump_out (.receive 1 rfl (by decide) (by decide) (by decide)))
  have hclose := hreceive.step (.of_holder _) (sample_close_out rfl)
  have happend := hclose.step (.of_running rfl)
    (sample_pump_out (.append rfl (by decide) (.inr ⟨rfl, rfl⟩)))
  have hagain := happend.step (.of_running rfl) (sample_pump_out (.begin_read rfl rfl))
  exact hagain.step (.of_running rfl) (sample_pump_out (.end_of_stream rfl rfl rfl))

/-- The main thread waits for nobody any more and returns. -/
theorem sample_returned (h : Schedule sampleSetup Meets (sampleCapture out err true (.joining .out)))
    (hmain : ∀ main, Meets .main (sampleCapture out err true main)) :
    Schedule sampleSetup Meets (sampleCapture out err true
      (.returned (collected 0 out.buf err.buf 16 16))) := by
  have hout := h.step (hmain _) (.join .out rfl)
  have hjoined := hout.step (hmain _) (.join .err rfl)
  have hcopied := hjoined.step (hmain _) (.copy_out rfl)
  exact hcopied.step (hmain _) (.copy_err rfl)

/-- The join of the pump of stderr runs out of time: its stream is still open. -/
theorem run_git_capped_complete_byte :
    (⟨0, [0x78], [], false, false⟩ : Captured) = sampleSetup.complete := by
  have herr := sample_read.step (.of_running rfl) (sample_pump_err (.begin_read rfl rfl))
  have hstop : Schedule sampleSetup Drained (sampleCapture ⟨[], [], true, [0x78], .done⟩
      (idleStream (.reading [])) true (.joining .out)) :=
    herr.step (.of_waiting rfl) (.set_stop rfl rfl)
  have hreturned := sample_returned hstop fun main => by
    cases main <;> simp [Drained, sampleCapture, idleStream, Stream.Settled]
  exact run_git_capped_complete hreturned rfl

/-- The stop flag is set before the pump has looked at it once, and the byte is
lost without a word. -/
theorem run_git_capped_loses : ¬ ∀ (setup : Setup) (c : Capture) (captured : Captured),
    Schedule setup (fun _ _ => True) c → c.main = .returned captured →
      captured = setup.complete := by
  intro h
  have hexited : Schedule sampleSetup (fun _ _ => True) _ := sample_exited fun _ => trivial
  have hstop : Schedule sampleSetup (fun _ _ => True) (sampleCapture
      ⟨[], [0x78], false, [], .check⟩ (idleStream .check) true (.joining .out)) :=
    hexited.step trivial (.set_stop rfl rfl)
  have hpump := hstop.step trivial (sample_pump_out (.stopped rfl rfl))
  have herr := hpump.step trivial (sample_pump_err (.stopped rfl rfl))
  exact absurd (h sampleSetup _ _ (sample_returned herr fun _ => trivial) rfl) (by decide)

end Samples

end jvc.git
