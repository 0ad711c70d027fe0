import Mathlib.Data.List.Basic

/-! # The sink: Result and Finished messages, and the controller's frame reader

Listeners push `Finished` and processes push `Result` as multipart messages to the controller's
PULL socket. The collection loop of `controller.cpp` reads that socket frame by frame: `Reader` is
its program counter with its counters, `Reader.readFrame` one `s_recv`, and `collect` the loop up to
its exit or to the end of what has arrived. `Counters.absorb` is the same loop body on a whole
message; `collect_frames` says that the frame reader computes the fold of `absorb` over a prefix of
the messages and stops on a message boundary. -/

namespace WsPerftester

/-- The messages pushed to the controller's sink. -/
inductive Message
  /-- A listener reports the end of one of its processes. -/
  | finished (name status : String)
  /-- A process reports the statistics of one websocket client. -/
  | result (stats : String)
  deriving DecidableEq, Repr

/-- What a frame is to its sender. The reader sees the text of a frame only. -/
inductive Role
  /-- The first frame, which names the kind of message. -/
  | command
  /-- A frame with data of the sender. -/
  | payload
  /-- The empty last frame. -/
  | delimiter
  deriving DecidableEq, Repr

/-- One frame of a multipart message. -/
structure Frame where
  /-- What the frame is to its sender. -/
  role : Role
  /-- The bytes on the wire. -/
  text : String
  deriving DecidableEq, Repr

/-- The empty frame that ends every message. -/
def Frame.delimiter : Frame := ⟨.delimiter, ""⟩

namespace Message

/-- The frames of a message, in the order of the `s_sendmore` and `s_send` calls. -/
def frames : Message → List Frame
  | .finished name status =>
      [⟨.command, "Finished"⟩, ⟨.payload, name⟩, ⟨.payload, status⟩, .delimiter]
  | .result stats => [⟨.command, "Result"⟩, ⟨.payload, stats⟩, .delimiter]

/-- Whether a message is a `Finished` notice. -/
def isFinished : Message → Bool
  | .finished _ _ => true
  | .result _ => false

/-- Whether a message is a `Finished` notice with status `0`. -/
def isCleanExit : Message → Bool
  | .finished _ status => status == "0"
  | .result _ => false

/-- The statistics text of a `Result`. -/
def stats? : Message → Option String
  | .finished _ _ => none
  | .result stats => some stats

end Message

/-- The counters of the collection loop that count messages. -/
structure Counters where
  /-- `Finished` notices with status `0`. -/
  clientsFinished : Nat := 0
  /-- `Finished` notices with another status. -/
  clientsDied : Nat := 0
  /-- `Result` messages. -/
  resultsReceived : Nat := 0
  deriving DecidableEq, Repr

namespace Counters

/-- Read one `exit_status`. -/
def addExit (c : Counters) (status : String) : Counters :=
  if status = "0" then { c with clientsFinished := c.clientsFinished + 1 }
  else { c with clientsDied := c.clientsDied + 1 }

/-- The loop body on one whole message. -/
def absorb (c : Counters) : Message → Counters
  | .finished _ status => c.addExit status
  | .result _ => { c with resultsReceived := c.resultsReceived + 1 }

/-- The guard `clientsFinished + clientsDied < machines*processes` of the loop, for
`expected = machines*processes`. -/
def Waiting (c : Counters) (expected : Int) : Prop :=
  (c.clientsFinished : Int) + c.clientsDied < expected

instance (c : Counters) (expected : Int) : Decidable (c.Waiting expected) :=
  inferInstanceAs (Decidable (_ < _))

/-- `Finished` notices read so far, whatever their status. -/
def finished (c : Counters) : Nat := c.clientsFinished + c.clientsDied

/-- The guard in terms of the number of `Finished` notices. -/
theorem waiting_iff {c : Counters} {expected : Int} :
    c.Waiting expected ↔ (c.finished : Int) < expected := by
  simp [Waiting, finished]

/-- Reading a `Finished` notice counts it once. -/
theorem finished_addExit (c : Counters) (status : String) :
    (c.addExit status).finished = c.finished + 1 := by
  unfold addExit finished
  split <;> simp only <;> omega

/-- A `Finished` notice leaves the number of results alone. -/
@[simp] theorem resultsReceived_addExit (c : Counters) (status : String) :
    (c.addExit status).resultsReceived = c.resultsReceived := by
  unfold addExit
  split <;> rfl

/-- Each message is counted once, on its own side. -/
theorem finished_absorb (c : Counters) (m : Message) :
    (c.absorb m).finished = c.finished + if m.isFinished then 1 else 0 := by
  cases m with
  | finished name status => exact finished_addExit c status
  | result stats => rfl

/-- Only `Result` messages count as results. -/
theorem resultsReceived_absorb (c : Counters) (m : Message) :
    (c.absorb m).resultsReceived = c.resultsReceived + if m.isFinished then 0 else 1 := by
  cases m with
  | finished name status => exact resultsReceived_addExit c status
  | result stats => rfl

/-- **The counters are the three counts.** After a sequence of messages `clientsFinished` has grown
by the `Finished` notices with status `0`, `clientsDied` by the others and `resultsReceived` by the
`Result` messages. -/
theorem foldl_absorb (c : Counters) (ms : List Message) :
    ms.foldl absorb c =
      { clientsFinished := c.clientsFinished + ms.countP (·.isCleanExit)
        clientsDied := c.clientsDied + ms.countP (fun m => m.isFinished && !m.isCleanExit)
        resultsReceived := c.resultsReceived + ms.countP (fun m => !m.isFinished) } := by
  induction ms generalizing c with
  | nil => rfl
  | cons m ms ih =>
      rw [List.foldl_cons, ih]
      cases m with
      | result stats => simp [absorb, Message.isFinished, Message.isCleanExit]; omega
      | finished name status =>
          by_cases h : status = "0"
          · simp [absorb, addExit, Message.isFinished, Message.isCleanExit, h]; omega
          · simp [absorb, addExit, Message.isFinished, Message.isCleanExit, h]; omega

end Counters

/-! ## Reading frame by frame -/

/-- The `s_recv` call the loop is at. -/
inductive Reader.Loc
  /-- `status = s_recv(receiver)`, the head of the loop. -/
  | status
  /-- `name = s_recv(receiver)`. -/
  | name
  /-- `exit_status = s_recv(receiver)`. -/
  | exitStatus
  /-- `stats = s_recv(receiver)`. -/
  | stats
  /-- The `s_recv(receiver)` that drops the delimiter of a `Result`. -/
  | delimiter (stats : String)
  deriving DecidableEq, Repr

/-- The state of the collection loop between two `s_recv` calls. -/
structure Reader where
  /-- The next `s_recv`. -/
  loc : Reader.Loc := .status
  /-- The counters. -/
  counters : Counters := {}
  /-- The statistics texts handed to the parsing part of the loop body, in order. -/
  parsed : List String := []
  deriving DecidableEq, Repr

namespace Reader

/-- One `s_recv` that returns the text `f`, with the code up to the next one. -/
def readFrame (r : Reader) (f : String) : Reader :=
  match r.loc with
  | .status =>
      if f = "Finished" then { r with loc := .name }
      else if f = "Result" then { r with loc := .stats }
      -- neither branch is taken, and the loop reads the next frame as a status
      else r
  | .name => { r with loc := .exitStatus }
  -- the fourth frame of a `Finished` is left for the head of the loop
  | .exitStatus => { r with loc := .status, counters := r.counters.addExit f }
  | .stats =>
      { r with
        loc := .delimiter f
        counters := { r.counters with resultsReceived := r.counters.resultsReceived + 1 } }
  | .delimiter stats => { r with loc := .status, parsed := r.parsed ++ [stats] }

/-- The loop has been left: its guard is tested at its head only. -/
def Exited (expected : Int) (r : Reader) : Prop :=
  r.loc = .status ∧ ¬ r.counters.Waiting expected

instance (expected : Int) (r : Reader) : Decidable (r.Exited expected) :=
  inferInstanceAs (Decidable (_ ∧ _))

/-- The loop over the frames that arrive: the state it ends in and the frames left unread. -/
def collect (expected : Int) : Reader → List Frame → Reader × List Frame
  | r, [] => (r, [])
  | r, f :: fs =>
      if r.Exited expected then (r, f :: fs) else collect expected (r.readFrame f.text) fs

/-- The frames that `status = s_recv(receiver)` reads during the loop. -/
def statusFrames (expected : Int) : Reader → List Frame → List Frame
  | _, [] => []
  | r, f :: fs =>
      if r.Exited expected then []
      else if r.loc = .status then f :: statusFrames expected (r.readFrame f.text) fs
      else statusFrames expected (r.readFrame f.text) fs

/-- The reader at the head of the loop after the messages `ms`. -/
def afterMessages (r : Reader) (ms : List Message) : Reader :=
  { r with counters := ms.foldl Counters.absorb r.counters
           parsed := r.parsed ++ ms.filterMap Message.stats? }

/-- No message leaves the reader as it is. -/
@[simp] theorem afterMessages_nil (r : Reader) : r.afterMessages [] = r := by
  simp [afterMessages]

/-- Reading on is reading the messages one after the other. -/
theorem afterMessages_cons (r : Reader) (m : Message) (ms : List Message) :
    r.afterMessages (m :: ms) = (r.afterMessages [m]).afterMessages ms := by
  cases m <;> simp [afterMessages, List.filterMap_cons, Message.stats?]

/-- Reading messages does not move the program counter. -/
@[simp] theorem loc_afterMessages (r : Reader) (ms : List Message) :
    (r.afterMessages ms).loc = r.loc := rfl

variable {expected : Int} {r : Reader}

/-- A loop that has been left reads nothing. -/
theorem collect_of_exited (h : r.Exited expected) (fs : List Frame) :
    collect expected r fs = (r, fs) := by
  cases fs with
  | nil => rfl
  | cons f fs => rw [collect, if_pos h]

/-- A loop that has been left reads no status frame. -/
theorem statusFrames_of_exited (h : r.Exited expected) (fs : List Frame) :
    statusFrames expected r fs = [] := by
  cases fs with
  | nil => rfl
  | cons f fs => rw [statusFrames, if_pos h]

/-- At the head of a running loop the delimiter of a `Finished` is an unknown status. -/
theorem collect_delimiter (h : ¬ r.Exited expected) (hloc : r.loc = .status) (fs : List Frame) :
    collect expected r (.delimiter :: fs) = collect expected r fs := by
  rw [collect, if_neg h]
  simp [readFrame, hloc, Frame.delimiter]

/-- The status frame that `collect_delimiter` reads. -/
theorem statusFrames_delimiter (h : ¬ r.Exited expected) (hloc : r.loc = .status)
    (fs : List Frame) :
    statusFrames expected r (.delimiter :: fs) = .delimiter :: statusFrames expected r fs := by
  rw [statusFrames, if_neg h, if_pos hloc]
  simp [readFrame, hloc, Frame.delimiter]

/-- A reader inside the body of the loop reads its frame without testing the guard. -/
theorem collect_inside (hloc : r.loc ≠ .status) (f : Frame) (fs : List Frame) :
    collect expected r (f :: fs) = collect expected (r.readFrame f.text) fs := by
  rw [collect, if_neg fun h => hloc h.1]

/-- A frame read inside the body of the loop is no status frame. -/
theorem statusFrames_inside (hloc : r.loc ≠ .status) (f : Frame) (fs : List Frame) :
    statusFrames expected r (f :: fs) = statusFrames expected (r.readFrame f.text) fs := by
  rw [statusFrames, if_neg fun h => hloc h.1, if_neg hloc]

/-- **One whole message.** A running loop at its head consumes a message up to a delimiter, which
only a `Finished` leaves behind. -/
theorem collect_message (h : ¬ r.Exited expected) (hloc : r.loc = .status) (m : Message)
    (fs : List Frame) :
    collect expected r (m.frames ++ fs) =
      collect expected (r.afterMessages [m]) (if m.isFinished then .delimiter :: fs else fs) := by
  obtain ⟨loc, counters, parsed⟩ := r
  cases hloc
  cases m with
  | finished name status =>
      -- the guard is tested at the first frame only; the other reads are inside the body
      rw [Message.frames, List.cons_append, collect, if_neg h]
      simp [collect_inside, readFrame, afterMessages, Counters.absorb, Message.isFinished,
        List.filterMap_cons, Message.stats?]
  | result stats =>
      rw [Message.frames, List.cons_append, collect, if_neg h]
      simp [collect_inside, readFrame, afterMessages, Counters.absorb, Message.isFinished,
        Message.stats?]

/-- The status frame of one whole message is its command. -/
theorem statusFrames_message (h : ¬ r.Exited expected) (hloc : r.loc = .status) (m : Message)
    (fs : List Frame) :
    ∃ f, f.role = .command ∧ statusFrames expected r (m.frames ++ fs) =
      f :: statusFrames expected (r.afterMessages [m])
        (if m.isFinished then .delimiter :: fs else fs) := by
  obtain ⟨loc, counters, parsed⟩ := r
  cases hloc
  cases m with
  | finished name status =>
      refine ⟨⟨.command, "Finished"⟩, rfl, ?_⟩
      rw [Message.frames, List.cons_append, statusFrames, if_neg h, if_pos rfl]
      simp [statusFrames_inside, readFrame, afterMessages, Counters.absorb, Message.isFinished,
        List.filterMap_cons, Message.stats?]
  | result stats =>
      refine ⟨⟨.command, "Result"⟩, rfl, ?_⟩
      rw [Message.frames, List.cons_append, statusFrames, if_neg h, if_pos rfl]
      simp [statusFrames_inside, readFrame, afterMessages, Counters.absorb, Message.isFinished,
        Message.stats?]

/-- The unread input on a message boundary: at most one left-over delimiter, then whole messages. -/
def boundary (leftover : Bool) (ms : List Message) : List Frame :=
  (if leftover then [.delimiter] else []) ++ ms.flatMap Message.frames

/-- Messages that arrive later extend the unread input by whole messages. -/
theorem boundary_append (leftover : Bool) (ms more : List Message) :
    boundary leftover ms ++ more.flatMap Message.frames = boundary leftover (ms ++ more) := by
  simp [boundary]

/-- Nothing is unread only when no message is. -/
theorem boundary_eq_nil {leftover : Bool} {ms : List Message} (h : boundary leftover ms = []) :
    ms = [] := by
  cases ms with
  | nil => rfl
  | cons m ms => cases m <;> simp [boundary, Message.frames] at h

/-- A running loop skips the left-over delimiter. -/
theorem collect_boundary (h : ¬ r.Exited expected) (hloc : r.loc = .status) (leftover : Bool)
    (ms : List Message) :
    collect expected r (boundary leftover ms) = collect expected r (boundary false ms) := by
  cases leftover with
  | false => rfl
  | true => exact collect_delimiter h hloc _

/-- **The loop stays in step with the messages.** Started at its head on a message boundary, the
loop has consumed a prefix of the messages when it exits or runs out of input: its state is the fold
over that prefix, what is unread is again a message boundary, and no payload frame was read as a
status. -/
theorem collect_frames (hloc : r.loc = .status) (leftover : Bool) (ms : List Message) :
    ∃ consumed remaining leftover', ms = consumed ++ remaining ∧
      collect expected r (boundary leftover ms) =
        (r.afterMessages consumed, boundary leftover' remaining) ∧
      ((r.afterMessages consumed).Exited expected ∨ boundary leftover' remaining = []) ∧
      ∀ f ∈ statusFrames expected r (boundary leftover ms), f.role ≠ .payload := by
  -- on the messages that have arrived; the reader is at the head of its loop in between
  induction ms generalizing r leftover with
  | nil =>
      by_cases h : r.Exited expected
      · refine ⟨[], [], leftover, rfl, ?_, .inl (by simpa using h), ?_⟩
        · rw [collect_of_exited h, afterMessages_nil]
        · simp [statusFrames_of_exited h]
      · refine ⟨[], [], false, rfl, ?_, .inr rfl, ?_⟩
        · rw [collect_boundary h hloc]
          simp [boundary, collect]
        · cases leftover with
          | false => simp [boundary, statusFrames]
          | true =>
              have hskip := statusFrames_delimiter h hloc []
              simp only [boundary, if_true, List.flatMap_nil, List.append_nil, hskip]
              simp [statusFrames, Frame.delimiter]
  | cons m ms ih =>
      by_cases h : r.Exited expected
      · refine ⟨[], m :: ms, leftover, rfl, ?_, .inl (by simpa using h), ?_⟩
        · rw [collect_of_exited h, afterMessages_nil]
        · simp [statusFrames_of_exited h]
      · -- `m` is consumed, and a `Finished` leaves its delimiter to the rest of the run
        have hnext : (r.afterMessages [m]).loc = .status := hloc
        obtain ⟨consumed, remaining, leftover', hms, hcollect, hend, hstatus⟩ :=
          ih hnext m.isFinished
        have hunread : boundary false (m :: ms) = m.frames ++ ms.flatMap Message.frames := rfl
        have hrest : boundary m.isFinished ms =
            if m.isFinished then .delimiter :: ms.flatMap Message.frames
            else ms.flatMap Message.frames := by
          cases m.isFinished <;> rfl
        refine ⟨m :: consumed, remaining, leftover', by rw [hms, List.cons_append], ?_, ?_, ?_⟩
        · rw [collect_boundary h hloc, hunread, collect_message h hloc, ← hrest, hcollect,
            ← afterMessages_cons]
        · rwa [afterMessages_cons]
        · obtain ⟨f, hf, hmessage⟩ := statusFrames_message h hloc m (ms.flatMap Message.frames)
          rw [← hrest] at hmessage
          have hrole : ∀ g ∈ f :: statusFrames expected (r.afterMessages [m])
              (boundary m.isFinished ms), g.role ≠ .payload := by
            intro g hg
            rcases List.mem_cons.mp hg with rfl | hg
            · simp [hf]
            · exact hstatus g hg
          cases leftover with
          | false => rwa [hunread, hmessage]
          | true =>
              have hskip := statusFrames_delimiter h hloc (m.frames ++ ms.flatMap Message.frames)
              rw [hmessage] at hskip
              intro g hg
              have hg' : g ∈ Frame.delimiter :: f :: statusFrames expected (r.afterMessages [m])
                  (boundary m.isFinished ms) := hskip ▸ hg
              rcases List.mem_cons.mp hg' with rfl | hg'
              · simp [Frame.delimiter]
              · exact hrole g hg'

/-- **The collection loop never loses message synchronisation.** For every sequence of messages
with arbitrary texts, after a delimiter an earlier run of the loop may have left behind, and for
every number of `Finished` notices the loop waits for: the loop stops at its head, its counters
count the messages of the consumed prefix, what is unread is at most one delimiter before whole
messages (so that later messages extend it to an input of the same form), and every frame taken for
a status was the command or the delimiter of its message. -/
theorem collect_synchronised (expected : Int) (leftover : Bool) (ms : List Message) :
    ∃ consumed remaining leftover', ms = consumed ++ remaining ∧
      (collect expected {} (boundary leftover ms)).1 =
        { loc := .status
          counters :=
            { clientsFinished := consumed.countP (·.isCleanExit)
              clientsDied := consumed.countP (fun m => m.isFinished && !m.isCleanExit)
              resultsReceived := consumed.countP (fun m => !m.isFinished) }
          parsed := consumed.filterMap Message.stats? } ∧
      (∀ more, (collect expected {} (boundary leftover ms)).2 ++ more.flatMap Message.frames =
        boundary leftover' (remaining ++ more)) ∧
      (¬ (collect expected {} (boundary leftover ms)).1.Exited expected → remaining = []) ∧
      ∀ f ∈ statusFrames expected {} (boundary leftover ms), f.role ≠ .payload := by
  obtain ⟨consumed, remaining, leftover', hms, hcollect, hend, hstatus⟩ :=
    @collect_frames expected {} rfl leftover ms
  refine ⟨consumed, remaining, leftover', hms, ?_, ?_, ?_, hstatus⟩
  · rw [hcollect]
    simp [afterMessages, Counters.foldl_absorb]
  · intro more
    rw [hcollect, boundary_append]
  · intro hrunning
    rw [hcollect] at hrunning
    exact boundary_eq_nil (hend.resolve_left hrunning)

/-- Payloads that spell a command word are still read as payloads. -/
example : (collect 2 {} (boundary true [.finished "Result" "0", .result "Finished",
    .finished "" "Finished", .result ""])) =
    ({ counters := ⟨1, 1, 1⟩, parsed := ["Finished"] }, boundary true [.result ""]) := by
  decide

end Reader

end WsPerftester
