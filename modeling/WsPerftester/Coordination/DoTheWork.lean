import WsPerftester.Lib.EarlyExit
import WsPerftester.Coordination.Parties

/-! # The work of a process and its exit status

`doTheWork` of `listener-websocket.cpp` creates the clients, runs them, waits for them and sends
their results, in four loops any of which an exception may leave. `main` catches the exception,
writes a line to the log and returns 0. What the parent sees is decided while the exception unwinds
the stack: it destroys the clients, and the destructor of a thread that is still running terminates
the process. So the error is swallowed exactly when no thread of the process is running at that
time (`success_means_results_iff`). -/

namespace WsPerftester

open Std.Do EarlyExit

set_option mvcgen.warning false

/-! ## The state and the surroundings -/

/-- A `shared_ptr` to a thread. -/
inductive ThreadPtr
  /-- Null: no thread has been started. -/
  | null
  /-- The thread has been started and not been joined. -/
  | joinable
  /-- `join` has returned. -/
  | joined
  deriving DecidableEq, Repr

/-- The two threads of a client. -/
structure Threads where
  asioThread : ThreadPtr := .null
  telemetryThread : ThreadPtr := .null
  deriving DecidableEq, Repr

/-- Whether the destructor of the client terminates the process. -/
def Threads.Running (t : Threads) : Prop :=
  t.asioThread = .joinable ∨ t.telemetryThread = .joinable

instance (t : Threads) : Decidable t.Running := inferInstanceAs (Decidable (_ ∨ _))

/-- What `doTheWork` changes: the clients, and the messages handed to the sink. A multipart message
goes out with its last part; `parts` are the parts of the current one. -/
structure Work where
  clients : List Threads := []
  parts : List Frame := []
  sink : List (List Frame) := []
  deriving DecidableEq, Repr

/-- The places at which an exception may be thrown on behalf of a client. -/
inductive Site
  /-- Its constructor. -/
  | create
  /-- `run`, up to the result of `get_connection`. -/
  | connect
  /-- `run`, from there to the start of its first thread. -/
  | startAsio
  /-- `run`, the start of its second thread. -/
  | startTelemetry
  /-- `wait`, the first join. -/
  | joinAsio
  /-- `wait`, the second join. -/
  | joinTelemetry
  /-- `get_stats`, and the first part of its `Result`. -/
  | sendCommand
  /-- The second part. -/
  | sendStats
  /-- The last part. -/
  | sendDelimiter
  deriving DecidableEq, Repr

/-- What `doTheWork` meets with: where an exception is thrown, for which clients `get_connection`
reports an error, and the statistics of the clients. -/
structure Surroundings where
  throws : Site → Nat → Bool
  refused : Nat → Bool
  stats : Nat → String

/-- What makes `doTheWork` end early. -/
inductive Fault
  /-- A `std::exception`. -/
  | exception
  /-- A null pointer is dereferenced. -/
  | nullPointer
  deriving DecidableEq, Repr

/-- Code that works on the state and may end early. -/
abbrev Code := ExceptT Fault (StateM Work)

namespace Work

/-- The threads of client `k`. -/
def threads (w : Work) (k : Nat) : Threads := w.clients.getD k {}

/-- The state with other threads of client `k`. -/
def setThreads (w : Work) (k : Nat) (t : Threads) : Work := { w with clients := w.clients.set k t }

/-- Whether a thread of some client has been started and not been joined. -/
def Running (w : Work) : Prop := ∃ t ∈ w.clients, t.Running

instance (w : Work) : Decidable w.Running := inferInstanceAs (Decidable (∃ t ∈ _, _))

end Work

/-! ## The four loops -/

namespace Surroundings

variable (env : Surroundings)

/-- A place at which an exception may be thrown. -/
def mayThrow (site : Site) (k : Nat) : Code Unit := do
  if env.throws site k then throw .exception

/-- `new telemetry_client(...)` and `push_back`. -/
def create (k : Nat) : Code Unit := do
  env.mayThrow .create k
  modify fun w => { w with clients := w.clients ++ [{}] }

/-- `base_client::run`. -/
def run (k : Nat) : Code Unit := do
  env.mayThrow .connect k
  -- on an error the function returns, and both pointers stay null
  if !env.refused k then
    env.mayThrow .startAsio k
    modify fun w => w.setThreads k { w.threads k with asioThread := .joinable }
    env.mayThrow .startTelemetry k
    modify fun w => w.setThreads k { w.threads k with telemetryThread := .joinable }

/-- `base_client::wait`, which does not look whether there are threads. -/
def wait (k : Nat) : Code Unit := do
  if ((← get).threads k).asioThread = .null then throw .nullPointer
  env.mayThrow .joinAsio k
  modify fun w => w.setThreads k { w.threads k with asioThread := .joined }
  if ((← get).threads k).telemetryThread = .null then throw .nullPointer
  env.mayThrow .joinTelemetry k
  modify fun w => w.setThreads k { w.threads k with telemetryThread := .joined }

/-- `s_sendmore`. -/
def sendMore (f : Frame) : Code Unit := modify fun w => { w with parts := w.parts ++ [f] }

/-- `s_send`. -/
def send (f : Frame) : Code Unit :=
  modify fun w => { w with parts := [], sink := w.sink ++ [w.parts ++ [f]] }

/-- The body of the last loop. -/
def sendResult (k : Nat) : Code Unit := do
  env.mayThrow .sendCommand k
  sendMore ⟨.command, "Result"⟩
  env.mayThrow .sendStats k
  sendMore ⟨.payload, env.stats k⟩
  env.mayThrow .sendDelimiter k
  send .delimiter

/-- `doTheWork`. -/
def doTheWork (instances : Int) : Code Unit := do
  forRange instances.toNat env.create
  forRange instances.toNat env.run
  forRange instances.toNat env.wait
  forRange instances.toNat env.sendResult

end Surroundings

/-! ## What is left behind -/

/-- How the process ends. -/
inductive Exit
  /-- `return 0`. -/
  | returned
  /-- `std::terminate`. -/
  | aborted
  /-- A segmentation fault. -/
  | crashed
  deriving DecidableEq, Repr

/-- What `waitpid` stores for the parent, by whether a core was dumped. -/
def Exit.status (core : Bool) : Exit → Int
  | .returned => 0
  | .aborted => if core then 134 else 6
  | .crashed => if core then 139 else 11

/-- The end of `main`, behind `doTheWork` and the destruction of its clients. -/
def Exit.ofEnding : Except Fault Unit × Work → Exit
  | (.error .nullPointer, _) => .crashed
  -- the handler of the exception only writes to the log
  | (_, w) => if w.Running then .aborted else .returned

namespace Surroundings

variable (env : Surroundings)

/-- The end of `doTheWork`. -/
def ending (instances : Int) : Except Fault Unit × Work := (env.doTheWork instances).run.run {}

/-- The end of the process. -/
def exit (instances : Int) : Exit := .ofEnding (env.ending instances)

/-- The first `m` results as multipart messages. -/
def results (m : Nat) : List (List Frame) :=
  (List.range m).map fun k => (Message.result (env.stats k)).frames

end Surroundings

/-! ## The threads of the clients -/

namespace Work

variable {w : Work} {k : Nat}

@[simp] theorem length_setThreads (w : Work) (k : Nat) (t : Threads) :
    (w.setThreads k t).clients.length = w.clients.length := List.length_set

@[simp] theorem parts_setThreads (w : Work) (k : Nat) (t : Threads) :
    (w.setThreads k t).parts = w.parts := rfl

@[simp] theorem sink_setThreads (w : Work) (k : Nat) (t : Threads) :
    (w.setThreads k t).sink = w.sink := rfl

/-- Setting the threads of a client changes no other client. -/
theorem threads_setThreads (hk : k < w.clients.length) (t : Threads) (j : Nat) :
    (w.setThreads k t).threads j = if j = k then t else w.threads j := by
  by_cases hj : j = k
  · simp [threads, setThreads, List.getD_eq_getElem?_getD, hj, hk]
  · simp [threads, setThreads, List.getD_eq_getElem?_getD, hj, List.getElem?_set_ne (Ne.symm hj)]

/-- The threads a client has been given are its threads. -/
theorem threads_setThreads_self (hk : k < w.clients.length) (t : Threads) :
    (w.setThreads k t).threads k = t := by
  rw [threads_setThreads hk, if_pos rfl]

/-- Setting the threads a client has changes nothing. -/
theorem setThreads_self (hk : k < w.clients.length) {t : Threads} (ht : w.threads k = t) :
    w.setThreads k t = w := by
  rw [threads, List.getD_eq_getElem _ _ hk] at ht
  rw [setThreads, ← ht, List.set_getElem_self]

/-- Only the last change of the threads of a client counts. -/
theorem setThreads_setThreads (w : Work) (k : Nat) (t t' : Threads) :
    (w.setThreads k t).setThreads k t' = w.setThreads k t' := by
  simp [setThreads]

/-- The process has a running thread when one of its clients has. -/
theorem running_iff : w.Running ↔ ∃ k < w.clients.length, (w.threads k).Running := by
  constructor
  · rintro ⟨t, ht, hrunning⟩
    obtain ⟨k, hk, rfl⟩ := List.getElem_of_mem ht
    refine ⟨k, hk, ?_⟩
    rwa [threads, List.getD_eq_getElem _ _ hk]
  · rintro ⟨k, hk, hrunning⟩
    rw [threads, List.getD_eq_getElem _ _ hk] at hrunning
    exact ⟨_, List.getElem_mem hk, hrunning⟩

end Work

/-! ## What the loops do -/

namespace Surroundings

variable (env : Surroundings)

/-- `run` throws before it has started a thread. -/
def ThrowsIdle (k : Nat) : Prop :=
  env.throws .connect k = true ∨ env.refused k = false ∧ env.throws .startAsio k = true

/-- `run` returns. -/
def Runs (k : Nat) : Prop :=
  ¬ env.ThrowsIdle k ∧ (env.refused k = false → env.throws .startTelemetry k = false)

/-- The threads of a client whose `run` has returned. -/
def started (k : Nat) : Threads := if env.refused k then {} else ⟨.joinable, .joinable⟩

/-- `wait` throws no exception. -/
def Joins (k : Nat) : Prop :=
  env.throws .joinAsio k = false ∧ env.throws .joinTelemetry k = false

/-- The result of the client is sent. -/
def Sends (k : Nat) : Prop :=
  env.throws .sendCommand k = false ∧ env.throws .sendStats k = false ∧
    env.throws .sendDelimiter k = false

/-- `create` appends a client without threads. -/
theorem create_spec (k : Nat) (w₀ : Work) :
    Leads (fun w => w = w₀) (env.create k)
      (fun w => env.throws .create k = false ∧ w = { w₀ with clients := w₀.clients ++ [{}] })
      (fun e w => e = .exception ∧ env.throws .create k = true ∧ w = w₀) := by
  unfold Leads create mayThrow
  mvcgen
  case vc2 w hw hthrows w' =>
    subst hw
    exact ⟨by simpa using hthrows, rfl⟩

/-- `run` gives the client its threads, unless it throws. -/
theorem run_spec (k : Nat) (w₀ : Work) (hk : k < w₀.clients.length) (hnull : w₀.threads k = {}) :
    Leads (fun w => w = w₀) (env.run k)
      (fun w => env.Runs k ∧ w = w₀.setThreads k (env.started k))
      (fun e w => e = .exception ∧ ¬ env.Runs k ∧ (env.ThrowsIdle k ∧ w = w₀ ∨
        ¬ env.ThrowsIdle k ∧ env.refused k = false ∧
          w = w₀.setThreads k ⟨.joinable, .null⟩)) := by
  unfold Leads run mayThrow
  mvcgen
  case vc1 w hw hconnect =>
    have hidle : env.ThrowsIdle k := .inl hconnect
    exact ⟨trivial, fun h => h.1 hidle, .inl ⟨hidle, hw⟩⟩
  case vc2 w hw hconnect haccepted hasio =>
    have hidle : env.ThrowsIdle k := .inr ⟨by simpa using haccepted, hasio⟩
    exact ⟨trivial, fun h => h.1 hidle, .inl ⟨hidle, hw⟩⟩
  case vc3 w hw hconnect haccepted hasio w' htelemetry =>
    subst hw
    have haccepted : env.refused k = false := by simpa using haccepted
    refine ⟨trivial, fun h => by simp [h.2 haccepted] at htelemetry, .inr ⟨?_, haccepted, ?_⟩⟩
    · rintro (h | h)
      · exact hconnect h
      · exact hasio h.2
    · simp only [w', hnull]
  case vc4 w hw hconnect haccepted hasio w' htelemetry w'' =>
    subst hw
    have haccepted : env.refused k = false := by simpa using haccepted
    refine ⟨⟨?_, fun _ => by simpa using htelemetry⟩, ?_⟩
    · rintro (h | h)
      · exact hconnect h
      · exact hasio h.2
    · simp only [w'', w', started, haccepted, Work.threads_setThreads_self hk,
        Work.setThreads_setThreads, Bool.false_eq_true, if_false]
  case vc5 w hw hconnect hrefused =>
    subst hw
    have hrefused : env.refused k = true := by simpa using hrefused
    refine ⟨⟨?_, fun h => ?_⟩, ?_⟩
    · rintro (h | h)
      · exact hconnect h
      · exact absurd h.1 (by simp [hrefused])
    · exact absurd h (by simp [hrefused])
    · rw [started, if_pos hrefused, Work.setThreads_self hk hnull]

/-- `wait` joins the threads of a client, if it has any. -/
theorem wait_spec (k : Nat) (w₀ : Work) (hk : k < w₀.clients.length)
    (hstarted : w₀.threads k = env.started k) :
    Leads (fun w => w = w₀) (env.wait k)
      (fun w => env.refused k = false ∧ env.Joins k ∧ w = w₀.setThreads k ⟨.joined, .joined⟩)
      (fun e w => w.sink = w₀.sink ∧ (e = .nullPointer ∧ env.refused k = true ∨
        e = .exception ∧ ¬ env.Joins k ∧ w.Running)) := by
  have hrefused (h : (env.started k).asioThread = .null) : env.refused k = true := by
    unfold started at h
    split at h
    · assumption
    · cases h
  have haccepted (h : (env.started k).asioThread ≠ .null) :
      env.refused k = false ∧ env.started k = ⟨.joinable, .joinable⟩ := by
    unfold started at h ⊢
    cases hr : env.refused k with
    | true => simp [hr] at h
    | false => simp
  unfold Leads wait mayThrow
  mvcgen
  case vc1 w hw _ hnull =>
    rw [hw, hstarted] at hnull
    exact ⟨by rw [hw], .inl ⟨trivial, hrefused hnull⟩⟩
  case vc2 w hw _ hasio hthrows =>
    rw [hw, hstarted] at hasio
    refine ⟨by rw [hw], .inr ⟨trivial, fun h => by simp [h.1] at hthrows, ?_⟩⟩
    rw [hw, Work.running_iff]
    refine ⟨k, hk, .inl ?_⟩
    rw [hstarted, (haccepted hasio).2]
  case vc3 w hw _ hasio hthrows w' _ hnull =>
    subst hw
    rw [hstarted] at hasio
    simp [w', hstarted, (haccepted hasio).2, Work.threads_setThreads_self hk] at hnull
  case vc4 w hw _ hasio hthrows w' _ htelemetry hthrows' =>
    subst hw
    rw [hstarted] at hasio
    refine ⟨rfl, .inr ⟨trivial, fun h => by simp [h.2] at hthrows', ?_⟩⟩
    rw [Work.running_iff]
    refine ⟨k, by simpa [w'] using hk, .inr ?_⟩
    simp [w', hstarted, (haccepted hasio).2, Work.threads_setThreads_self hk]
  case vc5 w hw _ hasio hthrows w' _ htelemetry hthrows' w'' =>
    subst hw
    rw [hstarted] at hasio
    refine ⟨(haccepted hasio).1, ⟨by simpa using hthrows, by simpa using hthrows'⟩, ?_⟩
    simp [w'', w', Work.threads_setThreads_self hk, Work.setThreads_setThreads]

/-- `sendResult` hands one complete message to the sink, unless it throws. -/
theorem sendResult_spec (k : Nat) (w₀ : Work) (hparts : w₀.parts = []) :
    Leads (fun w => w = w₀) (env.sendResult k)
      (fun w => env.Sends k ∧
        w = { w₀ with sink := w₀.sink ++ [(Message.result (env.stats k)).frames] })
      (fun e w => e = .exception ∧ ¬ env.Sends k ∧ w.clients = w₀.clients ∧
        w.sink = w₀.sink) := by
  unfold Leads sendResult mayThrow sendMore send
  mvcgen
  case vc1 w hw hcommand =>
    subst hw
    exact ⟨trivial, fun h => by simp [h.1] at hcommand, rfl, rfl⟩
  case vc2 w hw hcommand w' hstats =>
    subst hw
    exact ⟨trivial, fun h => by simp [h.2.1] at hstats, rfl, rfl⟩
  case vc3 w hw hcommand w' hstats w'' hdelimiter =>
    subst hw
    exact ⟨trivial, fun h => by simp [h.2.2] at hdelimiter, rfl, rfl⟩
  case vc4 w hw hcommand w' hstats w'' hdelimiter w₄ =>
    subst hw
    refine ⟨⟨by simpa using hcommand, by simpa using hstats, by simpa using hdelimiter⟩, ?_⟩
    simp [w₄, w'', w', hparts, Message.frames]

/-! ## The loops as a whole -/

variable (n : Nat)

/-- The first loop creates clients without threads. -/
theorem create_loop :
    Leads (fun w => w = {}) (forRange n env.create)
      (fun w => (∀ k < n, env.throws .create k = false) ∧ w = { clients := List.replicate n {} })
      (fun e w => e = .exception ∧ (∃ k < n, env.throws .create k = true) ∧ ¬ w.Running ∧
        w.sink = []) := by
  have hround : ∀ k < n, Leads
      (fun w => (∀ j < k, env.throws .create j = false) ∧
        w = { clients := List.replicate k {} }) (env.create k)
      (fun w => (∀ j < k + 1, env.throws .create j = false) ∧
        w = { clients := List.replicate (k + 1) {} })
      (fun e w => e = .exception ∧ (∃ k < n, env.throws .create k = true) ∧ ¬ w.Running ∧
        w.sink = []) := by
    rintro k hk
    refine .of_state ?_
    rintro w₀ ⟨hearlier, rfl⟩
    refine (env.create_spec k _).mono (fun _ h => h) ?_ ?_
    · rintro w ⟨hk', rfl⟩
      refine ⟨fun j hj => ?_, by rw [List.replicate_succ']⟩
      rcases Nat.lt_succ_iff_lt_or_eq.mp hj with hj | rfl
      · exact hearlier j hj
      · exact hk'
    · rintro e w ⟨he, hthrows, rfl⟩
      refine ⟨he, ⟨k, hk, hthrows⟩, ?_, rfl⟩
      rintro ⟨t, ht, hrunning⟩
      rw [List.eq_of_mem_replicate ht] at hrunning
      exact absurd hrunning (by decide)
  refine (Leads.forRange hround).mono ?_ (fun _ h => h) (fun _ _ h => h)
  rintro w rfl
  exact ⟨fun j hj => absurd hj (Nat.not_lt_zero j), rfl⟩

/-- Between two rounds of the second loop: `k` clients have been run. -/
structure RunInv (k : Nat) (w : Work) : Prop where
  length : w.clients.length = n
  parts : w.parts = []
  sink : w.sink = []
  started : ∀ j < k, env.Runs j ∧ w.threads j = env.started j
  untouched : ∀ j, k ≤ j → w.threads j = {}

/-- Among the clients that have been run, those with a connection have running threads. -/
theorem RunInv.running_iff {k : Nat} {w : Work} (h : env.RunInv n k w) (hk : k ≤ n) :
    w.Running ↔ ∃ j < k, env.refused j = false := by
  rw [Work.running_iff]
  constructor
  · rintro ⟨j, -, hrunning⟩
    rcases Nat.lt_or_ge j k with hj | hj
    · rw [(h.started j hj).2, Surroundings.started] at hrunning
      refine ⟨j, hj, ?_⟩
      by_contra hrefused
      rw [if_pos (by simpa using hrefused)] at hrunning
      exact absurd hrunning (by decide)
    · rw [h.untouched j hj] at hrunning
      exact absurd hrunning (by decide)
  · rintro ⟨j, hj, haccepted⟩
    refine ⟨j, by have := h.length; omega, ?_⟩
    rw [(h.started j hj).2, Surroundings.started, haccepted]
    exact .inl rfl

/-- The second loop gives the clients their threads. -/
theorem run_loop :
    Leads (env.RunInv n 0) (forRange n env.run) (env.RunInv n n)
      (fun e w => e = .exception ∧ w.sink = [] ∧ ∃ k < n, (∀ j < k, env.Runs j) ∧ ¬ env.Runs k ∧
        (env.ThrowsIdle k ∧ (w.Running ↔ ∃ j < k, env.refused j = false) ∨
          ¬ env.ThrowsIdle k ∧ env.refused k = false ∧ w.Running)) := by
  refine Leads.forRange fun k hk => .of_state fun w₀ h => ?_
  have hlength : k < w₀.clients.length := by rw [h.length]; exact hk
  refine (env.run_spec k w₀ hlength (h.untouched k (Nat.le_refl k))).mono (fun _ h => h) ?_ ?_
  · rintro w ⟨hruns, rfl⟩
    refine ⟨by simpa using h.length, h.parts, h.sink, fun j hj => ?_, fun j hj => ?_⟩
    · rw [Work.threads_setThreads hlength]
      rcases Nat.lt_succ_iff_lt_or_eq.mp hj with hj | rfl
      · rw [if_neg (by omega)]
        exact h.started j hj
      · rw [if_pos rfl]
        exact ⟨hruns, rfl⟩
    · rw [Work.threads_setThreads hlength, if_neg (by omega)]
      exact h.untouched j (by omega)
  · have hearlier : ∀ j < k, env.Runs j := fun j hj => (h.started j hj).1
    rintro e w ⟨he, hfails, ⟨hidle, rfl⟩ | ⟨hstarted, haccepted, rfl⟩⟩
    · have hrunning := h.running_iff env n (Nat.le_of_lt hk)
      exact ⟨he, h.sink, k, hk, hearlier, hfails, .inl ⟨hidle, hrunning⟩⟩
    · refine ⟨he, h.sink, k, hk, hearlier, hfails, .inr ⟨hstarted, haccepted, ?_⟩⟩
      rw [Work.running_iff]
      refine ⟨k, by simpa using hlength, .inl ?_⟩
      rw [Work.threads_setThreads_self hlength]

/-- Between two rounds of the third loop: `k` clients have been joined. -/
structure WaitInv (k : Nat) (w : Work) : Prop where
  length : w.clients.length = n
  parts : w.parts = []
  sink : w.sink = []
  joined : ∀ j < k, env.refused j = false ∧ env.Joins j ∧ w.threads j = ⟨.joined, .joined⟩
  started : ∀ j, k ≤ j → j < n → w.threads j = env.started j

/-- The third loop joins the clients, if each of them has threads. -/
theorem wait_loop :
    Leads (env.WaitInv n 0) (forRange n env.wait) (env.WaitInv n n)
      (fun e w => w.sink = [] ∧ ∃ k < n, e = .nullPointer ∧ env.refused k = true ∨
        e = .exception ∧ ¬ env.Joins k ∧ w.Running) := by
  refine Leads.forRange fun k hk => .of_state fun w₀ h => ?_
  have hlength : k < w₀.clients.length := by rw [h.length]; exact hk
  refine (env.wait_spec k w₀ hlength (h.started k (Nat.le_refl k) hk)).mono (fun _ h => h) ?_ ?_
  · rintro w ⟨haccepted, hjoins, rfl⟩
    refine ⟨by simpa using h.length, h.parts, h.sink, fun j hj => ?_, fun j hj hjn => ?_⟩
    · rw [Work.threads_setThreads hlength]
      rcases Nat.lt_succ_iff_lt_or_eq.mp hj with hj | rfl
      · rw [if_neg (by omega)]
        exact h.joined j hj
      · rw [if_pos rfl]
        exact ⟨haccepted, hjoins, rfl⟩
    · rw [Work.threads_setThreads hlength, if_neg (by omega)]
      exact h.started j (by omega) hjn
  · rintro e w ⟨hsink, hfault⟩
    exact ⟨hsink.trans h.sink, k, hk, hfault⟩

/-- Between two rounds of the last loop: the results of `k` clients have been sent. -/
structure SendInv (k : Nat) (w : Work) : Prop where
  joined : ¬ w.Running
  parts : w.parts = []
  sink : w.sink = env.results k
  sends : ∀ j < k, env.Sends j

/-- One more result. -/
theorem results_succ (k : Nat) :
    env.results (k + 1) = env.results k ++ [(Message.result (env.stats k)).frames] := by
  rw [results, results, List.range_succ, List.map_append, List.map_singleton]

/-- The last loop sends the results of the clients in order. -/
theorem send_loop :
    Leads (env.SendInv 0) (forRange n env.sendResult) (env.SendInv n)
      (fun e w => e = .exception ∧ ¬ w.Running ∧
        ∃ k < n, ¬ env.Sends k ∧ w.sink = env.results k) := by
  refine Leads.forRange fun k hk => .of_state fun w₀ h => ?_
  refine (env.sendResult_spec k w₀ h.parts).mono (fun _ h => h) ?_ ?_
  · rintro w ⟨hsends, rfl⟩
    refine ⟨h.joined, h.parts, by rw [results_succ, ← h.sink], fun j hj => ?_⟩
    rcases Nat.lt_succ_iff_lt_or_eq.mp hj with hj | rfl
    · exact h.sends j hj
    · exact hsends
  · rintro e w ⟨he, hfails, hclients, hsink⟩
    refine ⟨he, ?_, k, hk, hfails, hsink.trans h.sink⟩
    rw [Work.Running, hclients]
    exact h.joined

/-! ## When an exception is swallowed -/

/-- **No exception is thrown while no thread of the process is running**: not while the clients are
created, not by `run` before it has started the first thread of all, and, if every client has been
joined, not while the results are sent. -/
structure NoIdleException : Prop where
  create : ∀ k < n, env.throws .create k = false
  run : ∀ k < n, (∀ j < k, env.refused j = true) → ¬ env.ThrowsIdle k
  send : (∀ k < n, env.Runs k ∧ env.refused k = false ∧ env.Joins k) → ∀ k < n, env.Sends k

variable {n}

/-- An exception that leaves the first loop is swallowed. -/
theorem not_noIdle_of_create (h : ∃ k < n, env.throws .create k = true) :
    ¬ env.NoIdleException n := by
  obtain ⟨k, hk, hthrows⟩ := h
  intro hno
  simp [hno.create k hk] at hthrows

/-- An exception that leaves the second loop is swallowed if no thread is running. -/
theorem running_iff_of_run (hcreate : ∀ k < n, env.throws .create k = false) {k : Nat} (hk : k < n)
    (hearlier : ∀ j < k, env.Runs j) (hfails : ¬ env.Runs k) {w : Work}
    (hfault : env.ThrowsIdle k ∧ (w.Running ↔ ∃ j < k, env.refused j = false) ∨
      ¬ env.ThrowsIdle k ∧ env.refused k = false ∧ w.Running) :
    w.Running ↔ env.NoIdleException n := by
  have hsend : (∀ k < n, env.Runs k ∧ env.refused k = false ∧ env.Joins k) →
      ∀ k < n, env.Sends k := fun h => absurd (h k hk).1 hfails
  rcases hfault with ⟨hidle, hrunning⟩ | ⟨hstarted, haccepted, hrunning⟩
  · rw [hrunning]
    constructor
    · rintro ⟨i, hi, haccepted⟩
      refine ⟨hcreate, fun j hj hrefused => ?_, hsend⟩
      -- all clients before `j` are refused, so `j` comes no later than `i`
      have hji : j ≤ i := by
        by_contra hlt
        simp [hrefused i (by omega)] at haccepted
      exact (hearlier j (by omega)).1
    · intro hno
      by_contra hnone
      refine hno.run k hk (fun j hj => ?_) hidle
      by_contra hrefused
      exact hnone ⟨j, hj, by simpa using hrefused⟩
  · refine iff_of_true hrunning ⟨hcreate, fun j hj hrefused => ?_, hsend⟩
    rcases Nat.lt_trichotomy j k with hlt | rfl | hlt
    · exact (hearlier j hlt).1
    · exact hstarted
    · simp [hrefused k hlt] at haccepted

/-- An exception that leaves the third loop finds a running thread. -/
theorem noIdle_of_wait (hcreate : ∀ k < n, env.throws .create k = false)
    (hruns : ∀ k < n, env.Runs k) {k : Nat} (hk : k < n)
    (hfails : env.refused k = true ∨ ¬ env.Joins k) : env.NoIdleException n := by
  refine ⟨hcreate, fun j hj _ => (hruns j hj).1, fun h => ?_⟩
  obtain ⟨-, haccepted, hjoins⟩ := h k hk
  rcases hfails with hrefused | hfails
  · simp [hrefused] at haccepted
  · exact absurd hjoins hfails

/-- What the first loop leaves to the second one. -/
theorem runInv_created : env.RunInv n 0 { clients := List.replicate n {} } where
  length := List.length_replicate
  parts := rfl
  sink := rfl
  started j hj := absurd hj (Nat.not_lt_zero j)
  untouched j _ := by
    simp [Work.threads, List.getD_eq_getElem?_getD, List.getElem?_replicate]
    split <;> rfl

/-- What the second loop leaves to the third one. -/
theorem RunInv.waits {w : Work} (h : env.RunInv n n w) : env.WaitInv n 0 w where
  length := h.length
  parts := h.parts
  sink := h.sink
  joined j hj := absurd hj (Nat.not_lt_zero j)
  started j _ hj := (h.started j hj).2

/-- What the third loop leaves to the last one. -/
theorem WaitInv.sends {w : Work} (h : env.WaitInv n n w) : env.SendInv 0 w where
  joined := by
    rw [Work.running_iff, h.length]
    rintro ⟨k, hk, hrunning⟩
    rw [(h.joined k hk).2.2] at hrunning
    exact absurd hrunning (by decide)
  parts := h.parts
  sink := h.sink
  sends j hj := absurd hj (Nat.not_lt_zero j)

/-- **What `doTheWork` does.** It ends normally with every result sent, or early with a part of the
results sent; then either its threads or a null pointer keep the process from returning, or the
exception is one that is swallowed. -/
theorem doTheWork_spec (instances : Int) :
    Leads (fun w => w = {}) (env.doTheWork instances)
      (fun w => env.NoIdleException instances.toNat ∧ ¬ w.Running ∧
        w.sink = env.results instances.toNat)
      (fun e w => ∃ m ≤ instances.toNat, w.sink = env.results m ∧
        ((e = .nullPointer ∨ w.Running) ∧ env.NoIdleException instances.toNat ∨
          e = .exception ∧ ¬ w.Running ∧ ¬ env.NoIdleException instances.toNat ∧
            m < instances.toNat)) := by
  let n := instances.toNat
  unfold doTheWork
  refine .seq ((env.create_loop n).mono (fun _ h => h) (fun _ h => h) ?_) (.of_state ?_)
  · rintro e w ⟨he, ⟨k, hk, hthrows⟩, hidle, hsink⟩
    have hno := env.not_noIdle_of_create ⟨k, hk, hthrows⟩
    exact ⟨0, Nat.zero_le _, hsink, .inr ⟨he, hidle, hno, by omega⟩⟩
  rintro w₁ ⟨hcreate, rfl⟩
  refine .seq ((env.run_loop n).mono ?_ (fun _ h => h) ?_) (.of_state fun w₂ h₂ => ?_)
  · rintro w rfl
    exact env.runInv_created
  · rintro e w ⟨he, hsink, k, hk, hearlier, hfails, hfault⟩
    have hiff := env.running_iff_of_run hcreate hk hearlier hfails hfault
    refine ⟨0, Nat.zero_le _, hsink, ?_⟩
    by_cases hrunning : w.Running
    · exact .inl ⟨.inr hrunning, hiff.mp hrunning⟩
    · exact .inr ⟨he, hrunning, fun h => hrunning (hiff.mpr h),
        Nat.lt_of_le_of_lt (Nat.zero_le k) hk⟩
  have hruns : ∀ k < n, env.Runs k := fun k hk => (h₂.started k hk).1
  refine .seq ((env.wait_loop n).mono ?_ (fun _ h => h) ?_) (.of_state fun w₃ h₃ => ?_)
  · rintro w rfl
    exact h₂.waits
  · rintro e w ⟨hsink, k, hk, ⟨he, hrefused⟩ | ⟨he, hfails, hrunning⟩⟩
    · exact ⟨0, Nat.zero_le _, hsink,
        .inl ⟨.inl he, env.noIdle_of_wait hcreate hruns hk (.inl hrefused)⟩⟩
    · exact ⟨0, Nat.zero_le _, hsink,
        .inl ⟨.inr hrunning, env.noIdle_of_wait hcreate hruns hk (.inr hfails)⟩⟩
  have hjoined : ∀ k < n, env.Runs k ∧ env.refused k = false ∧ env.Joins k := fun k hk =>
    ⟨hruns k hk, (h₃.joined k hk).1, (h₃.joined k hk).2.1⟩
  refine (env.send_loop n).mono ?_ ?_ ?_
  · rintro w rfl
    exact h₃.sends
  · rintro w h
    exact ⟨⟨hcreate, fun k hk _ => (hruns k hk).1, fun _ => h.sends⟩, h.joined, h.sink⟩
  · rintro e w ⟨he, hidle, k, hk, hfails, hsink⟩
    refine ⟨k, Nat.le_of_lt hk, hsink, .inr ⟨he, hidle, fun h => ?_, hk⟩⟩
    exact hfails (h.send hjoined k hk)

/-- **Without exceptions** `doTheWork` sends every result if every client has been given its
connection, and crashes with nothing sent if one has not. -/
theorem doTheWork_quiet (hquiet : ∀ site k, env.throws site k = false) (instances : Int) :
    Leads (fun w => w = {}) (env.doTheWork instances)
      (fun w => (∀ k < instances.toNat, env.refused k = false) ∧
        w.sink = env.results instances.toNat)
      (fun e w => e = .nullPointer ∧ (∃ k < instances.toNat, env.refused k = true) ∧
        w.sink = []) := by
  let n := instances.toNat
  have hidle (k : Nat) : ¬ env.ThrowsIdle k := by simp [ThrowsIdle, hquiet]
  have hruns (k : Nat) : env.Runs k := ⟨hidle k, fun _ => hquiet _ _⟩
  have hjoins (k : Nat) : env.Joins k := ⟨hquiet _ _, hquiet _ _⟩
  have hsends (k : Nat) : env.Sends k := ⟨hquiet _ _, hquiet _ _, hquiet _ _⟩
  unfold doTheWork
  refine .seq ((env.create_loop n).mono (fun _ h => h) (fun _ h => h) ?_) (.of_state ?_)
  · rintro e w ⟨-, ⟨k, -, hthrows⟩, -⟩
    simp [hquiet] at hthrows
  rintro w₁ ⟨-, rfl⟩
  refine .seq ((env.run_loop n).mono ?_ (fun _ h => h) ?_) (.of_state fun w₂ h₂ => ?_)
  · rintro w rfl
    exact env.runInv_created
  · rintro e w ⟨-, -, k, -, -, hfails, -⟩
    exact absurd (hruns k) hfails
  refine .seq ((env.wait_loop n).mono ?_ (fun _ h => h) ?_) (.of_state fun w₃ h₃ => ?_)
  · rintro w rfl
    exact h₂.waits
  · rintro e w ⟨hsink, k, hk, ⟨he, hrefused⟩ | ⟨-, hfails, -⟩⟩
    · exact ⟨he, ⟨k, hk, hrefused⟩, hsink⟩
    · exact absurd (hjoins k) hfails
  refine (env.send_loop n).mono ?_ ?_ ?_
  · rintro w rfl
    exact h₃.sends
  · exact fun w h => ⟨fun k hk => (h₃.joined k hk).1, h.sink⟩
  · rintro e w ⟨-, -, k, -, hfails, -⟩
    exact absurd (hsends k) hfails

/-! ## The exit status -/

/-- There are as many results as clients reported. -/
theorem length_results (m : Nat) : (env.results m).length = m := by
  rw [results, List.length_map, List.length_range]

/-- What the parent of the process is told, and what has been handed to the sink. -/
theorem exit_spec (instances : Int) :
    ∃ m ≤ instances.toNat, (env.ending instances).2.sink = env.results m ∧
      (env.exit instances = .returned ∧ (env.NoIdleException instances.toNat ↔
          m = instances.toNat) ∨
        env.exit instances ≠ .returned ∧ env.NoIdleException instances.toNat) := by
  rcases (env.doTheWork_spec instances).ending rfl with
    ⟨w, hrun, hno, hidle, hsink⟩ | ⟨e, w, hrun, m, hm, hsink, hend⟩
  · have hexit : env.exit instances = .returned := by
      rw [exit, ending, hrun]
      simp [Exit.ofEnding, hidle]
    exact ⟨_, Nat.le_refl _, by rw [ending, hrun]; exact hsink, .inl ⟨hexit, iff_of_true hno rfl⟩⟩
  · refine ⟨m, hm, by rw [ending, hrun]; exact hsink, ?_⟩
    rcases hend with ⟨hstops, hno⟩ | ⟨rfl, hidle, hno, hlt⟩
    · refine .inr ⟨?_, hno⟩
      rw [exit, ending, hrun]
      cases e with
      | nullPointer => exact Exit.noConfusion
      | exception =>
          have hrunning : w.Running := hstops.resolve_left Fault.noConfusion
          simp [Exit.ofEnding, hrunning]
    · refine .inl ⟨?_, iff_of_false hno (Nat.ne_of_lt hlt)⟩
      rw [exit, ending, hrun]
      simp [Exit.ofEnding, hidle]

/-- Only a process that returns has the status 0. -/
theorem status_eq_zero (core : Bool) (e : Exit) : e.status core = 0 ↔ e = .returned := by
  cases e <;> cases core <;> decide

/-- The controller counts a process as finished when its status is 0. -/
theorem clientsFinished_absorb (core : Bool) (e : Exit) (c : Counters) :
    (c.absorb (.finished "" (toString (e.status core)))).clientsFinished = c.clientsFinished + 1 ↔
      e = .returned := by
  have hzero : toString (e.status core) = "0" ↔ e = .returned := by
    cases e <;> cases core <;> decide
  rw [← hzero, Counters.absorb, Counters.addExit]
  split <;> simp_all

/-- A process that exits with status 0, and is counted as finished by the controller, has handed
over exactly one complete `Result` for each of its clients. -/
def SuccessMeansResults (instances : Int) (core : Bool) : Prop :=
  ((env.exit instances).status core = 0 →
      (env.ending instances).2.sink = env.results instances.toNat) ∧
    ∀ c : Counters,
      (c.absorb (.finished "" (toString ((env.exit instances).status core)))).clientsFinished =
          c.clientsFinished + 1 →
        (env.ending instances).2.sink = env.results instances.toNat

/-- **When a process that reports success has reported its results.** -/
theorem success_means_results_iff (instances : Int) (core : Bool) :
    env.SuccessMeansResults instances core ↔ env.NoIdleException instances.toNat := by
  obtain ⟨m, hm, hsink, hend⟩ := env.exit_spec instances
  have hall : (env.ending instances).2.sink = env.results instances.toNat ↔
      m = instances.toNat := by
    rw [hsink]
    constructor
    · intro h
      rw [← env.length_results m, h, length_results]
    · rintro rfl
      rfl
  unfold SuccessMeansResults
  simp only [clientsFinished_absorb, status_eq_zero, hall]
  rcases hend with ⟨hexit, hiff⟩ | ⟨hexit, hno⟩
  · rw [hiff]
    exact ⟨fun h => h.1 hexit, fun h => ⟨fun _ => h, fun _ _ => h⟩⟩
  · exact iff_of_true ⟨fun h => absurd h hexit, fun _ h => absurd h hexit⟩ hno

/-- The constructor of the only client throws: there is no file descriptor left for its event
loop. -/
def exhausted : Surroundings where
  throws site _ := site = .create
  refused _ := false
  stats _ := ""

/-- The process returns 0, is counted as finished, and has reported nothing. -/
theorem success_without_results :
    (exhausted.exit 1).status false = 0 ∧
      (({} : Counters).absorb
        (.finished "" (toString ((exhausted.exit 1).status false)))).clientsFinished = 1 ∧
      (exhausted.ending 1).2.sink = [] ∧ ¬ exhausted.SuccessMeansResults 1 false := by
  have hsink : (exhausted.ending 1).2.sink = [] := by decide
  refine ⟨by decide, by decide, hsink, fun h => ?_⟩
  have hresults := h.1 (by decide)
  rw [hsink] at hresults
  exact absurd hresults (by decide)

end Surroundings

/-! ## The process among the other parties -/

namespace Process

/-- A process at work hands over results one after the other. -/
theorem act_results {p : Process} {instances : Int} (hloc : p.loc = .working instances 0)
    (stats : Nat → String) {m : Nat} (hm : m ≤ instances.toNat) :
    ((List.range m).map fun k => Act.result (stats k)).foldlM act p =
      some { p with
        loc := .working instances m
        sink := p.sink ++ (List.range m).map fun k => .result (stats k)
        pushed := p.pushed + m } := by
  induction m with
  | zero => simp [← hloc]
  | succ m ih =>
      have hlt : (m : Int) < instances := by omega
      rw [List.range_succ, List.map_append, List.foldlM_append, ih (by omega)]
      simp [act, hlt, Nat.add_assoc]

/-- **`doTheWork` is a run of the process.** The process of the joint system hands over the results
that `doTheWork` has sent, and exits with the status its parent is told. -/
theorem act_doTheWork (env : Surroundings) (core : Bool) {p : Process} {instances : Int}
    (hloc : p.loc = .working instances 0) :
    ∃ m, (env.ending instances).2.sink = env.results m ∧
      ∃ last ∈ [Act.exit, .die ((env.exit instances).status core)],
        (((List.range m).map fun k => Act.result (env.stats k)) ++ [last]).foldlM act p =
          some { p with
            loc := .exited ((env.exit instances).status core)
            sink := p.sink ++ (List.range m).map fun k => .result (env.stats k)
            pushed := p.pushed + m } := by
  obtain ⟨m, hm, hsink, hend⟩ := env.exit_spec instances
  refine ⟨m, hsink, ?_⟩
  by_cases hreturned : env.exit instances = .returned ∧ m = instances.toNat
  · obtain ⟨hexit, rfl⟩ := hreturned
    refine ⟨.exit, List.mem_cons_self, ?_⟩
    rw [List.foldlM_append, act_results hloc env.stats hm, hexit]
    simp [act, Exit.status]
  · refine ⟨.die ((env.exit instances).status core), by simp, ?_⟩
    rw [List.foldlM_append, act_results hloc env.stats hm]
    rfl

end Process

end WsPerftester
