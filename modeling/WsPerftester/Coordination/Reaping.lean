import WsPerftester.Lib.TextStream
import WsPerftester.Coordination.Parties

/-! # The statuses the reaping loop reports

The loop of `listener.cpp` that waits for the children sends one `Finished` for every result of
`waitpid` but 0, and prints the variable `status` into it. `waitpid` writes that variable when it
returns a child, and leaves it alone when it returns an error: an error is reported with whatever
the variable holds, a clean exit included. -/

namespace WsPerftester

/-- What `waitpid(0, &status, WNOHANG)` returns, with the status where it writes one. -/
inductive Waited
  | running
  | error
  | child (pid : Nat) (status : Int)
  deriving DecidableEq, Repr

namespace Waited

/-- The result together with the variable, which held `held` before the call. -/
def result (held : Int) : Waited → WaitResult
  | running => .running
  | error => .error held
  | child pid status => .child pid status

/-- The status the loop prints, if it reports the result. -/
def printed (held : Int) : Waited → Option Int
  | running => none
  | error => some held
  | child _ status => some status

/-- A child that has exited with status 0. -/
def isClean : Waited → Bool
  | child _ status => status == 0
  | _ => false

end Waited

/-- Only the number 0 is printed as `"0"`. -/
theorem isCleanExit_finished (status : Int) :
    (Message.finished "" (toString status)).isCleanExit = (status == 0) := by
  rw [Bool.eq_iff_iff, Message.isCleanExit, beq_iff_eq, beq_iff_eq]
  exact ⟨fun h => TextStream.toString_inj (w := 0) h, fun h => by rw [h]; rfl⟩

namespace Listener

/-! ## The loop -/

/-- The listener when all children are started: `unfinished = processes`. -/
def startReaping (l : Listener) (processes : Int) : Listener := { l with loc := .reaping processes }

/-- The listener after `n` passes of the loop, if it makes as many. Before pass `i` the variable
`status`, which is declared inside the loop, holds `held i`. -/
def reaped (l : Listener) (held : Nat → Int) (waited : Nat → Waited) : Nat → Option Listener
  | 0 => some l
  | n + 1 => (l.reaped held waited n).bind fun l => l.act (.reap ((waited n).result (held n)))

/-- The `Finished` messages with status `"0"` among those pushed. -/
def cleanReports (l : Listener) : Nat := l.sink.countP (·.isCleanExit)

section Sequence

variable (held : Nat → Int) (waited : Nat → Waited)

/-- How many of the first `n` results take one off `unfinished`. -/
def ended (n : Nat) : Nat := (List.range n).countP fun i => waited i != .running

/-- How many of the first `n` results are children with status 0. -/
def cleanChildren (n : Nat) : Nat := (List.range n).countP fun i => (waited i).isClean

/-- The messages the first `n` results are reported with. -/
def reports (n : Nat) : List Message :=
  (List.range n).filterMap fun i =>
    ((waited i).printed (held i)).map fun status => .finished "" (toString status)

@[simp] theorem ended_zero : ended waited 0 = 0 := rfl

@[simp] theorem cleanChildren_zero : cleanChildren waited 0 = 0 := rfl

@[simp] theorem reports_zero : reports held waited 0 = [] := rfl

theorem ended_succ (n : Nat) :
    ended waited (n + 1) = ended waited n + if waited n = .running then 0 else 1 := by
  rw [ended, List.range_succ, List.countP_append, List.countP_singleton, ← ended]
  by_cases h : waited n = .running <;> simp [h]

theorem cleanChildren_succ (n : Nat) :
    cleanChildren waited (n + 1) =
      cleanChildren waited n + if (waited n).isClean then 1 else 0 := by
  rw [cleanChildren, List.range_succ, List.countP_append, List.countP_singleton, ← cleanChildren]

theorem reports_succ (n : Nat) :
    reports held waited (n + 1) = reports held waited n ++
      (((waited n).printed (held n)).map fun status => .finished "" (toString status)).toList := by
  rw [reports, List.range_succ, List.filterMap_append, ← reports]
  cases h : (waited n).printed (held n) <;> simp [h]

/-- Results are not taken back. -/
theorem ended_mono {m n : Nat} (h : m ≤ n) : ended waited m ≤ ended waited n := by
  induction h with
  | refl => exact Nat.le_refl _
  | step _ ih => exact Nat.le_trans ih (by rw [Nat.succ_eq_add_one, ended_succ]; omega)

end Sequence

/-- One pass takes one off `unfinished` and sends one message, unless no child has changed. -/
theorem act_reap {l l' : Listener} {unfinished held : Int} {w : Waited}
    (hloc : l.loc = .reaping unfinished) (h : l.act (.reap (w.result held)) = some l') :
    0 < unfinished ∧ l'.loc = .reaping (unfinished - if w = .running then 0 else 1) ∧
      l'.sink = l.sink ++
        ((w.printed held).map fun status => Message.finished "" (toString status)).toList := by
  simp only [act, hloc, Option.ite_none_right_eq_some] at h
  obtain ⟨hpos, h⟩ := h
  refine ⟨hpos, ?_⟩
  cases w with
  | running => cases h; simp [hloc, Waited.printed]
  | error => cases h; simp [Waited.printed]
  | child pid status => cases h; simp [Waited.printed]

/-- A pass can be made as long as a child is unfinished. -/
theorem isSome_act_reap {l : Listener} {unfinished : Int} (hloc : l.loc = .reaping unfinished)
    (hpos : 0 < unfinished) (r : WaitResult) : (l.act (.reap r)).isSome = true := by
  cases r <;> simp [act, hloc, hpos]

section Loop

variable {l l' : Listener} {processes : Int} {held : Nat → Int} {waited : Nat → Waited} {n : Nat}

/-- **What the loop has done after `n` passes.** -/
theorem reaped_eq (h : (l.startReaping processes).reaped held waited n = some l') :
    l'.loc = .reaping (processes - ended waited n) ∧ l'.sink = l.sink ++ reports held waited n := by
  induction n generalizing l' with
  | zero => cases h; simp [startReaping]
  | succ n ih =>
      obtain ⟨t, ht, hpass⟩ := Option.bind_eq_some_iff.mp h
      obtain ⟨hloc, hsink⟩ := ih ht
      obtain ⟨-, hloc', hsink'⟩ := act_reap hloc hpass
      rw [hloc', hsink', hsink, reports_succ, List.append_assoc, ended_succ]
      refine ⟨?_, rfl⟩
      congr 1
      split <;> omega

/-- The loop makes one more pass as long as a child is unfinished. -/
theorem exists_reaped (h : (ended waited n : Int) < processes) :
    ∃ l', (l.startReaping processes).reaped held waited (n + 1) = some l' := by
  have hstep {m : Nat} {t : Listener} (hm : (ended waited m : Int) < processes)
      (ht : (l.startReaping processes).reaped held waited m = some t) :
      ∃ l', (l.startReaping processes).reaped held waited (m + 1) = some l' := by
    rw [reaped, ht]
    exact Option.isSome_iff_exists.mp (isSome_act_reap (reaped_eq ht).1 (by omega) _)
  induction n with
  | zero => exact hstep h rfl
  | succ n ih =>
      have hmono : ended waited n ≤ ended waited (n + 1) := ended_mono _ (Nat.le_succ n)
      obtain ⟨t, ht⟩ := ih (by omega)
      exact hstep h ht

/-- A pass that has been made found an unfinished child. -/
theorem ended_lt_of_reaped (h : (l.startReaping processes).reaped held waited (n + 1) = some l') :
    (ended waited n : Int) < processes := by
  obtain ⟨t, ht, hpass⟩ := Option.bind_eq_some_iff.mp h
  obtain ⟨hpos, -, -⟩ := act_reap (reaped_eq ht).1 hpass
  omega

/-- A pass reports a clean exit exactly if it prints 0. -/
theorem cleanReports_succ (h : (l.startReaping processes).reaped held waited n = some l')
    {l'' : Listener} (h' : (l.startReaping processes).reaped held waited (n + 1) = some l'') :
    l''.cleanReports =
      l'.cleanReports + if (waited n).printed (held n) = some 0 then 1 else 0 := by
  rw [cleanReports, cleanReports, (reaped_eq h).2, (reaped_eq h').2, reports_succ,
    ← List.append_assoc, List.countP_append]
  cases hprinted : (waited n).printed (held n) with
  | none => simp
  | some status =>
      rw [Option.map_some, Option.toList_some, List.countP_singleton, isCleanExit_finished]
      simp

end Loop

/-! ## Statuses that are true -/

/-- The statuses reported are true at every point of the loop, whatever the variable holds: no more
exits are reported as clean than children have returned 0, and no error is. -/
def ReportsTrue (l : Listener) (processes : Int) (waited : Nat → Waited) : Prop :=
  ∀ held n l', (l.startReaping processes).reaped held waited n = some l' →
    l'.cleanReports ≤ l.cleanReports + cleanChildren waited n ∧
    ∀ l'', (l.startReaping processes).reaped held waited (n + 1) = some l'' →
      waited n = .error → l''.cleanReports = l'.cleanReports

/-- Without an error so far, the clean exits reported are the children that returned 0. -/
theorem cleanReports_eq {l l' : Listener} {processes : Int} {held : Nat → Int}
    {waited : Nat → Waited} {n : Nat}
    (herror : ∀ m, (ended waited m : Int) < processes → waited m ≠ .error)
    (h : (l.startReaping processes).reaped held waited n = some l') :
    l'.cleanReports = l.cleanReports + cleanChildren waited n := by
  induction n generalizing l' with
  | zero => cases h; rfl
  | succ n ih =>
      obtain ⟨t, ht, -⟩ := Option.bind_eq_some_iff.mp h
      have hnext := herror n (ended_lt_of_reaped h)
      rw [cleanReports_succ ht h, ih ht, cleanChildren_succ, Nat.add_assoc]
      cases hw : waited n with
      | running => rfl
      | error => exact absurd hw hnext
      | child pid status => simp [Waited.printed, Waited.isClean]

/-- **When the statuses reported are true.** No result the loop asks for is an error. -/
theorem reports_true_iff (l : Listener) (processes : Int) (waited : Nat → Waited) :
    l.ReportsTrue processes waited ↔
      ∀ n, (ended waited n : Int) < processes → waited n ≠ .error := by
  constructor
  · intro htrue n hunfinished herror
    -- the variable may hold 0
    obtain ⟨l'', h'⟩ := @exists_reaped l processes (fun _ => 0) waited n hunfinished
    obtain ⟨l', h, -⟩ := Option.bind_eq_some_iff.mp h'
    have hsame := (htrue _ n l' h).2 l'' h' herror
    rw [cleanReports_succ h h', herror, Waited.printed, if_pos rfl] at hsame
    omega
  · intro herror held n l' h
    refine ⟨Nat.le_of_eq (cleanReports_eq herror h), fun l'' h' hn => ?_⟩
    exact absurd hn (herror n (ended_lt_of_reaped h'))

/-- One child, and an error while the variable holds 0: the controller counts a client as finished
of which `waitpid` has returned no status. -/
theorem vanished_child_reported_clean :
    ¬ ({} : Listener).ReportsTrue 1 (fun _ => .error) ∧
    ∃ l', (({} : Listener).startReaping 1).reaped (fun _ => 0) (fun _ => .error) 1 = some l' ∧
      (l'.sink.foldl Counters.absorb {}).clientsFinished = 1 ∧
      cleanChildren (fun _ => .error) 1 = 0 := by
  refine ⟨fun htrue => ?_, _, rfl, rfl, rfl⟩
  have hsame := (htrue (fun _ => 0) 0 _ rfl).2 _ rfl rfl
  exact Nat.one_ne_zero hsame

end Listener

end WsPerftester
