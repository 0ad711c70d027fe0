import WsPerftester.Client.Links
import WsPerftester.Reports.SetupLatency

/-! # The setup time of a client

`on_open` measures from `m_con_start` to the time at which it runs. The `run` of `base_client` takes
the start time just before it connects. `mobile_signaling_client` has a `run` of its own, which does
not, and two connections whose open handlers both end in `on_open`: its setup time is the age of the
clock when the last of them opened (`mSetupTime_of_mobile`). -/

namespace WsPerftester

/-- `m_con_start`, and whether it has been assigned since the client was constructed. A time point
is constructed as the epoch of its clock. -/
structure ConStart where
  value : Int := 0
  assigned : Bool := false
  deriving DecidableEq, Repr

/-- `run` at time `now`, up to the call of `connect`. -/
def ConStart.run (kind : Client.Kind) (now : Int) (c : ConStart) : ConStart :=
  match kind with
  | .base => { value := now, assigned := true }
  -- `connect_primary` does not touch it
  | .mobile => c

namespace Links

/-- When an event opens a connection, so that `on_open` runs. -/
def Act.openedAt : Act → Option Int
  | .opens _ now _ => some now
  | _ => none

/-- When `on_open` first ran. -/
def firstOpened (run : List Act) : Option Int := run.findSome? Act.openedAt

/-- When `on_open` last ran. -/
def lastOpened (run : List Act) : Option Int := run.reverse.findSome? Act.openedAt

/-- A client that has been constructed, and run at time `started`. -/
def launch (kind : Client.Kind) (total started : Int) : TransitionSystem Links Act :=
  system kind total (ConStart.run kind started {}).value

section Runs

variable {kind : Client.Kind} {total conStart : Int} {run : List Act} {s s' : Links} {a : Act}

/-- Only the open handlers touch the setup time. -/
theorem setup_moves (hmove : Moves kind total s a s') :
    s'.client.mConStart = s.client.mConStart ∧
      s'.client.mSetupTime =
        (a.openedAt.map fun now => microseconds (now - s.client.mConStart)).or
          s.client.mSetupTime ∧
      s'.client.mOpen = (a.openedAt.isSome || s.client.mOpen) := by
  cases hmove with
  | @thread b c hb hstep =>
      have hmoves := Client.moves_of_step hstep
      have hnow (now : Int) : b ≠ .onOpen now := by rintro rfl; cases hb
      obtain ⟨hstart, hsetup⟩ := Client.mSetupTime_moves hmoves
      have hassigns : b.assigns s.client.mConStart = none := by
        cases b with
        | onOpen now => exact absurd rfl (hnow now)
        | proceed | send | close | onClose | onFail | onMessage | discard => rfl
      rw [hassigns] at hsetup
      exact ⟨hstart, hsetup, Client.mOpen_moves hmoves hnow⟩
  | opens => rw [client_runOpen, client_setLink]; exact ⟨rfl, rfl, rfl⟩
  | beginsClose | closes | fails | releases => rw [client_setLink]; exact ⟨rfl, rfl, rfl⟩
  | closeHandled => cases kind <;> exact ⟨rfl, rfl, rfl⟩
  | @failHandled which =>
      rcases client_runFail kind (s.setLink { s.link which with handled := true } which) with
        hsame | ⟨primaryGone, hfail⟩
      · rw [hsame, client_setLink]
        exact ⟨rfl, rfl, rfl⟩
      · rw [hfail, client_setLink]
        cases kind <;> cases primaryGone <;> exact ⟨rfl, rfl, rfl⟩

theorem lastOpened_concat (run : List Act) (a : Act) :
    lastOpened (run ++ [a]) = a.openedAt.or (lastOpened run) := by
  rw [lastOpened, List.reverse_concat, List.findSome?_cons, lastOpened]
  cases a.openedAt <;> rfl

/-- The setup time is that of the last opening. -/
theorem setup_of_exec
    (hrun : (system kind total conStart).exec (system kind total conStart).init run = some s) :
    s.client.mConStart = conStart ∧
      s.client.mSetupTime = (lastOpened run).map (fun now => microseconds (now - conStart)) ∧
      s.client.mOpen = (lastOpened run).isSome := by
  refine TransitionSystem.exec_induction (P := fun run s => s.client.mConStart = conStart ∧
    s.client.mSetupTime = (lastOpened run).map (fun now => microseconds (now - conStart)) ∧
    s.client.mOpen = (lastOpened run).isSome) ⟨rfl, rfl, rfl⟩ ?_ hrun
  rintro run s a s' - ⟨hstart, hsetup, hopen⟩ hstep
  obtain ⟨hstart', hsetup', hopen'⟩ := setup_moves (moves_of_step hstep).2
  rw [hstart', hsetup', hopen', hsetup, hopen, hstart, lastOpened_concat]
  cases a.openedAt <;> exact ⟨rfl, rfl, rfl⟩

theorem firstOpened_append (run after : List Act) :
    firstOpened (run ++ after) = (firstOpened run).or (firstOpened after) :=
  List.findSome?_append

/-- What has been opened first has been opened. -/
theorem isSome_firstOpened (run : List Act) :
    (firstOpened run).isSome = (lastOpened run).isSome := by
  rw [Bool.eq_iff_iff, firstOpened, lastOpened, List.findSome?_isSome_iff,
    List.findSome?_isSome_iff]
  simp only [List.mem_reverse]

/-! ## One connection opens once -/

/-- A base client opens nothing but its primary connection, and that one only once. -/
structure OpensOnce (run : List Act) (s : Links) : Prop where
  connecting : s.primary.phase = .connecting → firstOpened run = none
  absent : s.signaling.phase = .absent
  same : lastOpened run = firstOpened run

/-- A step that opens nothing. -/
theorem OpensOnce.of_eq (h : OpensOnce run s) (ha : a.openedAt = none)
    (hprimary : s'.primary.phase = .connecting → s.primary.phase = .connecting)
    (habsent : s'.signaling.phase = s.signaling.phase) : OpensOnce (run ++ [a]) s' := by
  have hfirst : firstOpened (run ++ [a]) = firstOpened run := by
    rw [firstOpened_append, firstOpened, firstOpened, List.findSome?_singleton, ha, Option.or_none]
  have hlast : lastOpened (run ++ [a]) = lastOpened run := by
    rw [lastOpened_concat, ha, Option.none_or]
  exact ⟨fun hp => by rw [hfirst, h.connecting (hprimary hp)], habsent.trans h.absent,
    by rw [hlast, hfirst, h.same]⟩

/-- Every step of a base client keeps this. -/
theorem OpensOnce.moves (h : OpensOnce run s) (hmove : Moves .base total s a s') :
    OpensOnce (run ++ [a]) s' := by
  have habsent := h.absent
  cases hmove with
  | thread => exact h.of_eq rfl id rfl
  | @opens which now _ hphase =>
      cases which with
      | signaling =>
          rw [show s.signaling.phase = .connecting from hphase] at habsent
          cases habsent
      | primary =>
          have hfirst := h.connecting hphase
          have hlast : lastOpened run = none := by rw [h.same, hfirst]
          refine ⟨fun hp => ?_, habsent, ?_⟩
          · cases hp
          · rw [lastOpened_concat, firstOpened_append, hfirst, hlast]
            rfl
  | @beginsClose which | @closes which | @fails which =>
      cases which with
      | primary => exact h.of_eq rfl (fun hp => by cases hp) rfl
      | signaling => simp [link, habsent] at *
  | @closeHandled which | @failHandled which | @releases which =>
      cases which with
      | primary => exact h.of_eq rfl id rfl
      | signaling => exact h.of_eq rfl id rfl

/-- In a run of a base client the first opening is the last one. -/
theorem opensOnce_of_exec
    (hrun : (system .base total conStart).exec (system .base total conStart).init run = some s) :
    OpensOnce run s := by
  refine TransitionSystem.exec_induction (P := OpensOnce) ⟨fun _ => rfl, rfl, rfl⟩ ?_ hrun
  exact fun run s a s' _ ih hstep => ih.moves (moves_of_step hstep).2

/-- The setup time of a mobile client is what the clock shows when `on_open` last runs. -/
theorem mSetupTime_of_mobile {started : Int} (hrun : (launch .mobile total started).exec
    (launch .mobile total started).init run = some s) :
    s.client.mSetupTime = (lastOpened run).map microseconds := by
  rw [(setup_of_exec hrun).2.1]
  simp [ConStart.run]

end Runs

/-! ## What the setup time measures -/

variable {F : Type}

/-- The setup time of a client that was run at time `started` and has been opened: the start was
taken in that run, what `get_stats` prints is the time from the start to the first `on_open`, and
nothing that happens later changes it. -/
structure MeasuresSetup (dbl : Doubles F) (unassigned : F) (kind : Client.Kind)
    (total started : Int) (run : List Act) (s : Links) : Prop where
  assigned : (ConStart.run kind started {}).assigned = true
  printed : ∃ opened, firstOpened run = some opened ∧
    s.client.getStats dbl unassigned =
      statsText dbl s.client.verdict s.client.mStats
        (dbl.millis (microseconds (opened - started))) ∧
    s.client.mSetupTime = some (microseconds (opened - started))
  kept : ∀ after s', (launch kind total started).exec s after = some s' →
    s'.client.mSetupTime = s.client.mSetupTime

/-- **When the setup time measures the set-up.** The client is a base client. -/
theorem measures_setup_iff (dbl : Doubles F) (unassigned : F) (kind : Client.Kind)
    (total started : Int) {run : List Act} {s : Links}
    (hrun : (launch kind total started).exec (launch kind total started).init run = some s)
    (hopen : s.client.mOpen = true) :
    MeasuresSetup dbl unassigned kind total started run s ↔ kind = .base := by
  constructor
  · intro hmeasures
    cases kind with
    | base => rfl
    | mobile => exact absurd hmeasures.assigned Bool.false_ne_true
  · rintro rfl
    -- from the start to the first opening, at the end of every continuation of the run
    have hsetup {after : List Act} {t : Links}
        (h : (launch .base total started).exec s after = some t) :
        t.client.mSetupTime = ((firstOpened run).or (firstOpened after)).map
          fun now => microseconds (now - started) := by
      have hwhole : (launch .base total started).exec (launch .base total started).init
          (run ++ after) = some t := by
        rw [TransitionSystem.exec_append, hrun]
        exact h
      rw [(setup_of_exec hwhole).2.1, (opensOnce_of_exec hwhole).same, firstOpened_append]
      rfl
    obtain ⟨-, -, hlast⟩ := setup_of_exec hrun
    rw [hopen, ← isSome_firstOpened] at hlast
    obtain ⟨opened, hfirst⟩ := Option.isSome_iff_exists.mp hlast.symm
    have hnow : s.client.mSetupTime = some (microseconds (opened - started)) := by
      rw [@hsetup [] s rfl, hfirst]
      rfl
    refine ⟨rfl, ⟨opened, hfirst, ?_, hnow⟩, fun after s' hafter => ?_⟩
    · rw [Client.getStats, hnow]
      rfl
    · rw [hsetup hafter, hnow, hfirst]
      rfl

/-- Both connections of a mobile client open, one and four seconds after it was run. -/
def bothOpenedRun : List Act :=
  [.opens .primary 1380000001000000000 false, .opens .signaling 1380000004000000000 false]

/-- The setup time is that of the second connection, since the epoch of the clock. -/
theorem mobile_setup_time :
    ∃ s : Links, (launch .mobile 12 1380000000000000000).exec
        (launch .mobile 12 1380000000000000000).init bothOpenedRun = some s ∧
      s.client.mOpen = true ∧ s.client.mSetupTime = some 1380000004000000 ∧
      ¬ MeasuresSetup wholeMillis 0 .mobile 12 1380000000000000000 bothOpenedRun s := by
  obtain ⟨s, hrun, hend⟩ := (launch .mobile 12 1380000000000000000).exists_of_exec_any
    bothOpenedRun (fun s => s.client.mOpen = true ∧ s.client.mSetupTime = some 1380000004000000)
    (by decide)
  obtain ⟨hopen, hsetup⟩ := of_decide_eq_true hend
  refine ⟨s, hrun, hopen, hsetup, fun hmeasures => ?_⟩
  obtain ⟨opened, hfirst, -, hmeasured⟩ := hmeasures.printed
  obtain rfl : 1380000001000000000 = opened := Option.some.inj hfirst
  rw [hsetup] at hmeasured
  exact absurd hmeasured (by decide)

/-- `measures_setup_iff` for a base client that opens after three milliseconds. -/
theorem base_setup_time :
    ∃ s : Links, s.client.mSetupTime = some 3000 ∧
      MeasuresSetup wholeMillis 0 .base 12 1380000000000000000
        [.opens .primary 1380000000003000000 false] s := by
  obtain ⟨s, hrun, hend⟩ := (launch .base 12 1380000000000000000).exists_of_exec_any
    [.opens .primary 1380000000003000000 false]
    (fun s => s.client.mOpen = true ∧ s.client.mSetupTime = some 3000) (by decide)
  obtain ⟨hopen, hsetup⟩ := of_decide_eq_true hend
  exact ⟨s, hsetup, (measures_setup_iff wholeMillis 0 .base 12 _ hrun hopen).mpr rfl⟩

end Links

end WsPerftester
