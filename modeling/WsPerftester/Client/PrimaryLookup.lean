import WsPerftester.Client.Links

/-! # The look-up of the primary connection

The two connections of a mobile client share one fail handler. It looks up the primary connection
through its weak handle and asks it for its state, and only then tests the error code of the
look-up. So the handler is safe as long as the object of the primary connection is alive whenever
it runs (`finds_primary_iff`). -/

namespace WsPerftester

namespace Links

/-- `get_con_from_hdl(m_hdl_primary, ec)`: a null pointer, and an error, once the object has been
released. -/
def primaryCon (s : Links) : Option Link := if s.primary.released then none else some s.primary

/-- The fail handler of the mobile client in terms of its look-up. -/
theorem runFail_mobile (s : Links) :
    s.runFail .mobile = match s.primaryCon with
      | none => { s with crashed := true }
      | some con => { s with client := s.client.onFail .mobile (decide con.Gone) } := by
  rw [runFail, primaryCon]
  cases s.primary.released <;> rfl

/-- A fail handler runs. -/
def RunsOnFail (s : Links) (a : Act) : Prop :=
  ∃ which, a = .handles which ∧ (s.link which).phase = .failed

/-- A fail handler that runs finds the primary connection. -/
def FindsPrimary (s : Links) (a : Act) : Prop := s.RunsOnFail a → s.primaryCon.isSome = true

/-- The signaling connection cannot be established, and its fail handler runs after the object of
the primary connection has been released. -/
def FailsAfterRelease (run : List Act) : Prop :=
  ∃ before after, run = before ++ .handles .signaling :: after ∧
    .fails .signaling ∈ before ∧ .releases .primary ∈ before

/-- What one more event adds. -/
theorem failsAfterRelease_concat (run : List Act) (a : Act) :
    FailsAfterRelease (run ++ [a]) ↔ FailsAfterRelease run ∨
      a = .handles .signaling ∧ .fails .signaling ∈ run ∧ .releases .primary ∈ run := by
  constructor
  · rintro ⟨before, after, hrun, hfails, hreleases⟩
    rcases List.eq_nil_or_concat after with rfl | ⟨after, b, rfl⟩
    · -- the handler is the last event
      obtain ⟨rfl, ha⟩ := List.append_inj' hrun rfl
      exact .inr ⟨(List.cons.inj ha).1, hfails, hreleases⟩
    · rw [List.concat_eq_append, ← List.cons_append, ← List.append_assoc] at hrun
      exact .inl ⟨before, after, (List.append_inj' hrun rfl).1, hfails, hreleases⟩
  · rintro (⟨before, after, rfl, hfails, hreleases⟩ | ⟨rfl, hfails, hreleases⟩)
    · exact ⟨before, after ++ [a], by simp, hfails, hreleases⟩
    · exact ⟨run, [], rfl, hfails, hreleases⟩

/-! ## What the handler meets with -/

/-- What the state tells about the events so far. -/
structure History (run : List Act) (s : Links) : Prop where
  released : s.primary.released = true ↔ .releases .primary ∈ run
  handled : s.primary.released = true → s.primary.handled = true
  failed : s.signaling.phase = .failed ↔ .fails .signaling ∈ run
  /-- The primary connection opens once. -/
  started : s.signaling.phase ≠ .absent → s.primary.phase ≠ .connecting

@[simp] theorem primary_runOpen (kind : Client.Kind) (now : Int) (signalingError : Bool)
    (which : Which) (s : Links) :
    (s.runOpen kind now signalingError which).primary = s.primary := by
  cases kind <;> cases which <;> rfl

@[simp] theorem primary_runFail (kind : Client.Kind) (s : Links) :
    (s.runFail kind).primary = s.primary := by
  cases kind with
  | base => rfl
  | mobile => rw [runFail]; split <;> rfl

@[simp] theorem signaling_runFail (kind : Client.Kind) (s : Links) :
    (s.runFail kind).signaling = s.signaling := by
  cases kind with
  | base => rfl
  | mobile => rw [runFail]; split <;> rfl

/-- A step that is not about the end of a connection and leaves both connections as they are. -/
theorem History.of_eq {run : List Act} {s s' : Links} {a : Act} (h : History run s)
    (hreleases : a ≠ .releases .primary) (hfails : a ≠ .fails .signaling)
    (hreleased : s'.primary.released = s.primary.released)
    (hhandled : s.primary.handled = true → s'.primary.handled = true)
    (hphase : s'.signaling.phase = .failed ↔ s.signaling.phase = .failed)
    (hstarted : s'.signaling.phase ≠ .absent → s'.primary.phase ≠ .connecting) :
    History (run ++ [a]) s' where
  released := by
    rw [hreleased, h.released, List.mem_append, List.mem_singleton, or_iff_left hreleases.symm]
  handled hr := hhandled (h.handled (hreleased ▸ hr))
  failed := by
    rw [hphase, h.failed, List.mem_append, List.mem_singleton, or_iff_left hfails.symm]
  started := hstarted

/-- Every step keeps the history. -/
theorem History.moves {kind : Client.Kind} {total : Int} {run : List Act} {s s' : Links} {a : Act}
    (h : History run s) (hmove : Moves kind total s a s') : History (run ++ [a]) s' := by
  cases hmove with
  | thread => exact h.of_eq (by simp) (by simp) rfl id Iff.rfl h.started
  | @opens which _ signalingError hphase =>
      cases which with
      | primary =>
          -- until now there has been no signaling connection
          have habsent : s.signaling.phase = .absent := by
            by_contra hne
            exact h.started hne hphase
          refine h.of_eq (by simp) (by simp) (by simp [setLink, link]) (by simp [setLink, link])
            ?_ (by simp [setLink])
          cases kind <;> cases signalingError <;> simp [runOpen, setLink, habsent]
      | signaling =>
          have hphase : s.signaling.phase = .connecting := hphase
          refine h.of_eq (by simp) (by simp) (by simp [setLink]) (by simp [setLink]) ?_
            fun _ => by simpa [setLink] using h.started (by simp [hphase])
          cases kind <;> simp [runOpen, setLink, hphase]
  | @beginsClose which hphase =>
      cases which with
      | primary =>
          exact h.of_eq (by simp) (by simp) rfl id Iff.rfl (by simp [setLink])
      | signaling =>
          have hphase : s.signaling.phase = .opened := hphase
          exact h.of_eq (by simp) (by simp) rfl id (by simp [setLink, hphase])
            fun _ => h.started (by simp [hphase])
  | @closes which hphase =>
      cases which with
      | primary => exact h.of_eq (by simp) (by simp) rfl id Iff.rfl (by simp [setLink])
      | signaling =>
          have hphase : s.signaling.phase = .opened ∨ s.signaling.phase = .closing := hphase
          refine h.of_eq (by simp) (by simp) rfl id ?_ fun _ => h.started ?_
          · rcases hphase with hphase | hphase <;> simp [setLink, hphase]
          · rcases hphase with hphase | hphase <;> simp [hphase]
  | @fails which hphase =>
      cases which with
      | primary => exact h.of_eq (by simp) (by simp) rfl id Iff.rfl (by simp [setLink])
      | signaling =>
          have hphase : s.signaling.phase = .connecting := hphase
          exact {
            released := by simp [setLink, h.released]
            handled := h.handled
            failed := by simp [setLink]
            started := fun _ => h.started (by simp [hphase]) }
  | @closeHandled which =>
      cases which with
      | primary => exact h.of_eq (by simp) (by simp) rfl (fun _ => rfl) Iff.rfl h.started
      | signaling => exact h.of_eq (by simp) (by simp) rfl id Iff.rfl h.started
  | @failHandled which =>
      cases which with
      | primary =>
          exact h.of_eq (by simp) (by simp) (by simp [setLink, link]) (by simp [setLink])
            (by simp [setLink]) (by simpa [setLink, link] using h.started)
      | signaling =>
          exact h.of_eq (by simp) (by simp) (by simp [setLink]) (by simp [setLink])
            (by simp [setLink, link]) (by simpa [setLink, link] using h.started)
  | @releases which hhandled =>
      cases which with
      | primary =>
          exact {
            released := by simp [setLink]
            handled := fun _ => hhandled
            failed := by simp [setLink, h.failed]
            started := h.started }
      | signaling => exact h.of_eq (by simp) (by simp) rfl id Iff.rfl h.started

/-- The history of a run. -/
theorem history_of_exec {kind : Client.Kind} {total conStart : Int} {run : List Act} {s : Links}
    (hrun : (system kind total conStart).exec (system kind total conStart).init run = some s) :
    History run s := by
  refine TransitionSystem.exec_induction (P := History) ?_ ?_ hrun
  · exact ⟨by simp [system], by simp [system], by simp [system], by simp [system]⟩
  · exact fun run s a s' _ ih hstep => ih.moves (moves_of_step hstep).2

/-- What a fail handler that runs next meets with. -/
theorem findsPrimary_iff {kind : Client.Kind} {total conStart : Int} {run : List Act}
    {s s' : Links} {a : Act}
    (hrun : (system kind total conStart).exec (system kind total conStart).init run = some s)
    (hstep : step kind total s a = some s') :
    s.FindsPrimary a ↔
      ¬ (a = .handles .signaling ∧ .fails .signaling ∈ run ∧ .releases .primary ∈ run) := by
  have h := history_of_exec hrun
  have hlookup : s.primaryCon.isSome = true ↔ .releases .primary ∉ run := by
    rw [← h.released, primaryCon]
    cases s.primary.released <;> simp
  rw [FindsPrimary, hlookup, ← h.failed]
  constructor
  · rintro hfinds ⟨rfl, hfailed, hreleased⟩
    exact hfinds ⟨.signaling, rfl, hfailed⟩ hreleased
  · rintro hsafe ⟨which, rfl, hfailed⟩ hreleased
    cases which with
    | signaling => exact hsafe ⟨rfl, hfailed, hreleased⟩
    | primary =>
        -- its own handler runs before the object is released
        have hfirst : s.primary.handled = false := by
          have hmove : Moves kind total s (.handles .primary) s' := (moves_of_step hstep).2
          cases hmove with
          | closeHandled hfirst _ => exact hfirst
          | failHandled hfirst _ => exact hfirst
        rw [h.handled (h.released.mpr hreleased)] at hfirst
        cases hfirst

/-- **When the look-up is safe.** Every fail handler of a run finds the primary connection unless
the signaling connection fails behind the release of the primary one. -/
theorem finds_primary_iff (total conStart : Int) {run : List Act} {s : Links}
    (hrun :
      (system .mobile total conStart).exec (system .mobile total conStart).init run = some s) :
    (system .mobile total conStart).Along FindsPrimary (system .mobile total conStart).init run ↔
      ¬ FailsAfterRelease run := by
  refine TransitionSystem.exec_induction
    (P := fun run _ => (system .mobile total conStart).Along FindsPrimary
      (system .mobile total conStart).init run ↔ ¬ FailsAfterRelease run) ?_ ?_ hrun
  · simp [FailsAfterRelease]
  · intro run s a s' hexec ih hstep
    rw [TransitionSystem.along_concat _ hexec, ih, findsPrimary_iff hexec hstep,
      failsAfterRelease_concat, not_or]

/-- The primary connection opens, is closed and released, and the signaling one fails. -/
def lostPrimaryRun : List Act :=
  [.opens .primary 1000000 false, .closes .primary, .handles .primary, .releases .primary,
    .fails .signaling]

/-- On the failover the fail handler dereferences a null pointer. -/
theorem failover_crashes :
    (∃ s : Links, (system .mobile 12 0).exec (system .mobile 12 0).init
      (lostPrimaryRun ++ [.handles .signaling]) = some s ∧ s.crashed = true) ∧
    ¬ (system .mobile 12 0).Along FindsPrimary (system .mobile 12 0).init
      (lostPrimaryRun ++ [.handles .signaling]) := by
  obtain ⟨s, hrun, hend⟩ := (system .mobile 12 0).exists_of_exec_any lostPrimaryRun
    (fun s => s.signaling.phase = .failed ∧ s.primary.released = true) (by decide)
  obtain ⟨hfailed, hreleased⟩ := of_decide_eq_true hend
  constructor
  · exact (system .mobile 12 0).exists_of_exec_any _ (fun s => s.crashed) (by decide)
  · rw [TransitionSystem.along_concat _ hrun]
    rintro ⟨-, hfinds⟩
    have hfound := hfinds ⟨.signaling, rfl, hfailed⟩
    rw [primaryCon, if_pos hreleased] at hfound
    cases hfound

/-- `finds_primary_iff` for a failover on which the object of the primary connection is alive. -/
theorem finds_primary_failed_over :
    (system .mobile 12 0).Along FindsPrimary (system .mobile 12 0).init failedOverRun := by
  obtain ⟨s, hrun, -⟩ := (system .mobile 12 0).exists_of_exec_any failedOverRun
    (fun _ => true) (by decide)
  refine (finds_primary_iff 12 0 hrun).mpr ?_
  rintro ⟨before, after, hsplit, -, hreleases⟩
  have hmem : .releases .primary ∈ failedOverRun := hsplit ▸ List.mem_append_left _ hreleases
  exact absurd hmem (by decide)

end Links

end WsPerftester
