import WsPerftester.Coordination.System

/-! # Subscriptions: the HELLO word comes last

Both receiving programs issue their subscriptions in a fixed order with the HELLO word at the end.
A party that has received a HELLO therefore has all its subscriptions processed by the publisher
(`Subscriber.InOrder.issued_eq_nil`), and from then on it misses no broadcast it has subscribed to:
`Subscriber.Follows` is the invariant of a party that handles the published messages in order. -/

namespace WsPerftester

/-- The subscriptions of a listener, in the order of its `setsockopt` calls. -/
def Listener.order : List Command := [.startProcesses, .theEnd, .helloListener]

/-- The subscriptions of a process, in the order of its `setsockopt` calls. -/
def Process.order : List Command := [.startWebsockets, .helloSocket]

namespace Subscriber

/-- The publisher has processed an initial part of the subscriptions `order`, and has delivered
only what matches it. -/
structure InOrder (order : List Command) (s : Subscriber) : Prop where
  split : s.topics ++ s.issued = order
  matching : ∀ m ∈ s.inbox, m.command ∈ s.topics

variable {order : List Command} {s : Subscriber} {hello : Broadcast}

/-- The publisher processes one more subscription. -/
theorem InOrder.subscribe (h : s.InOrder order) {c : Command} {issued : List Command}
    (hissued : s.issued = c :: issued) :
    InOrder order { s with issued := issued, topics := s.topics ++ [c] } where
  split := by simpa [hissued] using h.split
  matching m hm := List.mem_append_left _ (h.matching m hm)

/-- A broadcast is received. -/
theorem InOrder.receive (h : s.InOrder order) {m : Broadcast} {inbox : List Broadcast}
    (hin : s.inbox = m :: inbox) : InOrder order { s with inbox := inbox } where
  split := h.split
  matching k hk := h.matching k (by rw [hin]; exact List.mem_cons_of_mem m hk)

/-- A broadcast is published. -/
theorem InOrder.deliver (h : s.InOrder order) (m : Broadcast) : InOrder order (s.deliver m) := by
  unfold Subscriber.deliver
  split
  · next hmatch =>
      refine ⟨h.split, fun k hk => ?_⟩
      rcases List.mem_append.mp hk with hk | hk
      · exact h.matching k hk
      · rw [List.mem_singleton.mp hk]; exact hmatch
  · exact h

/-- **Slow joiners.** A subscriber that was sent a message for its last subscription has all its
subscriptions processed. -/
theorem InOrder.issued_eq_nil (h : s.InOrder order) (hnodup : order.Nodup) {c : Command}
    (hlast : order.getLast? = some c) {m : Broadcast} (hm : m ∈ s.inbox) (hc : m.command = c) :
    s.issued = [] := by
  -- otherwise its last subscription is both processed and still outstanding
  by_contra hne
  have hlast' : s.issued.getLast? = some c := by
    rw [← h.split, List.getLast?_append] at hlast
    cases hi : s.issued.getLast? with
    | none => exact absurd (List.getLast?_eq_none_iff.mp hi) hne
    | some d => simpa [hi] using hlast
  rw [← h.split] at hnodup
  exact (List.nodup_append.mp hnodup).2.2 c (hc ▸ h.matching m hm) c
    (List.mem_of_getLast? hlast') rfl

/-- With every subscription processed, the subscriber is sent what it subscribed to. -/
theorem InOrder.deliver_of_issued (h : s.InOrder order) (hnil : s.issued = []) (m : Broadcast) :
    s.deliver m = if m.command ∈ order then { s with inbox := s.inbox ++ [m] } else s := by
  have htopics : s.topics = order := by rw [← h.split, hnil, List.append_nil]
  rw [Subscriber.deliver, htopics]

/-- Publishing touches no subscription. -/
@[simp] theorem issued_deliver (s : Subscriber) (m : Broadcast) :
    (s.deliver m).issued = s.issued := by
  unfold deliver
  split <;> rfl

/-! ## Following a script

`script` is what the publisher has sent to the subscriber besides HELLOs, `read` how much of it the
subscriber has handled, and `joined` whether it has left its outer loop. -/

/-- The inbox holds HELLOs and behind them a part of the script. It is all of the unread script once
a HELLO has been delivered, because the HELLO subscription is processed last. -/
structure Follows (order : List Command) (hello : Broadcast) (script : List Broadcast)
    (joined : Prop) (read : Nat) (s : Subscriber) : Prop where
  inOrder : s.InOrder order
  subscribed : joined → s.issued = []
  read_le : read ≤ script.length
  inbox : ∃ hellos others, s.inbox = List.replicate hellos hello ++ others ∧
    (∀ m ∈ others, m ∈ script) ∧ (joined ∨ 0 < hellos → others = script.drop read)

variable {script : List Broadcast} {joined : Prop} {read : Nat}

/-- Behind no HELLO comes a message of another kind. -/
private theorem hellos_eq_zero {hellos : Nat} {others inbox : List Broadcast} {m : Broadcast}
    (hin : m :: inbox = List.replicate hellos hello ++ others) (hm : m ≠ hello) :
    hellos = 0 ∧ others = m :: inbox := by
  cases hellos with
  | zero => exact ⟨rfl, by simpa using hin.symm⟩
  | succ hellos =>
      rw [List.replicate_succ, List.cons_append, List.cons.injEq] at hin
      exact absurd hin.1 hm

namespace Follows

/-- Nothing has been published yet. -/
theorem start {issued : List Command} (h : issued = order) (hjoined : ¬ joined) :
    Follows order hello [] joined 0 { issued := issued } where
  inOrder := ⟨h, by simp⟩
  subscribed hj := absurd hj hjoined
  read_le := Nat.le_refl 0
  inbox := ⟨0, [], by simp⟩

/-- The same state of the socket, described otherwise. -/
theorem cast (h : s.Follows order hello script joined read) {joined' : Prop} {read' : Nat}
    (hjoined : joined' ↔ joined) (hread : read' = read) :
    s.Follows order hello script joined' read' := by
  rwa [hread, propext hjoined]

/-- The publisher processes one more subscription, of a party that is still in its outer loop. -/
theorem subscribe (h : s.Follows order hello script joined read) {c : Command}
    {issued : List Command} (hissued : s.issued = c :: issued) :
    Follows order hello script joined read
      { s with issued := issued, topics := s.topics ++ [c] } where
  inOrder := h.inOrder.subscribe hissued
  subscribed hj := by
    have := h.subscribed hj
    rw [hissued] at this
    cases this
  read_le := h.read_le
  inbox := h.inbox

/-- **Publishing a HELLO**, which happens only before anything else is published. -/
theorem deliver_hello (h : s.Follows order hello [] joined read) :
    (s.deliver hello).Follows order hello [] joined read where
  inOrder := h.inOrder.deliver hello
  subscribed hj := by rw [issued_deliver]; exact h.subscribed hj
  read_le := h.read_le
  inbox := by
    obtain ⟨hellos, others, hin, hothers, -⟩ := h.inbox
    -- the script is empty, hence so is everything behind the HELLOs
    obtain rfl : others = [] := List.eq_nil_iff_forall_not_mem.mpr fun m hm => by
      simpa using hothers m hm
    unfold deliver
    split
    · refine ⟨hellos + 1, [], ?_, by simp, by simp⟩
      simp [hin, List.replicate_succ']
    · exact ⟨hellos, [], hin, by simp, by simp⟩

/-- **Publishing the next message of the script.** No party that has seen a HELLO misses it. -/
theorem deliver_next (h : s.Follows order hello script joined read) (hnodup : order.Nodup)
    (hlast : order.getLast? = some hello.command) {m : Broadcast} (hm : m.command ∈ order) :
    (s.deliver m).Follows order hello (script ++ [m]) joined read where
  inOrder := h.inOrder.deliver m
  subscribed hj := by rw [issued_deliver]; exact h.subscribed hj
  read_le := by
    have := h.read_le
    simp only [List.length_append]
    omega
  inbox := by
    obtain ⟨hellos, others, hin, hothers, hunread⟩ := h.inbox
    by_cases hseen : joined ∨ 0 < hellos
    · -- a HELLO has come through, so every subscription is processed
      have hissued : s.issued = [] := by
        rcases hseen with hj | hpos
        · exact h.subscribed hj
        · have hmem : hello ∈ s.inbox := by
            rw [hin]
            exact List.mem_append_left _ (List.mem_replicate.mpr ⟨by omega, rfl⟩)
          exact h.inOrder.issued_eq_nil hnodup hlast hmem rfl
      rw [h.inOrder.deliver_of_issued hissued, if_pos hm]
      refine ⟨hellos, others ++ [m], by simp [hin], fun k hk => ?_, fun _ => ?_⟩
      · rcases List.mem_append.mp hk with hk | hk
        · exact List.mem_append_left _ (hothers k hk)
        · exact List.mem_append_right _ hk
      · rw [hunread hseen, List.drop_append_of_le_length h.read_le]
    · -- nothing is promised to a party that has seen no HELLO
      obtain ⟨hj, hpos⟩ := not_or.mp hseen
      obtain rfl : hellos = 0 := by omega
      unfold deliver
      split
      · refine ⟨0, others ++ [m], by simp [hin], fun k hk => ?_, fun hs => absurd hs hseen⟩
        rcases List.mem_append.mp hk with hk | hk
        · exact List.mem_append_left _ (hothers k hk)
        · exact List.mem_append_right _ hk
      · exact ⟨0, others, hin, fun k hk => List.mem_append_left _ (hothers k hk),
          fun hs => absurd hs hseen⟩

/-- Publishing a message for others. -/
theorem deliver_other (h : s.Follows order hello script joined read) {m : Broadcast}
    (hm : m.command ∉ order) : s.deliver m = s := by
  unfold deliver
  rw [if_neg fun hmem => hm ?_]
  rw [← h.inOrder.split]
  exact List.mem_append_left _ hmem

/-- **Receiving a HELLO** joins the party. -/
theorem receive_hello (h : s.Follows order hello script joined read) (hnodup : order.Nodup)
    (hlast : order.getLast? = some hello.command) (hscript : hello ∉ script)
    {inbox : List Broadcast} (hin : s.inbox = hello :: inbox) (joined' : Prop) :
    Follows order hello script joined' read { s with inbox := inbox } where
  inOrder := h.inOrder.receive hin
  subscribed _ := h.inOrder.issued_eq_nil hnodup hlast (hin ▸ List.mem_cons_self) rfl
  read_le := h.read_le
  inbox := by
    obtain ⟨hellos, others, hin', hothers, hunread⟩ := h.inbox
    cases hellos with
    | zero =>
        -- a HELLO at the head cannot come from the script
        have hhead : hello ∈ others := by
          rw [hin, List.replicate_zero, List.nil_append] at hin'
          exact hin' ▸ List.mem_cons_self
        exact absurd (hothers hello hhead) hscript
    | succ hellos =>
        rw [hin, List.replicate_succ, List.cons_append, List.cons.injEq] at hin'
        exact ⟨hellos, others, hin'.2, hothers, fun _ => hunread (.inr (by omega))⟩

/-- **Receiving anything else in the inner loop** is receiving the next message of the script. -/
theorem receive_next (h : s.Follows order hello script joined read) (hj : joined) {m : Broadcast}
    {inbox : List Broadcast} (hin : s.inbox = m :: inbox) (hm : m ≠ hello) :
    script[read]? = some m ∧
      Follows order hello script joined (read + 1) { s with inbox := inbox } := by
  obtain ⟨hellos, others, hin', hothers, hunread⟩ := h.inbox
  obtain ⟨rfl, rfl⟩ := hellos_eq_zero (hin ▸ hin') hm
  have hdrop : script.drop read = m :: inbox := (hunread (.inl hj)).symm
  -- what it receives is the head of the unread script
  have hlt : read < script.length := by
    by_contra hge
    rw [List.drop_eq_nil_of_le (by omega)] at hdrop
    cases hdrop
  rw [List.drop_eq_getElem_cons hlt, List.cons.injEq] at hdrop
  refine ⟨by rw [List.getElem?_eq_getElem hlt, hdrop.1], ?_⟩
  refine ⟨h.inOrder.receive hin, fun _ => h.subscribed hj, hlt, 0, inbox, rfl, fun k hk => ?_, ?_⟩
  · exact hothers k (List.mem_cons_of_mem m hk)
  · exact fun _ => hdrop.2.symm

/-- Receiving anything else in the outer loop leaves the party outside. -/
theorem receive_outside (h : s.Follows order hello script joined read) (hj : ¬ joined)
    {m : Broadcast} {inbox : List Broadcast} (hin : s.inbox = m :: inbox) (hm : m ≠ hello) :
    Follows order hello script joined read { s with inbox := inbox } where
  inOrder := h.inOrder.receive hin
  subscribed hj' := absurd hj' hj
  read_le := h.read_le
  inbox := by
    obtain ⟨hellos, others, hin', hothers, -⟩ := h.inbox
    obtain ⟨rfl, rfl⟩ := hellos_eq_zero (hin ▸ hin') hm
    refine ⟨0, inbox, rfl, fun k hk => hothers k (List.mem_cons_of_mem m hk), ?_⟩
    rintro (hj' | hpos)
    · exact absurd hj' hj
    · exact absurd hpos (by simp)

/-- What a party that has joined still has to read: HELLOs and the rest of its script. -/
theorem inbox_of_joined (h : s.Follows order hello script joined read) (hj : joined) :
    ∃ hellos, s.inbox = List.replicate hellos hello ++ script.drop read := by
  obtain ⟨hellos, others, hin, -, hunread⟩ := h.inbox
  exact ⟨hellos, by rw [hin, hunread (.inl hj)]⟩

end Follows

/-- Broadcasts with the command word `c` that have still to be read. -/
def pending (s : Subscriber) (c : Command) : Nat := s.inbox.countP fun m => m.command = c

/-- HELLOs aside, what is pending is what the script has left. -/
theorem Follows.pending_eq (h : s.Follows order hello script joined read) (hj : joined)
    {c : Command} (hc : hello.command ≠ c) :
    s.pending c = (script.drop read).countP fun m => m.command = c := by
  obtain ⟨hellos, hin⟩ := h.inbox_of_joined hj
  rw [pending, hin, List.countP_append, List.countP_replicate, if_neg (by simpa using hc),
    Nat.zero_add]

end Subscriber

end WsPerftester
