import Mathlib.Algebra.BigOperators.Ring.List
import Mathlib.Algebra.Order.BigOperators.Group.List
import Mathlib.Algebra.Order.Ring.Nat

/-! # Weights over a population of agents

A population is a list of agents, each known by its position. A weight gives every agent a natural
number (how many messages it holds, whether it is in a given phase), and `total` adds the weights
up. The rules say how `total` moves when one agent changes (`total_set`), when all of them do
(`total_map`) and when new ones join (`total_append`); conservation laws of a distributed algorithm
are equations between such totals. -/

namespace Population

variable {α β : Type*}

/-- The sum of the weights of all agents. -/
def total (f : α → Nat) (agents : List α) : Nat := (agents.map f).sum

/-- An empty population weighs nothing. -/
@[simp] theorem total_nil (f : α → Nat) : total f [] = 0 := rfl

/-- The weight of a population is that of its first agent plus that of the others. -/
@[simp] theorem total_cons (f : α → Nat) (x : α) (agents : List α) :
    total f (x :: agents) = f x + total f agents := by
  simp [total]

/-- Two populations taken together. -/
@[simp] theorem total_append (f : α → Nat) (agents agents' : List α) :
    total f (agents ++ agents') = total f agents + total f agents' := by
  simp [total]

/-- Changing every agent by `g` changes the weight function. -/
theorem total_map (f : β → Nat) (g : α → β) (agents : List α) :
    total f (agents.map g) = total (fun x => f (g x)) agents := by
  simp [total, Function.comp_def]

/-- Copies of one agent. -/
@[simp] theorem total_replicate (f : α → Nat) (n : Nat) (x : α) :
    total f (List.replicate n x) = n * f x := by
  simp [total]

/-- **One agent moves.** Replacing agent `x` by `y` exchanges their weights in the total. -/
theorem total_set (f : α → Nat) {agents : List α} {i : Nat} {x : α} (y : α)
    (h : agents[i]? = some x) : total f (agents.set i y) + f x = total f agents + f y := by
  -- on the population; the mover is its first agent or one of the others
  induction agents generalizing i with
  | nil => simp at h
  | cons z agents ih =>
      cases i with
      | zero =>
          simp only [List.getElem?_cons_zero, Option.some.injEq] at h
          subst h
          simp only [List.set_cons_zero, total_cons]
          omega
      | succ i =>
          have htail := ih (i := i) (by simpa using h)
          simp only [List.set_cons_succ, total_cons]
          omega

/-- A move that does not change the mover's weight does not change the total. -/
theorem total_set_of_eq {f : α → Nat} {agents : List α} {i : Nat} {x y : α}
    (h : agents[i]? = some x) (hxy : f y = f x) : total f (agents.set i y) = total f agents := by
  have := total_set f y h
  omega

/-- Weights that agree on every agent have the same total. -/
theorem total_congr {f g : α → Nat} {agents : List α} (h : ∀ x ∈ agents, f x = g x) :
    total f agents = total g agents :=
  congrArg List.sum (List.map_congr_left h)

/-- A pointwise smaller weight has the smaller total. -/
theorem total_le_total {f g : α → Nat} {agents : List α} (h : ∀ x ∈ agents, f x ≤ g x) :
    total f agents ≤ total g agents :=
  List.sum_le_sum h

/-- The total of a sum of weights. -/
theorem total_add (f g : α → Nat) (agents : List α) :
    total (fun x => f x + g x) agents = total f agents + total g agents := by
  simp [total, List.sum_map_add]

/-- The total of a weight scaled by a constant. -/
theorem total_mul (k : Nat) (f : α → Nat) (agents : List α) :
    total (fun x => k * f x) agents = k * total f agents := by
  simp [total, List.sum_map_mul_left]

/-- When every agent weighs one, the total is the size of the population. -/
theorem total_one (agents : List α) : total (fun _ => 1) agents = agents.length := by
  simp [total]

/-- **Stages.** Weights that add up to one for every agent add up to the size of the population. -/
theorem total_eq_length {f : α → Nat} {agents : List α} (h : ∀ x ∈ agents, f x = 1) :
    total f agents = agents.length := by
  rw [total_congr h, total_one]

/-- A total vanishes exactly when every weight does. -/
theorem total_eq_zero {f : α → Nat} {agents : List α} :
    total f agents = 0 ↔ ∀ x ∈ agents, f x = 0 := by
  simp [total, List.sum_eq_zero_iff]

/-- Weighing the agents of a kind counts them. -/
theorem total_eq_countP (p : α → Prop) [DecidablePred p] (agents : List α) :
    total (fun x => if p x then 1 else 0) agents = agents.countP p := by
  induction agents with
  | nil => rfl
  | cons x agents ih =>
      rw [total_cons, ih, List.countP_cons, Nat.add_comm]
      simp

/-- Weights bounded by another weight of the same total agree with it on every agent. -/
theorem eq_of_total_eq {f g : α → Nat} {agents : List α} (hle : ∀ x ∈ agents, f x ≤ g x)
    (htotal : total f agents = total g agents) : ∀ x ∈ agents, f x = g x := by
  induction agents with
  | nil => simp
  | cons y agents ih =>
      have hy := hle y (by simp)
      -- a smaller weight here would need a larger one among the others
      have hrest := total_le_total fun x hx => hle x (List.mem_cons_of_mem y hx)
      simp only [total_cons] at htotal
      intro x hx
      rcases List.mem_cons.mp hx with rfl | hx
      · omega
      · exact ih (fun z hz => hle z (List.mem_cons_of_mem y hz)) (by omega) x hx

/-- **Nobody gains weight.** When every agent gets lighter or keeps what is seen of it, the
population gets lighter or nothing seen of it changes. -/
theorem total_lt_or_map_eq {κ : Type*} {k : α → κ} {w : κ → Nat} {agents agents' : List α}
    (hlength : agents'.length = agents.length)
    (hstep : ∀ (i : Nat) x y, agents[i]? = some x → agents'[i]? = some y →
      w (k y) < w (k x) ∨ k y = k x) :
    total (fun x => w (k x)) agents' < total (fun x => w (k x)) agents ∨
      agents'.map k = agents.map k := by
  induction agents generalizing agents' with
  | nil =>
      rw [List.eq_nil_of_length_eq_zero hlength]
      exact .inr rfl
  | cons x agents ih =>
      obtain ⟨y, agents', rfl⟩ := List.exists_cons_of_length_eq_add_one hlength
      have hhead := hstep 0 x y rfl rfl
      have htail : total (fun x => w (k x)) agents' < total (fun x => w (k x)) agents ∨
          agents'.map k = agents.map k :=
        ih (by simpa using hlength) fun i a b ha hb =>
          hstep (i + 1) a b (by simpa using ha) (by simpa using hb)
      rw [total_cons, total_cons, List.map_cons, List.map_cons]
      rcases htail with htail | htail
      · left
        rcases hhead with hhead | hhead
        · omega
        · rw [hhead]
          omega
      · have htotal := congrArg (total w) htail
        rw [total_map, total_map] at htotal
        rcases hhead with hhead | hhead
        · exact .inl (by omega)
        · exact .inr (by rw [hhead, htail])

/-- Two populations and a number beside them, none of which gains weight: together they get lighter,
or nothing changes. -/
theorem weights_lt_or_eq {U V : Type*} {f : U → Nat} {g : V → Nat} {n n' : Nat} {u u' : U}
    {v v' : V} (hn : n' ≤ n) (hu : f u' < f u ∨ u' = u) (hv : g v' < g v ∨ v' = v) :
    n' + (f u' + g v') < n + (f u + g v) ∨ (n', u', v') = (n, u, v) := by
  rcases hu with hu | rfl
  · left
    rcases hv with hv | rfl <;> omega
  · rcases hv with hv | rfl
    · exact .inl (by omega)
    · rcases Nat.lt_or_eq_of_le hn with hlower | rfl
      · exact .inl (by omega)
      · exact .inr rfl

/-- The first agent with a weight. -/
def firstBusy (weights : List Nat) : Option Nat := weights.findIdx? (· ≠ 0)

/-- The first agent with a weight has one. -/
theorem firstBusy_eq_some {weights : List Nat} {i : Nat} (h : firstBusy weights = some i) :
    ∃ w, weights[i]? = some w ∧ w ≠ 0 := by
  obtain ⟨hlt, hbusy, -⟩ := List.findIdx?_eq_some_iff_getElem.mp h
  exact ⟨weights[i], List.getElem?_eq_getElem hlt, by simpa using hbusy⟩

/-- When there is no first agent with a weight, nobody has one. -/
theorem firstBusy_eq_none {weights : List Nat} (h : firstBusy weights = none) :
    ∀ w ∈ weights, w = 0 := by
  simpa using List.findIdx?_eq_none_iff.mp h

/-- What holds of every agent and of the new state of the mover holds of every agent after the
move. -/
theorem forall_set {P : α → Prop} {agents : List α} {i : Nat} {y : α}
    (h : ∀ x ∈ agents, P x) (hy : P y) : ∀ x ∈ agents.set i y, P x := by
  intro x hx
  rcases List.mem_or_eq_of_mem_set hx with hx | rfl
  · exact h x hx
  · exact hy

/-- An agent after a move is the mover in its new state, or somebody else who is as before. -/
theorem getElem?_set_cases {agents : List α} {i k : Nat} {y z : α}
    (h : (agents.set k y)[i]? = some z) : (k = i ∧ z = y) ∨ (k ≠ i ∧ agents[i]? = some z) := by
  by_cases hki : k = i
  · subst hki
    obtain ⟨hlt, hz⟩ := List.getElem?_eq_some_iff.mp h
    exact .inl ⟨rfl, by simpa using hz.symm⟩
  · rw [List.getElem?_set_ne hki] at h
    exact .inr ⟨hki, h⟩

end Population
