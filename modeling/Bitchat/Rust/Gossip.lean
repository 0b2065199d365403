import Bitchat.Rust.Run
import Mathlib.Order.Lattice

/-!
# Gossip by asking

Nodes that know elements of a join semilattice. A node asks, any node answers a question
with all it knows, and the one who asked joins the answer to what it knows. Questions and
answers are never taken off the network, so they may come late, more than once, in any
order, or not at all.
-/
namespace Rust

structure Gossip (D α : Type) where
  known : D → α
  asked : List D
  carried : List (D × α)

namespace Gossip

variable {D α : Type}

inductive Act (D α : Type) where
  | write (d : D) (a : α)
  | ask (d : D)
  | answer (d : D) (n : ℕ)
  | merge (n : ℕ)

section

variable [SemilatticeSup α] [DecidableEq D]

/-- A node that learns something. -/
def learn (g : Gossip D α) (d : D) (a : α) : Gossip D α :=
  { g with known := Function.update g.known d (g.known d ⊔ a) }

/-- An answer to a question that nobody asked, and an answer that nobody gave, do nothing. -/
def step (g : Gossip D α) (act : Act D α) : Gossip D α × Unit :=
  match act with
  | .write d a => (g.learn d a, ())
  | .ask d => ({ g with asked := g.asked ++ [d] }, ())
  | .answer d n =>
    match g.asked[n]? with
    | some asker => ({ g with carried := g.carried ++ [(asker, g.known d)] }, ())
    | none => (g, ())
  | .merge n =>
    match g.carried[n]? with
    | some (d, a) => (g.learn d a, ())
    | none => (g, ())

variable {g : Gossip D α} {d b : D} {a : α} {n : ℕ}

@[simp] theorem known_learn_self : (g.learn d a).known d = g.known d ⊔ a := by simp [learn]

theorem known_le_learn (d' : D) : g.known d' ≤ (g.learn d a).known d' := by
  by_cases h : d' = d
  · subst h
    simp
  · simp [learn, h]

theorem known_le_step (g : Gossip D α) (act : Act D α) (d : D) :
    g.known d ≤ (step g act).1.known d := by
  cases act with
  | write d' a => exact known_le_learn d
  | ask d' => exact le_rfl
  | answer d' n =>
    rw [step]
    cases g.asked[n]? <;> exact le_rfl
  | merge n =>
    rw [step]
    cases g.carried[n]? with
    | none => exact le_rfl
    | some answer => exact known_le_learn d

theorem known_le_run (g : Gossip D α) (acts : List (Act D α)) (d : D) :
    g.known d ≤ (run step g acts).known d := by
  induction acts generalizing g with
  | nil => exact le_rfl
  | cons act rest ih => exact (known_le_step g act d).trans (ih _)

/-- What is on the network stays there. -/
theorem carried_prefix_step (g : Gossip D α) (act : Act D α) :
    g.carried <+: (step g act).1.carried := by
  cases act with
  | write d a => exact List.prefix_rfl
  | ask d => exact List.prefix_rfl
  | answer d n =>
    rw [step]
    cases g.asked[n]? with
    | none => exact List.prefix_rfl
    | some asker => exact List.prefix_append _ _
  | merge n =>
    rw [step]
    cases g.carried[n]? <;> exact List.prefix_rfl

theorem carried_prefix_run (g : Gossip D α) (acts : List (Act D α)) :
    g.carried <+: (run step g acts).carried := by
  induction acts generalizing g with
  | nil => exact List.prefix_rfl
  | cons act rest ih => exact (carried_prefix_step g act).trans (ih _)

/-- Who joins an answer knows from then on all that the one who answered knew then. -/
theorem known_le_of_merged (hasked : g.asked[n]? = some d) (between after : List (Act D α)) :
    g.known b ≤
      (run step g (.answer b n :: between ++ .merge g.carried.length :: after)).known d := by
  have answered : (step g (.answer b n)).1.carried = g.carried ++ [(d, g.known b)] := by
    simp [step, hasked]
  rw [run_append, run_cons, run_cons]
  generalize hlater : run step (step g (.answer b n)).1 between = later
  have waiting : later.carried[g.carried.length]? = some (d, g.known b) := by
    obtain ⟨rest, hrest⟩ := carried_prefix_run (step g (.answer b n)).1 between
    rw [← hlater, ← hrest, answered]
    simp
  refine le_trans ?_ (known_le_run _ after d)
  simp [step, waiting]

/-- Nobody makes anything up. -/
structure Below (top : α) (g : Gossip D α) : Prop where
  known : ∀ d, g.known d ≤ top
  carried : ∀ answer ∈ g.carried, answer.2 ≤ top

theorem Below.learn {top : α} (h : g.Below top) (ha : a ≤ top) : (g.learn d a).Below top := by
  refine ⟨fun d' => ?_, h.carried⟩
  by_cases hd : d' = d
  · subst hd
    simpa using ⟨h.known d', ha⟩
  · simpa [Gossip.learn, hd] using h.known d'

theorem Below.step {top : α} (h : g.Below top) {act : Act D α}
    (hwrite : ∀ d a, act = .write d a → a ≤ top) : (step g act).1.Below top := by
  cases act with
  | write d a => exact h.learn (hwrite d a rfl)
  | ask d => exact ⟨h.known, h.carried⟩
  | answer d n =>
    rw [Gossip.step]
    cases g.asked[n]? with
    | none => exact h
    | some asker =>
      refine ⟨h.known, fun answer hmem => ?_⟩
      rcases List.mem_append.mp hmem with hmem | hmem
      · exact h.carried answer hmem
      · rw [List.mem_singleton.mp hmem]
        exact h.known d
  | merge n =>
    rw [Gossip.step]
    cases hanswer : g.carried[n]? with
    | none => exact h
    | some answer => exact h.learn (h.carried answer (List.mem_of_getElem? hanswer))

end

end Gossip

end Rust
