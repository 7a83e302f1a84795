/-!
# Lib: programs of atomic steps over a shared state

A `Program σ ε α` has returned, or updates the state in one step and goes on
with what it saw there.  A `Pool` runs calls whose programs share a state: a
schedule starts them, lets one of them do its next step, or drops one.
-/

namespace GaugeDesk

/-- A program over the state `σ` that returns an `α` or fails with an `ε`. -/
inductive Program (σ ε α : Type) where
  | ret (result : Except ε α)
  | atomic (update : σ → σ) (next : σ → Program σ ε α)

namespace Program

variable {σ ε α β : Type}

def bind : Program σ ε α → (α → Program σ ε β) → Program σ ε β
  | .ret (.ok a), f => f a
  | .ret (.error e), _ => .ret (.error e)
  | .atomic update next, f => .atomic update fun s => (next s).bind f

instance : Monad (Program σ ε) where
  pure a := .ret (.ok a)
  bind := Program.bind

/-- A check that looks at no state. -/
def check (result : Except ε α) : Program σ ε α := .ret result

/-- One query. -/
def read (query : σ → Except ε α) : Program σ ε α := .atomic id fun s => .ret (query s)

/-- The state after a transaction, which an error rolls back. -/
def commit (transaction : σ → Except ε (σ × α)) (s : σ) : σ :=
  match transaction s with
  | .ok (s', _) => s'
  | .error _ => s

def transact (transaction : σ → Except ε (σ × α)) : Program σ ε α :=
  .atomic (commit transaction) fun s => .ret ((transaction s).map Prod.snd)

/-- The program run with nothing in between. -/
def runAlone : Program σ ε α → σ → Except ε α
  | .ret result, _ => result
  | .atomic update next, s => (next s).runAlone (update s)

end Program

/-! ## Pools -/

section
variable (γ σ ε ρ : Type)

structure Running where
  id : Nat
  call : γ
  program : Program σ ε ρ

structure Answered where
  id : Nat
  call : γ
  result : Except ε ρ

structure Pool where
  state : σ
  started : Nat := 0
  running : List (Running γ σ ε ρ) := []
  answered : List (Answered γ ε ρ) := []

inductive Schedule where
  | start (call : γ)
  | advance (id : Nat)
  | crash (id : Nat)

end

variable {γ σ ε ρ : Type}

/-- The call returns, or does its next step. -/
def Pool.continue (w : Pool γ σ ε ρ) (q : Running γ σ ε ρ) : Pool γ σ ε ρ :=
  match q.program with
  | .ret result =>
    { w with
      running := w.running.filter fun p => p.id != q.id
      answered := w.answered ++ [⟨q.id, q.call, result⟩] }
  | .atomic update next =>
    { w with
      state := update w.state
      running := w.running.map fun p =>
        if p.id = q.id then { q with program := next w.state } else p }

/-- After a step of `q` the other running calls are as they were. -/
theorem forall_mem_replace {P : Running γ σ ε ρ → Prop} {l : List (Running γ σ ε ρ)}
    {q q' : Running γ σ ε ρ} (hq : P q') (h : ∀ p ∈ l, p.id ≠ q.id → P p) :
    ∀ p ∈ l.map fun p => if p.id = q.id then q' else p, P p := by
  intro p hm
  obtain ⟨p0, hp0, rfl⟩ := List.mem_map.mp hm
  by_cases he : p0.id = q.id
  · rw [if_pos he]
    exact hq
  · rw [if_neg he]
    exact h p0 hp0 he

def Pool.advance (w : Pool γ σ ε ρ) (id : Nat) : Pool γ σ ε ρ :=
  match w.running.find? fun p => p.id == id with
  | some q => w.continue q
  | none => w

def Pool.step (program : γ → Program σ ε ρ) (w : Pool γ σ ε ρ) : Schedule γ → Pool γ σ ε ρ
  | .start call =>
    { w with
      started := w.started + 1
      running := w.running ++ [⟨w.started, call, program call⟩] }
  | .advance id => w.advance id
  | .crash id => { w with running := w.running.filter fun p => p.id != id }

def Pool.run (program : γ → Program σ ε ρ) (w : Pool γ σ ε ρ) (ls : List (Schedule γ)) :
    Pool γ σ ε ρ :=
  ls.foldl (Pool.step program) w

end GaugeDesk
