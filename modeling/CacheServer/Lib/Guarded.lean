import Mathlib.Data.Set.Function
import Mathlib.Order.Basic

/-!
# Calls that share a state and a mutex

Clients run finite programs of calls on a shared state, and a scheduler interleaves their steps. A
call either touches the state in one step, or holds a mutex while it takes several: it acquires the
mutex, observes the state, decides from what it saw either to answer or to write, writes, and
releases the mutex. A clock is read at every step. It may advance while the mutex is free (`tick`)
or at any time (`drift`), so that a result can say which of the two it allows.

`step` is the machine, as a function of the scheduler's choice, and `Step` lists the transitions
that it makes. The machine records every step that a client takes in its `trace`, with the state
before and after it. `Machine.WellFormed` is the mutual exclusion that holds in every run.
`write_window` says of every write in a trace that it was decided on a state that differs from the
one it is applied to only by the single-step calls in between (`window`).
-/

namespace CacheServer.Guarded

/-- How a call touches the shared state, for states `σ`, observations `ω`, times `τ`, and replies
`ρ`. -/
inductive Script (σ ω τ ρ : Type)
  /-- It answers without looking at the state. -/
  | answer (r : ρ)
  /-- It reads the state in one step, without the mutex. -/
  | read (f : τ → σ → ρ)
  /-- It writes the state in one step, without the mutex. -/
  | write (f : τ → σ → ρ × σ)
  /-- It observes the state, then decides to answer or to write, and holds the mutex meanwhile. -/
  | locked (observe : τ → σ → ω) (decide : τ → ω → ρ ⊕ (τ → σ → ρ × σ))

/-- The call takes the mutex. -/
def Script.isLocked {σ ω τ ρ : Type} : Script σ ω τ ρ → Bool
  | .locked .. => true
  | _ => false

/-- The call run whole, at one time: what it answers, and the state that it leaves. -/
def Script.whole {σ ω τ ρ : Type} (t : τ) (s : σ) : Script σ ω τ ρ → ρ × σ
  | .answer r => (r, s)
  | .read f => (f t s, s)
  | .write f => f t s
  | .locked observe decide =>
    match decide t (observe t s) with
    | .inl r => (r, s)
    | .inr f => f t s

/-- Where a client stands in its present call. -/
inductive Phase (σ ω τ ρ : Type)
  /-- It has not started. -/
  | idle
  /-- It has the mutex. -/
  | acquired
  /-- It has observed the state. -/
  | observed (o : ω)
  /-- It has decided to write. -/
  | writing (f : τ → σ → ρ × σ)
  /-- It knows its answer, and still has the mutex. -/
  | finished (r : ρ)

/-- A client: the calls still to make, the first of them under way unless the phase is `idle`, and
the answers to those it has made. -/
structure Thread (κ σ ω τ ρ : Type) where
  /-- The calls still to make. -/
  todo : List κ
  /-- Where it is in the first of them. -/
  phase : Phase σ ω τ ρ := .idle
  /-- The answers so far. -/
  replies : List ρ := []

/-- The client in another phase of its call. -/
def Thread.enter {κ σ ω τ ρ : Type} (th : Thread κ σ ω τ ρ) (phase : Phase σ ω τ ρ) :
    Thread κ σ ω τ ρ :=
  { th with phase := phase }

/-- The client with its call made. -/
def Thread.complete {κ σ ω τ ρ : Type} (th : Thread κ σ ω τ ρ) (r : ρ) : Thread κ σ ω τ ρ where
  todo := th.todo.tail
  replies := th.replies ++ [r]

/-- What a client does in one step. -/
inductive StepKind (ρ : Type)
  | acquire
  | observe
  /-- It decides to write. -/
  | decide
  /-- It decides to answer without writing. -/
  | answer (r : ρ)
  | write (r : ρ)
  | release
  /-- It makes a call without the mutex. -/
  | once (r : ρ)

/-- The answer that a call is bound to give from this step on. -/
def StepKind.reply? {ρ : Type} : StepKind ρ → Option ρ
  | .answer r | .write r | .once r => some r
  | _ => none

/-- The step observes the state. -/
def StepKind.isObserve {ρ : Type} : StepKind ρ → Bool
  | .observe => true
  | _ => false

/-- One step of a trace: whose it is, in which call, when, what it does, and the state before and
after it. -/
structure Entry (ι κ σ τ ρ : Type) where
  /-- Whose step it is. -/
  client : ι
  /-- The call that it belongs to. -/
  call : κ
  /-- When it was taken. -/
  clock : τ
  /-- What it does. -/
  kind : StepKind ρ
  /-- The state before it. -/
  before : σ
  /-- The state after it. -/
  after : σ

/-- The shared state, the clock, the client that has the mutex, the clients, and the steps taken so
far. -/
structure Machine (ι κ σ ω τ ρ : Type) where
  /-- The shared state. -/
  store : σ
  /-- The time. -/
  clock : τ
  /-- Who has the mutex. -/
  owner : Option ι := none
  /-- The clients. -/
  thread : ι → Thread κ σ ω τ ρ
  /-- The steps taken so far. -/
  trace : List (Entry ι κ σ τ ρ) := []

/-- What the scheduler can do next. -/
inductive Choice (ι τ : Type)
  /-- Let a client take a step. -/
  | run (i : ι)
  /-- Advance the clock between the calls that take the mutex. -/
  | tick (t : τ)
  /-- Advance the clock, whoever has the mutex. -/
  | drift (t : τ)
deriving DecidableEq

section Machine

variable {ι κ σ ω τ ρ : Type} [DecidableEq ι]

/-- The machine with all its clients at the start of their programs. -/
def Machine.init (program : ι → List κ) (s : σ) (t : τ) : Machine ι κ σ ω τ ρ where
  store := s
  clock := t
  thread i := { todo := program i }

/-- The machine after a step of client `i` in the call `c`. -/
def Machine.advance (m : Machine ι κ σ ω τ ρ) (i : ι) (c : κ) (kind : StepKind ρ)
    (th : Thread κ σ ω τ ρ) (owner : Option ι) (s : σ) : Machine ι κ σ ω τ ρ where
  store := s
  clock := m.clock
  owner := owner
  thread := Function.update m.thread i th
  trace := m.trace ++ [⟨i, c, m.clock, kind, m.store, s⟩]

/-- One step of the scheduler's choosing, or `none` when it is not enabled. -/
def step [LE τ] [DecidableLE τ] (script : κ → Script σ ω τ ρ) (m : Machine ι κ σ ω τ ρ) :
    Choice ι τ → Option (Machine ι κ σ ω τ ρ)
  | .tick t => if m.owner = none ∧ m.clock ≤ t then some { m with clock := t } else none
  | .drift t => if m.clock ≤ t then some { m with clock := t } else none
  | .run i =>
    let th := m.thread i
    match th.todo with
    | [] => none
    | c :: _ =>
      match script c with
      | .locked observe decide =>
        match th.phase with
        | .idle =>
          if m.owner = none then
            some (m.advance i c .acquire (th.enter .acquired) (some i) m.store)
          else none
        | .acquired =>
          let o := observe m.clock m.store
          some (m.advance i c .observe (th.enter (.observed o)) m.owner m.store)
        | .observed o =>
          match decide m.clock o with
          | .inl r => some (m.advance i c (.answer r) (th.enter (.finished r)) m.owner m.store)
          | .inr f => some (m.advance i c .decide (th.enter (.writing f)) m.owner m.store)
        | .writing f =>
          let (r, s) := f m.clock m.store
          some (m.advance i c (.write r) (th.enter (.finished r)) m.owner s)
        | .finished r =>
          some (m.advance i c .release (th.complete r) none m.store)
      | unlocked =>
        let (r, s) := unlocked.whole m.clock m.store
        some (m.advance i c (.once r) (th.complete r) m.owner s)

/-- A schedule run to its end, or `none` when one of its steps is not enabled. -/
def run [LE τ] [DecidableLE τ] (script : κ → Script σ ω τ ρ) (m : Machine ι κ σ ω τ ρ) :
    List (Choice ι τ) → Option (Machine ι κ σ ω τ ρ)
  | [] => some m
  | c :: cs => (step script m c).bind fun m' => run script m' cs

/-- The transitions of the machine. -/
inductive Step [LE τ] (script : κ → Script σ ω τ ρ) (m : Machine ι κ σ ω τ ρ) :
    Choice ι τ → Machine ι κ σ ω τ ρ → Prop
  | tick (t : τ) (free : m.owner = none) (later : m.clock ≤ t) :
    Step script m (.tick t) { m with clock := t }
  | drift (t : τ) (later : m.clock ≤ t) : Step script m (.drift t) { m with clock := t }
  | once (i : ι) (c : κ) (rest : List κ) (todo : (m.thread i).todo = c :: rest)
      (unlocked : (script c).isLocked = false) :
    Step script m (.run i) (m.advance i c (.once ((script c).whole m.clock m.store).1)
      ((m.thread i).complete ((script c).whole m.clock m.store).1)
      m.owner ((script c).whole m.clock m.store).2)
  | acquire (i : ι) (c : κ) (rest : List κ) (todo : (m.thread i).todo = c :: rest)
      (locked : (script c).isLocked = true) (idle : (m.thread i).phase = .idle)
      (free : m.owner = none) :
    Step script m (.run i)
      (m.advance i c .acquire ((m.thread i).enter .acquired) (some i) m.store)
  | observe (i : ι) (c : κ) (rest : List κ) (todo : (m.thread i).todo = c :: rest)
      (obs : τ → σ → ω) (dec : τ → ω → ρ ⊕ (τ → σ → ρ × σ)) (locked : script c = .locked obs dec)
      (acquired : (m.thread i).phase = .acquired) :
    Step script m (.run i) (m.advance i c .observe
      ((m.thread i).enter (.observed (obs m.clock m.store))) m.owner m.store)
  | answer (i : ι) (c : κ) (rest : List κ) (todo : (m.thread i).todo = c :: rest)
      (obs : τ → σ → ω) (dec : τ → ω → ρ ⊕ (τ → σ → ρ × σ)) (locked : script c = .locked obs dec)
      (o : ω) (observed : (m.thread i).phase = .observed o) (r : ρ)
      (answers : dec m.clock o = .inl r) :
    Step script m (.run i)
      (m.advance i c (.answer r) ((m.thread i).enter (.finished r)) m.owner m.store)
  | decide (i : ι) (c : κ) (rest : List κ) (todo : (m.thread i).todo = c :: rest)
      (obs : τ → σ → ω) (dec : τ → ω → ρ ⊕ (τ → σ → ρ × σ)) (locked : script c = .locked obs dec)
      (o : ω) (observed : (m.thread i).phase = .observed o) (f : τ → σ → ρ × σ)
      (writes : dec m.clock o = .inr f) :
    Step script m (.run i)
      (m.advance i c .decide ((m.thread i).enter (.writing f)) m.owner m.store)
  | write (i : ι) (c : κ) (rest : List κ) (todo : (m.thread i).todo = c :: rest)
      (locked : (script c).isLocked = true) (f : τ → σ → ρ × σ)
      (writing : (m.thread i).phase = .writing f) :
    Step script m (.run i) (m.advance i c (.write (f m.clock m.store).1)
      ((m.thread i).enter (.finished (f m.clock m.store).1)) m.owner (f m.clock m.store).2)
  | release (i : ι) (c : κ) (rest : List κ) (todo : (m.thread i).todo = c :: rest)
      (locked : (script c).isLocked = true) (r : ρ) (finished : (m.thread i).phase = .finished r) :
    Step script m (.run i)
      (m.advance i c .release ((m.thread i).complete r) none m.store)

variable {script : κ → Script σ ω τ ρ}

/-- A step of the machine is one of its transitions. -/
theorem Step.of_step [LE τ] [DecidableLE τ] {m m' : Machine ι κ σ ω τ ρ} {ch : Choice ι τ}
    (h : step script m ch = some m') : Step script m ch m' := by
  cases ch with
  | tick t =>
    simp only [step, Option.ite_none_right_eq_some, Option.some.injEq] at h
    obtain ⟨⟨hfree, hle⟩, rfl⟩ := h
    exact .tick t hfree hle
  | drift t =>
    simp only [step, Option.ite_none_right_eq_some, Option.some.injEq] at h
    obtain ⟨hle, rfl⟩ := h
    exact .drift t hle
  | run i =>
    simp only [step] at h
    cases htodo : (m.thread i).todo with
    | nil => simp [htodo] at h
    | cons c rest =>
      simp only [htodo] at h
      -- The scripts without the mutex all take their one step in the same way.
      cases hs : script c with
      | answer r =>
        have honce : Step script m (.run i) _ := .once i c rest htodo (by rw [hs]; rfl)
        simp only [hs, Option.some.injEq] at h
        rw [hs] at honce
        exact h ▸ honce
      | read f =>
        have honce : Step script m (.run i) _ := .once i c rest htodo (by rw [hs]; rfl)
        simp only [hs, Option.some.injEq] at h
        rw [hs] at honce
        exact h ▸ honce
      | write f =>
        have honce : Step script m (.run i) _ := .once i c rest htodo (by rw [hs]; rfl)
        simp only [hs, Option.some.injEq] at h
        rw [hs] at honce
        exact h ▸ honce
      | locked obs dec =>
        have hl : (script c).isLocked = true := by rw [hs]; rfl
        simp only [hs] at h
        cases hp : (m.thread i).phase with
        | idle =>
          simp only [hp, Option.ite_none_right_eq_some, Option.some.injEq] at h
          obtain ⟨hfree, rfl⟩ := h
          exact .acquire i c rest htodo hl hp hfree
        | acquired =>
          simp only [hp, Option.some.injEq] at h
          subst h
          exact .observe i c rest htodo obs dec hs hp
        | observed o =>
          simp only [hp] at h
          cases hd : dec m.clock o with
          | inl r =>
            simp only [hd, Option.some.injEq] at h
            subst h
            exact .answer i c rest htodo obs dec hs o hp r hd
          | inr f =>
            simp only [hd, Option.some.injEq] at h
            subst h
            exact .decide i c rest htodo obs dec hs o hp f hd
        | writing f =>
          simp only [hp, Option.some.injEq] at h
          subst h
          exact .write i c rest htodo hl f hp
        | finished r =>
          simp only [hp, Option.some.injEq] at h
          subst h
          exact .release i c rest htodo hl r hp

/-- A property of machines that every transition preserves holds after every run. The transition
may be assumed to be one that the schedule chose. -/
theorem run_induction [LE τ] [DecidableLE τ] {motive : Machine ι κ σ ω τ ρ → Prop}
    {sched : List (Choice ι τ)} {m m' : Machine ι κ σ ω τ ρ} (hrun : run script m sched = some m')
    (init : motive m)
    (next : ∀ ch ∈ sched, ∀ m₁ m₂, motive m₁ → Step script m₁ ch m₂ → motive m₂) : motive m' := by
  induction sched generalizing m with
  | nil =>
    simp only [run, Option.some.injEq] at hrun
    exact hrun ▸ init
  | cons ch cs ih =>
    simp only [run, Option.bind_eq_some_iff] at hrun
    obtain ⟨m₁, h₁, hrun⟩ := hrun
    refine ih hrun (next ch (by simp) m m₁ init (Step.of_step h₁)) ?_
    exact fun ch' hch' => next ch' (List.mem_cons_of_mem _ hch')

/-! ## Mutual exclusion -/

/-- The client that has the mutex is the one inside a call, and that call is one that takes it. -/
structure Machine.WellFormed (script : κ → Script σ ω τ ρ) (m : Machine ι κ σ ω τ ρ) : Prop where
  /-- Who has the mutex is inside a call, and nobody else is. -/
  owner_iff : ∀ i, m.owner = some i ↔ (m.thread i).phase ≠ .idle
  /-- That call is one that takes it. -/
  holds : ∀ i, m.owner = some i → ∃ c rest, (m.thread i).todo = c :: rest ∧
    (script c).isLocked = true

omit [DecidableEq ι] in
/-- All clients start outside their calls. -/
theorem Machine.init_wellFormed (program : ι → List κ) (s : σ) (t : τ) :
    (Machine.init program s t : Machine ι κ σ ω τ ρ).WellFormed script where
  owner_iff _ := by simp [Machine.init]
  holds _ h := by simp [Machine.init] at h

omit [DecidableEq ι] in
/-- A client inside a call has the mutex. -/
theorem Machine.WellFormed.owner_of_phase {m : Machine ι κ σ ω τ ρ} (h : m.WellFormed script)
    {i : ι} {p : Phase σ ω τ ρ} (hp : (m.thread i).phase = p) (hne : p ≠ .idle) :
    m.owner = some i :=
  (h.owner_iff i).mpr (hp ▸ hne)

omit [DecidableEq ι] in
/-- A client whose next call does not take the mutex does not have it. -/
theorem Machine.WellFormed.owner_ne {m : Machine ι κ σ ω τ ρ} (h : m.WellFormed script) {i : ι}
    {c : κ} {rest : List κ} (htodo : (m.thread i).todo = c :: rest)
    (hc : (script c).isLocked = false) : m.owner ≠ some i := by
  intro hown
  obtain ⟨c', rest', htodo', hl⟩ := h.holds i hown
  rw [htodo] at htodo'
  cases htodo'
  rw [hc] at hl
  exact Bool.noConfusion hl

/-- Mutual exclusion survives a step in which the client keeps the mutex that it has. -/
theorem Machine.WellFormed.advance_owner {m : Machine ι κ σ ω τ ρ} (h : m.WellFormed script)
    {i : ι} (howner : m.owner = some i) (c : κ) (kind : StepKind ρ) {p : Phase σ ω τ ρ}
    (hp : p ≠ .idle) (s : σ) :
    (m.advance i c kind ((m.thread i).enter p) m.owner s).WellFormed script where
  owner_iff j := by
    by_cases hj : j = i
    · subst hj
      simp [Machine.advance, howner, Thread.enter, hp]
    · simp [Machine.advance, Function.update_of_ne hj, h.owner_iff j]
  holds j hown := by
    by_cases hj : j = i
    · subst hj
      simpa [Machine.advance, Thread.enter] using h.holds j howner
    · simpa [Machine.advance, Function.update_of_ne hj] using h.holds j hown

/-- Every transition keeps mutual exclusion. -/
theorem Step.wellFormed [LE τ] {m m' : Machine ι κ σ ω τ ρ} {ch : Choice ι τ}
    (hstep : Step script m ch m') (h : m.WellFormed script) : m'.WellFormed script := by
  cases hstep with
  | tick t free later => exact ⟨h.owner_iff, h.holds⟩
  | drift t later => exact ⟨h.owner_iff, h.holds⟩
  | once i c rest todo unlocked =>
    have hi := h.owner_ne todo unlocked
    constructor
    · intro j
      by_cases hj : j = i
      · subst hj
        simp [Machine.advance, Thread.complete, hi]
      · simp [Machine.advance, Function.update_of_ne hj, h.owner_iff j]
    · intro j hown
      have hj : j ≠ i := by
        rintro rfl
        exact hi hown
      simpa [Machine.advance, Function.update_of_ne hj] using h.holds j hown
  | acquire i c rest todo locked idle free =>
    constructor
    · intro j
      by_cases hj : j = i
      · subst hj
        simp [Machine.advance, Thread.enter]
      · have hidle := h.owner_iff j
        rw [free] at hidle
        simp only [Machine.advance, Function.update_of_ne hj, Option.some.injEq]
        exact ⟨fun e => absurd e.symm hj, fun hp => by simpa using hidle.mpr hp⟩
    · intro j hown
      obtain rfl : i = j := by simpa [Machine.advance] using hown
      exact ⟨c, rest, by simpa [Machine.advance, Thread.enter] using todo, locked⟩
  | observe i c rest todo obs dec locked acquired =>
    exact h.advance_owner (h.owner_of_phase acquired (by simp)) _ _ (by simp) _
  | answer i c rest todo obs dec locked o observed r answers =>
    exact h.advance_owner (h.owner_of_phase observed (by simp)) _ _ (by simp) _
  | decide i c rest todo obs dec locked o observed f writes =>
    exact h.advance_owner (h.owner_of_phase observed (by simp)) _ _ (by simp) _
  | write i c rest todo locked f writing =>
    exact h.advance_owner (h.owner_of_phase writing (by simp)) _ _ (by simp) _
  | release i c rest todo locked r finished =>
    have howner := h.owner_of_phase finished (by simp)
    constructor
    · intro j
      by_cases hj : j = i
      · subst hj
        simp [Machine.advance, Thread.complete]
      · have hidle := h.owner_iff j
        rw [howner] at hidle
        simp only [Machine.advance, Function.update_of_ne hj, reduceCtorEq, false_iff, not_not]
        -- A second client inside a call would have the mutex as well.
        by_contra hp
        exact hj (Option.some.inj (hidle.mpr hp)).symm
    · intro j hown
      simp [Machine.advance] at hown

/-! ## What happens between an observation and its write -/

/-- The steps of a trace since the client last observed the state. -/
def window (i : ι) (trace : List (Entry ι κ σ τ ρ)) : List (Entry ι κ σ τ ρ) :=
  trace.foldl (fun w e => if e.client = i ∧ e.kind.isObserve then [] else w ++ [e]) []

/-- A step is added to the window of a client, unless it is an observation of its own, which begins
a new one. -/
@[simp]
theorem window_concat (i : ι) (trace : List (Entry ι κ σ τ ρ)) (e : Entry ι κ σ τ ρ) :
    window i (trace ++ [e]) =
      if e.client = i ∧ e.kind.isObserve then [] else window i trace ++ [e] := by
  simp [window]

/-- The steps lead from one state to another, each from where the last one ended. -/
def Chain : σ → List (Entry ι κ σ τ ρ) → σ → Prop
  | s, [], s' => s = s'
  | s, e :: es, s' => e.before = s ∧ Chain e.after es s'

omit [DecidableEq ι] in
/-- A chain is extended by a step from its end. -/
theorem Chain.concat {s s' : σ} {es : List (Entry ι κ σ τ ρ)} (h : Chain s es s')
    {e : Entry ι κ σ τ ρ} (he : e.before = s') : Chain s (es ++ [e]) e.after := by
  induction es generalizing s with
  | nil => exact ⟨he.trans h.symm, rfl⟩
  | cons x xs ih => exact ⟨h.1, ih h.2⟩

omit [DecidableEq ι] in
/-- A view of the state that no step of a chain changes is the same at both ends. -/
theorem Chain.view_eq {α : Type} (view : σ → α) {s s' : σ} {es : List (Entry ι κ σ τ ρ)}
    (h : Chain s es s') (hes : ∀ e ∈ es, view e.after = view e.before) : view s' = view s := by
  induction es generalizing s with
  | nil => exact congrArg view (Eq.symm h)
  | cons x xs ih =>
    obtain ⟨hx, hxs⟩ := h
    rw [ih hxs fun e he => hes e (List.mem_cons_of_mem _ he), hes x (by simp), hx]

/-- The step is a whole call without the mutex, or it leaves the state alone. -/
def Entry.Plain (script : κ → Script σ ω τ ρ) (e : Entry ι κ σ τ ρ) : Prop :=
  ((script e.call).isLocked = false ∧ ∃ r, e.kind = .once r ∧
    (script e.call).whole e.clock e.before = (r, e.after)) ∨ e.after = e.before

/-- Client `i` last observed the state at the step `q` of its call `c`, and only single-step calls
have changed it since. -/
structure Machine.Saw [LE τ] (script : κ → Script σ ω τ ρ) (m : Machine ι κ σ ω τ ρ) (i : ι) (c : κ)
    (q : Entry ι κ σ τ ρ) : Prop where
  /-- The step is the client's. -/
  client : q.client = i
  /-- It belongs to that call. -/
  call : q.call = c
  /-- It is an observation. -/
  kind : q.kind = .observe
  /-- It is the client's last one. -/
  trace : ∃ pre, m.trace = pre ++ q :: window i m.trace
  /-- It is in the past. -/
  le_clock : q.clock ≤ m.clock
  /-- The steps since lead from what it saw to the present state. -/
  chain : Chain q.before (window i m.trace) m.store
  /-- They are those of single-step calls. -/
  plain : ∀ e ∈ window i m.trace, e.Plain script

/-- What a client saw is still what it saw after a plain step. -/
theorem Machine.Saw.advance [LE τ] {m : Machine ι κ σ ω τ ρ} {i : ι} {c' : κ}
    {q : Entry ι κ σ τ ρ} (h : m.Saw script i c' q) (j : ι) (c : κ) (kind : StepKind ρ)
    (th : Thread κ σ ω τ ρ) (owner : Option ι) (s' : σ)
    (hkind : ¬ (j = i ∧ kind.isObserve = true))
    (hplain : (⟨j, c, m.clock, kind, m.store, s'⟩ : Entry ι κ σ τ ρ).Plain script) :
    (m.advance j c kind th owner s').Saw script i c' q where
  client := h.client
  call := h.call
  kind := h.kind
  trace := by
    obtain ⟨pre, hpre⟩ := h.trace
    refine ⟨pre, ?_⟩
    simp only [Machine.advance, window_concat, if_neg hkind, ← List.cons_append,
      ← List.append_assoc, ← hpre]
  le_clock := h.le_clock
  chain := by
    simp only [Machine.advance, window_concat, if_neg hkind]
    exact Chain.concat h.chain rfl
  plain e he := by
    simp only [Machine.advance, window_concat, if_neg hkind, List.mem_append,
      List.mem_singleton] at he
    rcases he with he | rfl
    · exact h.plain e he
    · exact hplain

/-- What the phases of the clients say of the states that they have seen. -/
def Machine.Informed [LE τ] (script : κ → Script σ ω τ ρ) (m : Machine ι κ σ ω τ ρ) : Prop :=
  ∀ i c rest, (m.thread i).todo = c :: rest → ∀ obs dec, script c = .locked obs dec →
    (∀ o, (m.thread i).phase = .observed o →
      ∃ q, m.Saw script i c q ∧ o = obs q.clock q.before) ∧
    (∀ f, (m.thread i).phase = .writing f → ∃ q t, m.Saw script i c q ∧ q.clock ≤ t ∧ t ≤ m.clock ∧
      dec t (obs q.clock q.before) = .inr f)

/-- A step that is plain, or that finds no one else inside a call, leaves the clients informed when
it does so for its own client. -/
theorem Machine.Informed.advance [LE τ] {m : Machine ι κ σ ω τ ρ} (h : m.Informed script)
    {j : ι} {c : κ} {kind : StepKind ρ} {th : Thread κ σ ω τ ρ} {owner : Option ι} {s' : σ}
    (hplain : (⟨j, c, m.clock, kind, m.store, s'⟩ : Entry ι κ σ τ ρ).Plain script ∨
      ∀ i, i ≠ j → (m.thread i).phase = .idle)
    (hown : ∀ c' rest, th.todo = c' :: rest → ∀ obs dec, script c' = .locked obs dec →
      (∀ o, th.phase = .observed o →
        ∃ q, (m.advance j c kind th owner s').Saw script j c' q ∧ o = obs q.clock q.before) ∧
      (∀ f, th.phase = .writing f →
        ∃ q t, (m.advance j c kind th owner s').Saw script j c' q ∧ q.clock ≤ t ∧ t ≤ m.clock ∧
          dec t (obs q.clock q.before) = .inr f)) :
    (m.advance j c kind th owner s').Informed script := by
  intro i c' rest htodo obs dec hs
  by_cases hi : i = j
  · subst hi
    have hthread : (m.advance i c kind th owner s').thread i = th := Function.update_self ..
    rw [hthread] at htodo ⊢
    exact hown c' rest htodo obs dec hs
  · have hthread : (m.advance j c kind th owner s').thread i = m.thread i :=
      Function.update_of_ne hi ..
    have hkind : ¬ (j = i ∧ kind.isObserve = true) := fun hc => hi hc.1.symm
    rw [hthread] at htodo ⊢
    obtain ⟨hobs, hwr⟩ := h i c' rest htodo obs dec hs
    rcases hplain with hplain | hidle
    · -- The step joins the window of every other client.
      constructor
      · intro o ho
        obtain ⟨q, hsaw, ho⟩ := hobs o ho
        exact ⟨q, hsaw.advance j c kind th owner s' hkind hplain, ho⟩
      · intro f hf
        obtain ⟨q, t, hsaw, hrest⟩ := hwr f hf
        exact ⟨q, t, hsaw.advance j c kind th owner s' hkind hplain, hrest⟩
    · simp only [hidle i hi, reduceCtorEq, false_implies, implies_true, and_true]

omit [DecidableEq ι] in
/-- While a client has the mutex, all the others are outside their calls. -/
theorem Machine.WellFormed.idle_of_ne {m : Machine ι κ σ ω τ ρ} (h : m.WellFormed script) {i j : ι}
    (howner : m.owner = some j) (hi : i ≠ j) : (m.thread i).phase = .idle := by
  by_contra hp
  have := (h.owner_iff i).mpr hp
  rw [howner] at this
  exact hi (Option.some.inj this).symm

/-- What a client saw is still what it saw when time has passed. -/
theorem Machine.Saw.of_clock [Preorder τ] {m : Machine ι κ σ ω τ ρ} {i : ι} {c : κ}
    {q : Entry ι κ σ τ ρ} (h : m.Saw script i c q) {t : τ} (ht : m.clock ≤ t) :
    ({ m with clock := t } : Machine ι κ σ ω τ ρ).Saw script i c q :=
  { h with le_clock := h.le_clock.trans ht }

/-- The passing of time leaves the clients as informed as they were. -/
theorem Machine.Informed.of_clock [Preorder τ] {m : Machine ι κ σ ω τ ρ}
    (h : m.Informed script) {t : τ} (ht : m.clock ≤ t) :
    ({ m with clock := t } : Machine ι κ σ ω τ ρ).Informed script := by
  intro i c rest htodo obs dec hs
  obtain ⟨hobs, hwr⟩ := h i c rest htodo obs dec hs
  constructor
  · intro o ho
    obtain ⟨q, hsaw, ho⟩ := hobs o ho
    exact ⟨q, hsaw.of_clock ht, ho⟩
  · intro f hf
    obtain ⟨q, t', hsaw, hle, hle', hf⟩ := hwr f hf
    exact ⟨q, t', hsaw.of_clock ht, hle, hle'.trans ht, hf⟩

/-- Every transition keeps the clients informed. -/
theorem Step.informed [Preorder τ] {m m' : Machine ι κ σ ω τ ρ} {ch : Choice ι τ}
    (hstep : Step script m ch m') (hwf : m.WellFormed script) (h : m.Informed script) :
    m'.Informed script := by
  cases hstep with
  | tick t free later => exact h.of_clock later
  | drift t later => exact h.of_clock later
  | once j c rest todo unlocked =>
    exact h.advance (.inl (.inl ⟨unlocked, _, rfl, rfl⟩)) (by simp [Thread.complete])
  | acquire j c rest todo locked idle free =>
    exact h.advance (.inl (.inr rfl)) (by simp [Thread.enter])
  | observe j c rest todo obs₀ dec₀ locked acquired =>
    refine h.advance (.inl (.inr rfl)) fun c' rest' htodo obs dec hs => ?_
    obtain ⟨rfl, rfl⟩ : c = c' ∧ rest = rest' := by simpa [Thread.enter, todo] using htodo
    obtain ⟨rfl, rfl⟩ : obs₀ = obs ∧ dec₀ = dec := by simpa [hs] using locked.symm
    -- The window starts afresh at the observation.
    refine ⟨fun o ho => ⟨⟨j, c, m.clock, .observe, m.store, m.store⟩, ?_, ?_⟩, ?_⟩
    · refine ⟨rfl, rfl, rfl, ⟨m.trace, ?_⟩, le_refl _, ?_, ?_⟩ <;>
        simp [Machine.advance, StepKind.isObserve, Chain]
    · simpa [Thread.enter] using ho.symm
    · simp [Thread.enter]
  | answer j c rest todo obs₀ dec₀ locked o observed r answers =>
    exact h.advance (.inl (.inr rfl)) (by simp [Thread.enter])
  | decide j c rest todo obs₀ dec₀ locked o observed f writes =>
    refine h.advance (.inl (.inr rfl)) fun c' rest' htodo obs dec hs => ?_
    obtain ⟨rfl, rfl⟩ : c = c' ∧ rest = rest' := by simpa [Thread.enter, todo] using htodo
    obtain ⟨rfl, rfl⟩ : obs₀ = obs ∧ dec₀ = dec := by simpa [hs] using locked.symm
    -- What the client observed is what its decision is made on, and the window goes on.
    obtain ⟨q, hsaw, rfl⟩ := (h j c rest todo obs₀ dec₀ hs).1 o observed
    refine ⟨by simp [Thread.enter], fun f' hf' => ?_⟩
    obtain rfl : f = f' := by simpa [Thread.enter] using hf'
    refine ⟨q, m.clock, ?_, hsaw.le_clock, le_refl _, writes⟩
    exact hsaw.advance j c .decide _ _ m.store (by simp [StepKind.isObserve]) (.inr rfl)
  | write j c rest todo locked f writing =>
    -- The write changes the state under the mutex, while no one else is inside a call.
    have howner := hwf.owner_of_phase writing (by simp)
    exact h.advance (.inr fun k hk => hwf.idle_of_ne howner hk) (by simp [Thread.enter])
  | release j c rest todo locked r finished =>
    exact h.advance (.inl (.inr rfl)) (by simp [Thread.complete])

/-! ## Facts about every step of a trace -/

/-- The fact holds of every step of the trace, with the steps before it. -/
def Along (P : List (Entry ι κ σ τ ρ) → Entry ι κ σ τ ρ → Prop)
    (trace : List (Entry ι κ σ τ ρ)) : Prop :=
  ∀ pre e post, trace = pre ++ e :: post → P pre e

omit [DecidableEq ι] in
/-- A longer trace has the fact at its last step and at all before. -/
theorem Along.concat {P : List (Entry ι κ σ τ ρ) → Entry ι κ σ τ ρ → Prop}
    {trace : List (Entry ι κ σ τ ρ)} (h : Along P trace) {e : Entry ι κ σ τ ρ} (he : P trace e) :
    Along P (trace ++ [e]) := by
  intro pre x post heq
  -- The step is the last one, or it stands in the trace before.
  rcases List.eq_nil_or_concat post with rfl | ⟨post', y, rfl⟩
  · obtain ⟨rfl, hx⟩ := List.append_inj' heq rfl
    cases hx
    exact he
  · rw [List.concat_eq_append, ← List.cons_append, ← List.append_assoc] at heq
    obtain ⟨htrace, -⟩ := List.append_inj' heq rfl
    exact h pre x post' htrace

/-- The step `q` of the trace is an observation in the same call as `e`, and only single-step calls
have changed the state since. -/
structure Rests (script : κ → Script σ ω τ ρ) (pre : List (Entry ι κ σ τ ρ))
    (q e : Entry ι κ σ τ ρ) : Prop where
  /-- It is the same client's. -/
  client : q.client = e.client
  /-- It belongs to the same call. -/
  call : q.call = e.call
  /-- It is an observation. -/
  kind : q.kind = .observe
  /-- It is the last one before. -/
  trace : ∃ pre', pre = pre' ++ q :: window e.client pre
  /-- The steps in between lead from what it saw to the state at `e`. -/
  chain : Chain q.before (window e.client pre) e.before
  /-- They are those of single-step calls. -/
  plain : ∀ e' ∈ window e.client pre, e'.Plain script

/-- What a write rests on: its client's observation of the state, on which it decided to write, and
from which only single-step calls lead to the state that the write is applied to. -/
def WriteFrom [LE τ] (script : κ → Script σ ω τ ρ) (pre : List (Entry ι κ σ τ ρ))
    (e : Entry ι κ σ τ ρ) : Prop :=
  ∀ r, e.kind = .write r → ∃ obs dec q t f, script e.call = .locked obs dec ∧
    Rests script pre q e ∧ q.clock ≤ t ∧ t ≤ e.clock ∧ dec t (obs q.clock q.before) = .inr f ∧
    f e.clock e.before = (r, e.after)

/-- Every transition that adds a write to the trace adds one that rests on an observation. -/
theorem Step.writeFrom [Preorder τ] {m m' : Machine ι κ σ ω τ ρ} {ch : Choice ι τ}
    (hstep : Step script m ch m') (hinf : m.Informed script)
    (h : Along (WriteFrom script) m.trace) : Along (WriteFrom script) m'.trace := by
  cases hstep with
  | tick t free later => exact h
  | drift t later => exact h
  | once i c rest todo unlocked => exact h.concat fun r hr => by cases hr
  | acquire i c rest todo locked idle free => exact h.concat fun r hr => by cases hr
  | observe i c rest todo obs dec locked acquired => exact h.concat fun r hr => by cases hr
  | answer i c rest todo obs dec locked o observed r answers =>
    exact h.concat fun r hr => by cases hr
  | decide i c rest todo obs dec locked o observed f writes =>
    exact h.concat fun r hr => by cases hr
  | write i c rest todo locked f writing =>
    refine h.concat fun r hr => ?_
    obtain ⟨obs, dec, hs⟩ : ∃ obs dec, script c = .locked obs dec := by
      cases hs : script c with
      | locked obs dec => exact ⟨obs, dec, rfl⟩
      | _ => rw [hs] at locked; exact Bool.noConfusion locked
    obtain ⟨q, t, hsaw, hle, hle', hf⟩ := (hinf i c rest todo obs dec hs).2 f writing
    obtain rfl : (f m.clock m.store).1 = r := by simpa using hr
    exact ⟨obs, dec, q, t, f, hs,
      ⟨hsaw.client, hsaw.call, hsaw.kind, hsaw.trace, hsaw.chain, hsaw.plain⟩, hle, hle', hf, rfl⟩
  | release i c rest todo locked r finished => exact h.concat fun r hr => by cases hr

/-- In every run, every write of the trace rests on an observation by its client: the two states
differ only by the single-step calls in between. -/
theorem write_window [Preorder τ] [DecidableLE τ] {program : ι → List κ} {s : σ} {t : τ}
    {sched : List (Choice ι τ)} {m : Machine ι κ σ ω τ ρ}
    (hrun : run script (.init program s t) sched = some m) : Along (WriteFrom script) m.trace := by
  suffices h : m.WellFormed script ∧ m.Informed script ∧ Along (WriteFrom script) m.trace from h.2.2
  refine run_induction (motive := fun m => m.WellFormed script ∧ m.Informed script ∧
    Along (WriteFrom script) m.trace) hrun ⟨Machine.init_wellFormed .., ?_, ?_⟩ ?_
  · intro i c rest htodo obs dec hs
    simp [Machine.init]
  · intro pre e post htrace
    simp [Machine.init] at htrace
  · rintro ch - m₁ m₂ ⟨hwf, hinf, htr⟩ hstep
    exact ⟨hstep.wellFormed hwf, hstep.informed hwf hinf, hstep.writeFrom hinf htr⟩

end Machine

end CacheServer.Guarded
