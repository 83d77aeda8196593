import CacheServer.Lib.Guarded
import Mathlib.Order.Lattice

/-!
# Calls under one mutex are serializable

When all writes are made under the mutex and the clock stands still while it is held, an interleaved
run of `Guarded.lean` is equivalent to its calls run whole, one after another (`serializable`). The
serial order is the order of the steps that bind each call to its answer, the `commits` of the
trace: a call without the mutex is placed at its one step, and a call with it at its write, or at
the step that decides not to write. So a read stands before every call whose write has not yet
happened.

What carries the proof is `Machine.Current`: the client that has the mutex has seen the state as it
still is, since only it could have changed it. The other invariants account for the calls one by
one: those in the serial order and those still to be made are the client's program (`Accounts`),
and the calls of the serial order that take the mutex are those that have acquired it (`Ordered`).
-/

namespace CacheServer.Guarded

/-- A call in the serial order: whose it is, when it takes effect, and what it answers. -/
structure Commit (ι κ τ ρ : Type) where
  /-- Whose it is. -/
  client : ι
  /-- The call. -/
  call : κ
  /-- When it takes effect. -/
  clock : τ
  /-- What it answers. -/
  reply : ρ
deriving DecidableEq

/-- The call that a step binds to its answer. -/
def Entry.commit? {ι κ σ τ ρ : Type} (e : Entry ι κ σ τ ρ) : Option (Commit ι κ τ ρ) :=
  e.kind.reply?.map fun r => ⟨e.client, e.call, e.clock, r⟩

/-- The calls of a trace in the order in which they are bound to their answers. -/
def commits {ι κ σ τ ρ : Type} (trace : List (Entry ι κ σ τ ρ)) : List (Commit ι κ τ ρ) :=
  trace.filterMap Entry.commit?

/-- The acquisition of the mutex, as the client and the call that it is for. -/
def Entry.acquired? {ι κ σ τ ρ : Type} (e : Entry ι κ σ τ ρ) : Option (ι × κ) :=
  match e.kind with
  | .acquire => some (e.client, e.call)
  | _ => none

/-- The acquisitions of the mutex in order. -/
def acquisitions {ι κ σ τ ρ : Type} (trace : List (Entry ι κ σ τ ρ)) : List (ι × κ) :=
  trace.filterMap Entry.acquired?

/-- Calls run whole one after another, each at its time: their answers and the state they leave. -/
def serial {κ σ ω τ ρ : Type} (script : κ → Script σ ω τ ρ) (s : σ) : List (τ × κ) → List ρ × σ
  | [] => ([], s)
  | (t, c) :: calls =>
    let (r, s') := (script c).whole t s
    let (rs, s'') := serial script s' calls
    (r :: rs, s'')

/-- The call writes the state without the mutex. -/
def Script.isWrite {σ ω τ ρ : Type} : Script σ ω τ ρ → Bool
  | .write _ => true
  | _ => false

section Serial

variable {ι κ σ ω τ ρ : Type} [DecidableEq ι] {script : κ → Script σ ω τ ρ}

/-- One more call at the end of a serial run. -/
theorem serial_concat (s : σ) (calls : List (τ × κ)) (t : τ) (c : κ) :
    serial script s (calls ++ [(t, c)]) =
      ((serial script s calls).1 ++ [((script c).whole t (serial script s calls).2).1],
        ((script c).whole t (serial script s calls).2).2) := by
  induction calls generalizing s with
  | nil => simp [serial]
  | cons x xs ih =>
    obtain ⟨t', c'⟩ := x
    simp [serial, ih]

/-- The call and the time of a commit. -/
def Commit.timed (c : Commit ι κ τ ρ) : τ × κ := (c.clock, c.call)

/-- The calls of a client that are not in the serial order yet. -/
def Thread.remaining (th : Thread κ σ ω τ ρ) : List κ :=
  match th.phase with
  | .finished _ => th.todo.tail
  | _ => th.todo

/-- The answer of a call that is in the serial order and has not returned yet. -/
def Thread.owed (th : Thread κ σ ω τ ρ) : List ρ :=
  match th.phase with
  | .finished r => [r]
  | _ => []

/-- The call that has the mutex and is not in the serial order yet. -/
def Thread.uncommitted (th : Thread κ σ ω τ ρ) : List κ :=
  match th.phase with
  | .acquired | .observed _ | .writing _ => th.todo.head?.toList
  | _ => []

/-- The acquisition of the mutex whose call is not in the serial order yet. -/
def Machine.pending (m : Machine ι κ σ ω τ ρ) : List (ι × κ) :=
  match m.owner with
  | none => []
  | some i => (m.thread i).uncommitted.map fun c => (i, c)

/-! ## The steps of a trace, as commits and acquisitions -/

/-- A step adds its answer to the serial order, if it gives one. -/
@[simp]
theorem commits_advance (m : Machine ι κ σ ω τ ρ) (i : ι) (c : κ) (kind : StepKind ρ)
    (th : Thread κ σ ω τ ρ) (owner : Option ι) (s : σ) :
    commits (m.advance i c kind th owner s).trace =
      commits m.trace ++ kind.reply?.toList.map fun r => ⟨i, c, m.clock, r⟩ := by
  cases h : kind.reply? <;> simp [commits, Machine.advance, Entry.commit?, h]

/-- A step adds its call to the acquisitions, if it acquires the mutex. -/
@[simp]
theorem acquisitions_advance (m : Machine ι κ σ ω τ ρ) (i : ι) (c : κ) (kind : StepKind ρ)
    (th : Thread κ σ ω τ ρ) (owner : Option ι) (s : σ) :
    acquisitions (m.advance i c kind th owner s).trace =
      acquisitions m.trace ++ match kind with
        | .acquire => [(i, c)]
        | _ => [] := by
  cases kind <;> simp [acquisitions, Machine.advance, Entry.acquired?]

/-- A step leaves its client where it says. -/
@[simp]
theorem advance_thread_self (m : Machine ι κ σ ω τ ρ) (i : ι) (c : κ) (kind : StepKind ρ)
    (th : Thread κ σ ω τ ρ) (owner : Option ι) (s : σ) :
    (m.advance i c kind th owner s).thread i = th := by
  simp [Machine.advance]

/-- It leaves the other clients alone. -/
theorem advance_thread_of_ne (m : Machine ι κ σ ω τ ρ) {i j : ι} (h : j ≠ i) (c : κ)
    (kind : StepKind ρ) (th : Thread κ σ ω τ ρ) (owner : Option ι) (s : σ) :
    (m.advance i c kind th owner s).thread j = m.thread j := by
  simp [Machine.advance, Function.update_of_ne h]

/-! ## The state that the owner has seen -/

/-- No call still to be made writes without the mutex. -/
def Machine.Guards (script : κ → Script σ ω τ ρ) (m : Machine ι κ σ ω τ ρ) : Prop :=
  ∀ i, ∀ c ∈ (m.thread i).todo, (script c).isWrite = false

/-- Every client inside a call has seen the state as it is now, at the present time. -/
def Machine.Current (script : κ → Script σ ω τ ρ) (m : Machine ι κ σ ω τ ρ) : Prop :=
  ∀ i c rest, (m.thread i).todo = c :: rest → ∀ obs dec, script c = .locked obs dec →
    (∀ o, (m.thread i).phase = .observed o → o = obs m.clock m.store) ∧
    (∀ f, (m.thread i).phase = .writing f → dec m.clock (obs m.clock m.store) = .inr f)

omit [DecidableEq ι] in
/-- A call without the mutex that does not write leaves the state alone. -/
theorem Script.whole_state_of_quiet {x : Script σ ω τ ρ} (hl : x.isLocked = false)
    (hw : x.isWrite = false) (t : τ) (s : σ) : (x.whole t s).2 = s := by
  cases x with
  | answer r => rfl
  | read f => rfl
  | write f => exact Bool.noConfusion hw
  | locked obs dec => exact Bool.noConfusion hl

/-- The calls still to be made only get fewer. -/
theorem Step.guards [LE τ] {m m' : Machine ι κ σ ω τ ρ} {ch : Choice ι τ}
    (hstep : Step script m ch m') (h : m.Guards script) : m'.Guards script := by
  have key : ∀ (i : ι) (c : κ) (kind : StepKind ρ) (th : Thread κ σ ω τ ρ) (owner : Option ι)
      (s : σ), (∀ c ∈ th.todo, c ∈ (m.thread i).todo) →
        (m.advance i c kind th owner s).Guards script := by
    intro i c kind th owner s hsub j c' hc'
    by_cases hj : j = i
    · subst hj
      rw [advance_thread_self] at hc'
      exact h j c' (hsub c' hc')
    · rw [advance_thread_of_ne _ hj] at hc'
      exact h j c' hc'
  cases hstep with
  | tick | drift => exact h
  | once | release => exact key _ _ _ _ _ _ fun c hc => List.mem_of_mem_tail hc
  | acquire | observe | answer | decide | write => exact key _ _ _ _ _ _ fun c hc => hc

/-- A step of another client that leaves the state alone, or that finds no one inside a call, leaves
what a client has seen current. -/
theorem Machine.Current.of_other {m : Machine ι κ σ ω τ ρ} (h : m.Current script) {j : ι} {c : κ}
    {kind : StepKind ρ} {th : Thread κ σ ω τ ρ} {owner : Option ι} {s : σ}
    (hs : s = m.store ∨ ∀ i, i ≠ j → (m.thread i).phase = .idle)
    (hown : ∀ c rest, th.todo = c :: rest → ∀ obs dec, script c = .locked obs dec →
      (∀ o, th.phase = .observed o → o = obs m.clock s) ∧
      (∀ f, th.phase = .writing f → dec m.clock (obs m.clock s) = .inr f)) :
    (m.advance j c kind th owner s).Current script := by
  intro i c' rest' htodo obs dec hscript
  by_cases hi : i = j
  · subst hi
    rw [advance_thread_self] at htodo ⊢
    exact hown c' rest' htodo obs dec hscript
  · rw [advance_thread_of_ne _ hi] at htodo ⊢
    rcases hs with rfl | hidle
    · exact h i c' rest' htodo obs dec hscript
    · simp [hidle i hi]

/-- Every transition but `drift` leaves what the owner has seen current. -/
theorem Step.current [LE τ] {m m' : Machine ι κ σ ω τ ρ} {ch : Choice ι τ}
    (hstep : Step script m ch m') (hch : ∀ t, ch ≠ .drift t) (hwf : m.WellFormed script)
    (hguards : m.Guards script) (h : m.Current script) : m'.Current script := by
  cases hstep with
  | tick t free later =>
    -- The mutex is free, so no client is inside a call.
    intro i c rest htodo obs dec hs
    have hidle : (m.thread i).phase = .idle := by
      by_contra hp
      have := (hwf.owner_iff i).mpr hp
      rw [free] at this
      cases this
    simp [hidle]
  | drift t later => exact absurd rfl (hch t)
  | once j c rest todo unlocked =>
    -- Without the mutex there are only reads, which leave the state alone.
    have hw : (script c).isWrite = false := hguards j c (by rw [todo]; simp)
    refine h.of_other (.inl (Script.whole_state_of_quiet unlocked hw _ _)) ?_
    simp [Thread.complete]
  | acquire j c rest todo locked idle free =>
    exact h.of_other (.inl rfl) (by simp [Thread.enter])
  | observe j c rest todo obs dec locked acquired =>
    refine h.of_other (.inl rfl) fun c' rest' htodo obs' dec' hs => ?_
    obtain ⟨rfl, rfl⟩ : c = c' ∧ rest = rest' := by simpa [Thread.enter, todo] using htodo
    obtain ⟨rfl, rfl⟩ : obs = obs' ∧ dec = dec' := by simpa [hs] using locked.symm
    simp [Thread.enter]
  | answer j c rest todo obs dec locked o observed r answers =>
    exact h.of_other (.inl rfl) (by simp [Thread.enter])
  | decide j c rest todo obs dec locked o observed f writes =>
    refine h.of_other (.inl rfl) fun c' rest' htodo obs' dec' hs => ?_
    obtain ⟨rfl, rfl⟩ : c = c' ∧ rest = rest' := by simpa [Thread.enter, todo] using htodo
    obtain ⟨rfl, rfl⟩ : obs = obs' ∧ dec = dec' := by simpa [hs] using locked.symm
    obtain rfl := (h j c rest todo obs dec hs).1 o observed
    simp [Thread.enter, writes]
  | write j c rest todo locked f writing =>
    -- The state changes, but no one else has seen it.
    have howner := hwf.owner_of_phase writing (by simp)
    exact h.of_other (.inr fun k hk => hwf.idle_of_ne howner hk) (by simp [Thread.enter])
  | release j c rest todo locked r finished =>
    exact h.of_other (.inl rfl) (by simp [Thread.complete])

/-! ## The serial run -/

/-- The calls in the serial order, run whole, give the answers that they are bound to and the
present state. -/
def Machine.Replays (script : κ → Script σ ω τ ρ) (s₀ : σ) (m : Machine ι κ σ ω τ ρ) : Prop :=
  serial script s₀ ((commits m.trace).map Commit.timed) =
    ((commits m.trace).map Commit.reply, m.store)

/-- A step that binds a call to the answer it has when run whole keeps the serial run in step. -/
theorem Machine.Replays.commit {s₀ : σ} {m : Machine ι κ σ ω τ ρ} (h : m.Replays script s₀) (i : ι)
    (c : κ) {kind : StepKind ρ} (th : Thread κ σ ω τ ρ) (owner : Option ι) {r : ρ} {s : σ}
    (hkind : kind.reply? = some r) (hwhole : (script c).whole m.clock m.store = (r, s)) :
    (m.advance i c kind th owner s).Replays script s₀ := by
  unfold Machine.Replays at h ⊢
  simp only [commits_advance, hkind, Option.toList_some, List.map_cons, List.map_nil,
    List.map_append]
  rw [serial_concat, h]
  simp [hwhole, Machine.advance, Commit.timed]

/-- A step that binds no call and leaves the state alone keeps the serial run in step. -/
theorem Machine.Replays.silent {s₀ : σ} {m : Machine ι κ σ ω τ ρ} (h : m.Replays script s₀) (i : ι)
    (c : κ) {kind : StepKind ρ} (th : Thread κ σ ω τ ρ) (owner : Option ι)
    (hkind : kind.reply? = none) : (m.advance i c kind th owner m.store).Replays script s₀ := by
  unfold Machine.Replays at h ⊢
  rw [commits_advance, hkind]
  simpa [Machine.advance] using h

/-- Every transition keeps the serial run in step, as long as what the owner has seen is current. -/
theorem Step.replays [LE τ] {s₀ : σ} {m m' : Machine ι κ σ ω τ ρ} {ch : Choice ι τ}
    (hstep : Step script m ch m') (hcur : m.Current script) (h : m.Replays script s₀) :
    m'.Replays script s₀ := by
  cases hstep with
  | tick | drift => exact h
  | once i c rest todo unlocked => exact h.commit i c _ _ rfl rfl
  | acquire | observe | decide | release => exact h.silent _ _ _ _ rfl
  | answer i c rest todo obs dec locked o observed r answers =>
    -- What the client observed is the present state, so the whole call gives the same answer now.
    obtain rfl := (hcur i c rest todo obs dec locked).1 o observed
    exact h.commit i c _ _ rfl (by simp [locked, Script.whole, answers])
  | write i c rest todo locked f writing =>
    cases hs : script c with
    | locked obs dec =>
      -- The decision was made on the present state, so the whole call makes the same write now.
      have hdec := (hcur i c rest todo obs dec hs).2 f writing
      exact h.commit i c _ _ rfl (by simp [hs, Script.whole, hdec])
    | _ => rw [hs] at locked; exact Bool.noConfusion locked

/-! ## The calls of each client -/

/-- The calls of a client in the serial order. -/
def ofClient (i : ι) (cs : List (Commit ι κ τ ρ)) : List (Commit ι κ τ ρ) :=
  cs.filter fun c => c.client = i

/-- Each client's program is its calls in the serial order and then those that remain, and its
answers are those of the serial order, as far as they are given. -/
def Machine.Accounts (program : ι → List κ) (m : Machine ι κ σ ω τ ρ) : Prop :=
  ∀ i, program i = (ofClient i (commits m.trace)).map Commit.call ++ (m.thread i).remaining ∧
    (ofClient i (commits m.trace)).map Commit.reply = (m.thread i).replies ++ (m.thread i).owed

/-- A step accounts for the calls when it does so for its own client. -/
theorem Machine.Accounts.advance {program : ι → List κ} {m : Machine ι κ σ ω τ ρ}
    (h : m.Accounts program) (j : ι) (c : κ) (kind : StepKind ρ) (th : Thread κ σ ω τ ρ)
    (owner : Option ι) (s : σ)
    (hcalls : (m.thread j).remaining = kind.reply?.toList.map (fun _ => c) ++ th.remaining)
    (hreplies : (m.thread j).replies ++ (m.thread j).owed ++ kind.reply?.toList =
      th.replies ++ th.owed) :
    (m.advance j c kind th owner s).Accounts program := by
  intro i
  obtain ⟨hprog, hrep⟩ := h i
  by_cases hi : i = j
  · subst hi
    rw [advance_thread_self, commits_advance]
    cases hk : kind.reply? with
    | none =>
      rw [hk] at hcalls hreplies
      simp only [Option.toList_none, List.map_nil, List.append_nil, List.nil_append]
        at hcalls hreplies ⊢
      exact ⟨by rw [hprog, hcalls], by rw [hrep, hreplies]⟩
    | some r =>
      rw [hk] at hcalls hreplies
      simp only [Option.toList_some, List.map_cons, List.map_nil] at hcalls hreplies ⊢
      constructor
      · rw [hprog, hcalls]
        simp [ofClient]
      · rw [← hreplies, ← hrep]
        simp [ofClient]
  · -- The commit, if there is one, is another client's.
    rw [advance_thread_of_ne _ hi, commits_advance]
    cases hk : kind.reply? with
    | none => simpa using ⟨hprog, hrep⟩
    | some r =>
      simp only [ofClient, Option.toList_some, List.map_cons, List.map_nil, List.filter_append,
        List.filter_cons, List.filter_nil, Ne.symm hi, decide_false, Bool.false_eq_true, if_false,
        List.append_nil]
      exact ⟨hprog, hrep⟩

/-- Every transition accounts for the calls. -/
theorem Step.accounts [LE τ] {program : ι → List κ} {m m' : Machine ι κ σ ω τ ρ} {ch : Choice ι τ}
    (hstep : Step script m ch m') (hwf : m.WellFormed script) (h : m.Accounts program) :
    m'.Accounts program := by
  cases hstep with
  | tick | drift => exact h
  | once i c rest todo unlocked =>
    have hidle : (m.thread i).phase = .idle := by
      by_contra hp
      exact hwf.owner_ne todo unlocked ((hwf.owner_iff i).mpr hp)
    refine h.advance i c _ _ _ _ ?_ ?_
    · simp [StepKind.reply?, Thread.remaining, Thread.complete, hidle, todo]
    · simp [StepKind.reply?, Thread.owed, Thread.complete, hidle]
  | acquire i c rest todo locked idle free =>
    refine h.advance i c _ _ _ _ ?_ ?_
    · simp [StepKind.reply?, Thread.remaining, Thread.enter, idle]
    · simp [StepKind.reply?, Thread.owed, Thread.enter, idle]
  | observe i c rest todo obs dec locked acquired =>
    refine h.advance i c _ _ _ _ ?_ ?_
    · simp [StepKind.reply?, Thread.remaining, Thread.enter, acquired]
    · simp [StepKind.reply?, Thread.owed, Thread.enter, acquired]
  | answer i c rest todo obs dec locked o observed r answers =>
    refine h.advance i c _ _ _ _ ?_ ?_
    · simp [StepKind.reply?, Thread.remaining, Thread.enter, observed, todo]
    · simp [StepKind.reply?, Thread.owed, Thread.enter, observed]
  | decide i c rest todo obs dec locked o observed f writes =>
    refine h.advance i c _ _ _ _ ?_ ?_
    · simp [StepKind.reply?, Thread.remaining, Thread.enter, observed]
    · simp [StepKind.reply?, Thread.owed, Thread.enter, observed]
  | write i c rest todo locked f writing =>
    refine h.advance i c _ _ _ _ ?_ ?_
    · simp [StepKind.reply?, Thread.remaining, Thread.enter, writing, todo]
    · simp [StepKind.reply?, Thread.owed, Thread.enter, writing]
  | release i c rest todo locked r finished =>
    refine h.advance i c _ _ _ _ ?_ ?_
    · simp [StepKind.reply?, Thread.remaining, Thread.complete, finished, todo]
    · simp [StepKind.reply?, Thread.owed, Thread.complete, finished]

/-! ## The order of the mutex and of the clock -/

/-- The calls of the serial order that take the mutex, with their clients. -/
def lockOrder (script : κ → Script σ ω τ ρ) (cs : List (Commit ι κ τ ρ)) : List (ι × κ) :=
  (cs.filter fun c => (script c.call).isLocked).map fun c => (c.client, c.call)

/-- The acquisitions of the mutex are the calls of the serial order that take it, in order, and
then the one that is pending. -/
def Machine.Ordered (script : κ → Script σ ω τ ρ) (m : Machine ι κ σ ω τ ρ) : Prop :=
  acquisitions m.trace = lockOrder script (commits m.trace) ++ m.pending

omit [DecidableEq ι] in
/-- The pending call is that of the client that has the mutex. -/
theorem Machine.pending_of_owner {m : Machine ι κ σ ω τ ρ} {i : ι} (h : m.owner = some i) :
    m.pending = (m.thread i).uncommitted.map fun c => (i, c) := by
  simp [Machine.pending, h]

/-- A step of the client that has the mutex and keeps it. -/
theorem Machine.Ordered.advance_owner {m : Machine ι κ σ ω τ ρ} (h : m.Ordered script) {i : ι}
    (howner : m.owner = some i) {c : κ} (hl : (script c).isLocked = true) {kind : StepKind ρ}
    {th : Thread κ σ ω τ ρ} (s : σ) (hkind : ∀ t : Machine ι κ σ ω τ ρ,
      acquisitions (t.advance i c kind th m.owner s).trace = acquisitions t.trace)
    (hpending : (m.thread i).uncommitted = kind.reply?.toList.map (fun _ => c) ++ th.uncommitted) :
    (m.advance i c kind th m.owner s).Ordered script := by
  have hown' : (m.advance i c kind th m.owner s).owner = some i := howner
  unfold Machine.Ordered at h ⊢
  rw [hkind m, h, Machine.pending_of_owner howner, Machine.pending_of_owner hown', hpending,
    advance_thread_self, commits_advance]
  cases kind.reply? with
  | none => simp
  | some r => simp [lockOrder, hl]

/-- Every transition keeps the order of the mutex. -/
theorem Step.ordered [LE τ] {m m' : Machine ι κ σ ω τ ρ} {ch : Choice ι τ}
    (hstep : Step script m ch m') (hwf : m.WellFormed script) (h : m.Ordered script) :
    m'.Ordered script := by
  cases hstep with
  | tick | drift => exact h
  | once i c rest todo unlocked =>
    -- The client does not have the mutex, so the pending call is another's.
    have hpending : ∀ r s, (m.advance i c (.once r) ((m.thread i).complete r) m.owner s).pending =
        m.pending := by
      intro r s
      cases hown : m.owner with
      | none => simp [Machine.pending, Machine.advance, hown]
      | some j =>
        have hj : j ≠ i := by
          rintro rfl
          exact hwf.owner_ne todo unlocked hown
        have hown' :
            (m.advance i c (.once r) ((m.thread i).complete r) (some j) s).owner = some j := rfl
        rw [Machine.pending_of_owner hown', Machine.pending_of_owner hown,
          advance_thread_of_ne _ hj]
    unfold Machine.Ordered at h ⊢
    rw [hpending, acquisitions_advance, commits_advance]
    simp [h, StepKind.reply?, lockOrder, unlocked]
  | acquire i c rest todo locked idle free =>
    -- The mutex was free, so nothing was pending, and the call is pending now.
    unfold Machine.Ordered at h ⊢
    rw [acquisitions_advance, commits_advance, h]
    simp [Machine.pending, free, Machine.advance, StepKind.reply?, Thread.uncommitted, Thread.enter,
      todo]
  | observe i c rest todo obs dec locked acquired =>
    refine h.advance_owner (hwf.owner_of_phase acquired (by simp)) (by rw [locked]; rfl) _
      (by simp) ?_
    simp [Thread.uncommitted, Thread.enter, acquired, StepKind.reply?]
  | answer i c rest todo obs dec locked o observed r answers =>
    refine h.advance_owner (hwf.owner_of_phase observed (by simp)) (by rw [locked]; rfl) _
      (by simp) ?_
    simp [Thread.uncommitted, Thread.enter, observed, StepKind.reply?, todo]
  | decide i c rest todo obs dec locked o observed f writes =>
    refine h.advance_owner (hwf.owner_of_phase observed (by simp)) (by rw [locked]; rfl) _
      (by simp) ?_
    simp [Thread.uncommitted, Thread.enter, observed, StepKind.reply?]
  | write i c rest todo locked f writing =>
    refine h.advance_owner (hwf.owner_of_phase writing (by simp)) locked _ (by simp) ?_
    simp [Thread.uncommitted, Thread.enter, writing, StepKind.reply?, todo]
  | release i c rest todo locked r finished =>
    -- The call has been in the serial order since it was bound to its answer.
    unfold Machine.Ordered at h ⊢
    rw [acquisitions_advance, commits_advance, h,
      Machine.pending_of_owner (hwf.owner_of_phase finished (by simp))]
    simp [Machine.pending, Machine.advance, StepKind.reply?, Thread.uncommitted, finished]

/-- The calls of the serial order take effect at times that do not decrease, and none after the
present. -/
def Machine.Timely [LE τ] (m : Machine ι κ σ ω τ ρ) : Prop :=
  ((commits m.trace).map Commit.clock).Pairwise (· ≤ ·) ∧ ∀ c ∈ commits m.trace, c.clock ≤ m.clock

/-- Every transition keeps the order of the clock. -/
theorem Step.timely [Preorder τ] {m m' : Machine ι κ σ ω τ ρ} {ch : Choice ι τ}
    (hstep : Step script m ch m') (h : m.Timely) : m'.Timely := by
  have key : ∀ (i : ι) (c : κ) (kind : StepKind ρ) (th : Thread κ σ ω τ ρ) (owner : Option ι)
      (s : σ), (m.advance i c kind th owner s).Timely := by
    intro i c kind th owner s
    obtain ⟨hsorted, hle⟩ := h
    unfold Machine.Timely
    rw [commits_advance]
    cases kind.reply? with
    | none => simpa [Machine.advance] using ⟨hsorted, hle⟩
    | some r =>
      -- The new commit has the present time, and all others are no later.
      constructor
      · simp only [List.map_append, List.pairwise_append]
        refine ⟨hsorted, by simp, ?_⟩
        intro a ha b hb
        obtain ⟨x, hx, rfl⟩ := List.mem_map.mp ha
        simp only [Option.toList_some, List.map_cons, List.map_nil, List.mem_singleton] at hb
        subst hb
        exact hle x hx
      · intro x hx
        simp only [List.mem_append, Option.toList_some, List.map_cons, List.map_nil,
          List.mem_singleton] at hx
        rcases hx with hx | rfl
        · exact hle x hx
        · exact le_refl _
  cases hstep with
  | tick t free later => exact ⟨h.1, fun c hc => (h.2 c hc).trans later⟩
  | drift t later => exact ⟨h.1, fun c hc => (h.2 c hc).trans later⟩
  | once | acquire | observe | answer | decide | write | release => exact key ..

/-! ## Serializability -/

/-- Every run in which all the clients have made all their calls, all writes are made under the
mutex, and the clock stands still while it is held, is equivalent to a serial one. Run whole, one
after another in the order of the commits and at their times, the calls give every client the
answers that it had, and leave the same state. That order keeps each client's program and the order
of the mutex, and its times do not decrease. -/
theorem serializable [Preorder τ] [DecidableLE τ] {program : ι → List κ} {s₀ : σ} {t₀ : τ}
    {sched : List (Choice ι τ)} {m : Machine ι κ σ ω τ ρ}
    (hrun : run script (.init program s₀ t₀) sched = some m)
    (hguards : ∀ i, ∀ c ∈ program i, (script c).isWrite = false)
    (hsteady : ∀ t, Choice.drift t ∉ sched) (hdone : ∀ i, (m.thread i).todo = []) :
    serial script s₀ ((commits m.trace).map Commit.timed) =
        ((commits m.trace).map Commit.reply, m.store) ∧
      (∀ i, (ofClient i (commits m.trace)).map Commit.call = program i ∧
        (ofClient i (commits m.trace)).map Commit.reply = (m.thread i).replies) ∧
      lockOrder script (commits m.trace) = acquisitions m.trace ∧
      ((commits m.trace).map Commit.clock).Pairwise (· ≤ ·) := by
  have hinv : m.WellFormed script ∧ m.Guards script ∧ m.Current script ∧ m.Replays script s₀ ∧
      m.Accounts program ∧ m.Ordered script ∧ m.Timely := by
    refine run_induction (motive := fun m => m.WellFormed script ∧ m.Guards script ∧
      m.Current script ∧ m.Replays script s₀ ∧ m.Accounts program ∧ m.Ordered script ∧ m.Timely)
      hrun ⟨Machine.init_wellFormed .., hguards, ?_, rfl, ?_, rfl, ?_⟩ ?_
    · intro i c rest htodo obs dec hs
      simp [Machine.init]
    · intro i
      simp [Machine.init, commits, ofClient, Thread.remaining, Thread.owed]
    · simp [Machine.Timely, Machine.init, commits]
    · rintro ch hch m₁ m₂ ⟨hwf, hg, hcur, hrep, hacc, hord, htim⟩ hstep
      have hne : ∀ t, ch ≠ .drift t := by
        rintro t rfl
        exact hsteady t hch
      exact ⟨hstep.wellFormed hwf, hstep.guards hg, hstep.current hne hwf hg hcur,
        hstep.replays hcur hrep, hstep.accounts hwf hacc, hstep.ordered hwf hord,
        hstep.timely htim⟩
  obtain ⟨hwf, -, -, hrep, hacc, hord, htim⟩ := hinv
  -- A client with no call left is outside any call, so nothing is owed and nothing pending.
  have hidle : ∀ i, (m.thread i).phase = .idle := by
    intro i
    by_contra hp
    obtain ⟨c, rest, htodo, -⟩ := hwf.holds i ((hwf.owner_iff i).mpr hp)
    rw [hdone i] at htodo
    cases htodo
  have hfree : m.owner = none := by
    cases hown : m.owner with
    | none => rfl
    | some i => exact absurd (hidle i) ((hwf.owner_iff i).mp hown)
  refine ⟨hrep, fun i => ?_, ?_, htim.1⟩
  · obtain ⟨hprog, hreplies⟩ := hacc i
    rw [hprog, hreplies]
    simp [Thread.remaining, Thread.owed, hidle i, hdone i]
  · rw [hord]
    simp [Machine.pending, hfree]

end Serial

end CacheServer.Guarded
