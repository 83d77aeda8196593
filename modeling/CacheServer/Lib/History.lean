import CacheServer.Lib.Serial
import Mathlib.Data.List.Induction

/-!
# Histories of calls under one mutex

`serializable` is about the end of a run, when all the clients have made all their calls. A safety
property is about every state on the way, so here the same invariants are read at any point of a
run (`run_serialized`). The calls that have been bound to their answers there are a history: run
whole in their order and at their times, they have the answers that they were given, and lead to the
present state.

So what each whole call keeps of a history and a state holds in every reachable state
(`Serialized.induction`), and of the state that each call of the history took effect in
(`Serialized.call_induction`).
-/

namespace CacheServer.Guarded

/-! ## Serial runs -/

section Serial

variable {ι κ σ ω τ ρ : Type} {script : κ → Script σ ω τ ρ}

/-- What each whole call keeps of the history and the state holds at the end of a serial run in
which the calls have the answers of the history. -/
theorem serial_induction {motive : List (Commit ι κ τ ρ) → σ → Prop} {s₀ : σ}
    {order : List (Commit ι κ τ ρ)}
    (hreplies : (serial script s₀ (order.map Commit.timed)).1 = order.map Commit.reply)
    (hnil : motive [] s₀)
    (hstep : ∀ past c s, past ++ [c] <+: order → motive past s →
      ((script c.call).whole c.clock s).1 = c.reply →
      motive (past ++ [c]) ((script c.call).whole c.clock s).2) :
    motive order (serial script s₀ (order.map Commit.timed)).2 := by
  induction order using List.reverseRecOn with
  | nil => exact hnil
  | append_singleton past c ih =>
    have htimed :
        (past ++ [c]).map Commit.timed = past.map Commit.timed ++ [(c.clock, c.call)] := by
      simp [Commit.timed]
    rw [htimed, serial_concat] at hreplies ⊢
    simp only [List.map_append, List.map_cons, List.map_nil] at hreplies
    obtain ⟨hpast, hlast⟩ := List.append_inj' hreplies rfl
    refine hstep past c _ (List.prefix_refl _) (ih hpast fun past' c' s hinitial => ?_) ?_
    · exact hstep past' c' s (hinitial.trans (List.prefix_append past [c]))
    · simpa using hlast

/-- A serial run of the first calls is the first part of the serial run. -/
theorem serial_of_prefix {s₀ : σ} {past order : List (Commit ι κ τ ρ)} (h : past <+: order)
    (hreplies : (serial script s₀ (order.map Commit.timed)).1 = order.map Commit.reply) :
    (serial script s₀ (past.map Commit.timed)).1 = past.map Commit.reply := by
  obtain ⟨rest, rfl⟩ := h
  induction rest using List.reverseRecOn with
  | nil => simpa using hreplies
  | append_singleton rest c ih =>
    refine ih ?_
    have htimed : (past ++ (rest ++ [c])).map Commit.timed =
        (past ++ rest).map Commit.timed ++ [(c.clock, c.call)] := by
      simp [Commit.timed]
    have hreply : (past ++ (rest ++ [c])).map Commit.reply =
        (past ++ rest).map Commit.reply ++ [c.reply] := by
      simp
    rw [htimed, serial_concat, hreply] at hreplies
    exact (List.append_inj' hreplies rfl).1

end Serial

/-! ## Reachable states -/

section History

variable {ι κ σ ω τ ρ : Type} [DecidableEq ι] {script : κ → Script σ ω τ ρ}

/-- A history that leads from the state `s₀` at the time `t₀` to the machine `m`, by the first calls
of every client's program. The answers that a client has had are those of the history. -/
structure Serialized [LE τ] (script : κ → Script σ ω τ ρ) (program : ι → List κ) (s₀ : σ) (t₀ : τ)
    (m : Machine ι κ σ ω τ ρ) : Prop where
  /-- Run one after another, its calls give its answers and the present state. -/
  replays : serial script s₀ ((commits m.trace).map Commit.timed) =
    ((commits m.trace).map Commit.reply, m.store)
  /-- Its calls are those of the clients' programs. -/
  programmed : ∀ c ∈ commits m.trace, c.call ∈ program c.client
  /-- Every client has made the first calls of its program, and has had the first answers. -/
  answered : ∀ i, (ofClient i (commits m.trace)).map Commit.call <+: program i ∧
    (m.thread i).replies <+: (ofClient i (commits m.trace)).map Commit.reply
  /-- Its calls are in the order of the clock. -/
  sorted : ((commits m.trace).map Commit.clock).Pairwise (· ≤ ·)
  /-- None of them was before the start. -/
  started : ∀ c ∈ commits m.trace, t₀ ≤ c.clock
  /-- None of them is in the future. -/
  past : ∀ c ∈ commits m.trace, c.clock ≤ m.clock

/-- The calls that have taken effect did so no earlier than the run began. -/
def Machine.Since [LE τ] (t₀ : τ) (m : Machine ι κ σ ω τ ρ) : Prop :=
  t₀ ≤ m.clock ∧ ∀ c ∈ commits m.trace, t₀ ≤ c.clock

/-- Every transition keeps the calls after the beginning. -/
theorem Step.since [Preorder τ] {t₀ : τ} {m m' : Machine ι κ σ ω τ ρ}
    {ch : Choice ι τ} (hstep : Step script m ch m') (h : m.Since t₀) : m'.Since t₀ := by
  have key : ∀ (i : ι) (c : κ) (kind : StepKind ρ) (th : Thread κ σ ω τ ρ) (owner : Option ι)
      (s : σ), (m.advance i c kind th owner s).Since t₀ := by
    intro i c kind th owner s
    refine ⟨h.1, ?_⟩
    rw [commits_advance]
    intro x hx
    rcases List.mem_append.mp hx with hx | hx
    · exact h.2 x hx
    · -- The new commit has the present time.
      cases hr : kind.reply? with
      | none => simp [hr] at hx
      | some r =>
        simp only [hr, Option.toList_some, List.map_cons, List.map_nil, List.mem_singleton] at hx
        exact hx ▸ h.1
  cases hstep with
  | tick t free later => exact ⟨h.1.trans later, h.2⟩
  | drift t later => exact ⟨h.1.trans later, h.2⟩
  | once | acquire | observe | answer | decide | write | release => exact key ..

/-- Every reachable state of a run in which all writes are made under the mutex, and the clock
stands still while it is held, is led to by the history of its calls. -/
theorem run_serialized [Preorder τ] [DecidableLE τ] {program : ι → List κ} {s₀ : σ}
    {t₀ : τ} {sched : List (Choice ι τ)} {m : Machine ι κ σ ω τ ρ}
    (hrun : run script (.init program s₀ t₀) sched = some m)
    (hguards : ∀ i, ∀ c ∈ program i, (script c).isWrite = false)
    (hsteady : ∀ t, Choice.drift t ∉ sched) : Serialized script program s₀ t₀ m := by
  have hinv : m.WellFormed script ∧ m.Guards script ∧ m.Current script ∧ m.Replays script s₀ ∧
      m.Accounts program ∧ m.Timely ∧ m.Since t₀ := by
    refine run_induction (motive := fun m => m.WellFormed script ∧ m.Guards script ∧
      m.Current script ∧ m.Replays script s₀ ∧ m.Accounts program ∧ m.Timely ∧ m.Since t₀)
      hrun ⟨Machine.init_wellFormed .., hguards, ?_, rfl, ?_, ?_, ?_⟩ ?_
    · intro i c rest htodo obs dec hs
      simp [Machine.init]
    · intro i
      simp [Machine.init, commits, ofClient, Thread.remaining, Thread.owed]
    · simp [Machine.Timely, Machine.init, commits]
    · simp [Machine.Since, Machine.init, commits]
    · rintro ch hch m₁ m₂ ⟨hwf, hg, hcur, hrep, hacc, htim, hsince⟩ hstep
      have hne : ∀ t, ch ≠ .drift t := by
        rintro t rfl
        exact hsteady t hch
      exact ⟨hstep.wellFormed hwf, hstep.guards hg, hstep.current hne hwf hg hcur,
        hstep.replays hcur hrep, hstep.accounts hwf hacc, hstep.timely htim, hstep.since hsince⟩
  obtain ⟨-, -, -, hrep, hacc, htim, hsince⟩ := hinv
  refine ⟨hrep, fun c hc => ?_, fun i => ?_, htim.1, hsince.2, htim.2⟩
  · -- The client's own calls of the history are the part of its program that is done.
    rw [(hacc c.client).1]
    exact List.mem_append_left _ (List.mem_map_of_mem (List.mem_filter.mpr ⟨hc, by simp⟩))
  · obtain ⟨hcalls, hreplies⟩ := hacc i
    rw [hcalls, hreplies]
    exact ⟨List.prefix_append .., List.prefix_append ..⟩

section Rules

variable [LE τ] {program : ι → List κ} {s₀ : σ} {t₀ : τ} {m : Machine ι κ σ ω τ ρ}
  (h : Serialized script program s₀ t₀ m) {motive : List (Commit ι κ τ ρ) → σ → Prop}
  (hnil : motive [] s₀)
  (hstep : ∀ past c s, past ++ [c] <+: commits m.trace → motive past s →
    ((script c.call).whole c.clock s).1 = c.reply →
    motive (past ++ [c]) ((script c.call).whole c.clock s).2)
include h hnil hstep

/-- What each whole call keeps holds of the history and the state. -/
theorem Serialized.induction : motive (commits m.trace) m.store := by
  have hreplies := congrArg Prod.fst h.replays
  have hstore := congrArg Prod.snd h.replays
  rw [← show (serial script s₀ ((commits m.trace).map Commit.timed)).2 = m.store from hstore]
  exact serial_induction hreplies hnil hstep

/-- Every call of the history had its answer in a state for which that held, with the calls before
it. -/
theorem Serialized.call_induction {pre : List (Commit ι κ τ ρ)} {c : Commit ι κ τ ρ}
    {post : List (Commit ι κ τ ρ)} (hsplit : commits m.trace = pre ++ c :: post) :
    ∃ s, motive pre s ∧ ((script c.call).whole c.clock s).1 = c.reply := by
  have hreplies := congrArg Prod.fst h.replays
  have hpre : pre ++ [c] <+: commits m.trace := ⟨post, by simp [hsplit]⟩
  have hcall := serial_of_prefix hpre hreplies
  have htimed : (pre ++ [c]).map Commit.timed = pre.map Commit.timed ++ [(c.clock, c.call)] := by
    simp [Commit.timed]
  rw [htimed, serial_concat, List.map_append] at hcall
  obtain ⟨hpast, hlast⟩ := List.append_inj' hcall rfl
  have hrest : pre <+: commits m.trace := (List.prefix_append pre [c]).trans hpre
  refine ⟨_, serial_induction hpast hnil fun past' c' s hinitial => ?_, by simpa using hlast⟩
  exact hstep past' c' s (hinitial.trans hrest)

end Rules

/-! ## Walks

Some of the calls change what is seen of the state, and each that does is a labelled step from one
view of it to the next. The history then is a walk. -/

/-- The labels lead from one point to another along steps of the relation. -/
def Walk {ν ε : Type} (R : ν → ε → ν → Prop) : ν → List ε → ν → Prop
  | x, [], y => y = x
  | x, e :: es, z => ∃ y, R x e y ∧ Walk R y es z

/-- One more step at the end. -/
theorem Walk.concat {ν ε : Type} {R : ν → ε → ν → Prop} {x y z : ν} {es : List ε} {e : ε}
    (h : Walk R x es y) (hstep : R y e z) : Walk R x (es ++ [e]) z := by
  induction es generalizing x with
  | nil =>
    obtain rfl := h
    exact ⟨z, hstep, rfl⟩
  | cons e' es ih =>
    obtain ⟨y', hfirst, hrest⟩ := h
    exact ⟨y', hfirst, ih hrest⟩

/-- When each whole call with a label makes the step of its label, and any other leaves the view
alone, the history is a walk. An invariant of the state may be kept along with it. -/
theorem Serialized.walk [LE τ] {program : ι → List κ} {s₀ : σ} {t₀ : τ} {m : Machine ι κ σ ω τ ρ}
    (h : Serialized script program s₀ t₀ m) {ν ε : Type} (view : σ → ν) (inv : σ → Prop)
    {label : Commit ι κ τ ρ → Option ε} {R : ν → ε → ν → Prop} (hinit : inv s₀)
    (hstep : ∀ c s, c ∈ commits m.trace → inv s → ((script c.call).whole c.clock s).1 = c.reply →
      inv ((script c.call).whole c.clock s).2 ∧
        (label c = none ∧ view ((script c.call).whole c.clock s).2 = view s ∨
          ∃ e, label c = some e ∧ R (view s) e (view ((script c.call).whole c.clock s).2))) :
    inv m.store ∧ Walk R (view s₀) ((commits m.trace).filterMap label) (view m.store) := by
  refine h.induction
    (motive := fun past s => inv s ∧ Walk R (view s₀) (past.filterMap label) (view s))
    ⟨hinit, rfl⟩ ?_
  rintro past c s hinitial ⟨hinv, hwalk⟩ hreply
  obtain ⟨hinv', hview⟩ := hstep c s (hinitial.mem (by simp)) hinv hreply
  refine ⟨hinv', ?_⟩
  rcases hview with ⟨hlabel, hsame⟩ | ⟨e, hlabel, hmove⟩
  · rw [hsame]
    simpa [hlabel] using hwalk
  · simpa [hlabel] using hwalk.concat hmove

/-! ## Invariants of every run

What every write keeps, whatever it was decided on, holds in every reachable state: also when there
are writes without the mutex, and when the clock moves while it is held. -/

/-- Every write that the script can make, from the time `t₀` on, keeps the property. -/
def Script.Keeps [LE τ] (t₀ : τ) (inv : σ → Prop) : Script σ ω τ ρ → Prop
  | .answer _ | .read _ => True
  | .write f => ∀ t s, t₀ ≤ t → inv s → inv (f t s).2
  | .locked _ decide => ∀ t o f, t₀ ≤ t → decide t o = .inr f →
    ∀ t' s, t₀ ≤ t' → inv s → inv (f t' s).2

/-- The state has the property, and so will it after the writes that have been decided on. -/
structure Machine.Sound [LE τ] (t₀ : τ) (inv : σ → Prop) (script : κ → Script σ ω τ ρ)
    (m : Machine ι κ σ ω τ ρ) : Prop where
  /-- The start is in the past. -/
  started : t₀ ≤ m.clock
  /-- The state has the property. -/
  store : inv m.store
  /-- A write that has been decided on keeps it. -/
  writes : ∀ i f, (m.thread i).phase = .writing f → ∀ t s, t₀ ≤ t → inv s → inv (f t s).2
  /-- So do the calls that are still to be made. -/
  keeps : ∀ i, ∀ c ∈ (m.thread i).todo, (script c).Keeps t₀ inv

/-- A step of one client keeps the machine sound, when the state that it leaves has the property,
and a write that it decides on keeps it. -/
theorem Machine.Sound.advance [LE τ] {t₀ : τ} {inv : σ → Prop} {m : Machine ι κ σ ω τ ρ}
    (h : m.Sound t₀ inv script) (i : ι) (c : κ) (kind : StepKind ρ) {th : Thread κ σ ω τ ρ}
    (owner : Option ι) {s : σ} (hs : inv s)
    (hwrites : ∀ f, th.phase = .writing f → ∀ t s, t₀ ≤ t → inv s → inv (f t s).2)
    (htodo : ∀ c ∈ th.todo, c ∈ (m.thread i).todo) :
    (m.advance i c kind th owner s).Sound t₀ inv script := by
  refine ⟨h.started, hs, fun j f hf => ?_, fun j c' hc' => ?_⟩
  · by_cases hj : j = i
    · subst hj
      exact hwrites f (by simpa [Machine.advance] using hf)
    · exact h.writes j f (by simpa [Machine.advance, hj] using hf)
  · by_cases hj : j = i
    · subst hj
      exact h.keeps j c' (htodo c' (by simpa [Machine.advance] using hc'))
    · exact h.keeps j c' (by simpa [Machine.advance, hj] using hc')

/-- Every transition keeps the machine sound. -/
theorem Step.sound [Preorder τ] {t₀ : τ} {inv : σ → Prop} {m m' : Machine ι κ σ ω τ ρ}
    {ch : Choice ι τ} (hstep : Step script m ch m') (h : m.Sound t₀ inv script) :
    m'.Sound t₀ inv script := by
  cases hstep with
  | tick t free later => exact ⟨h.started.trans later, h.store, h.writes, h.keeps⟩
  | drift t later => exact ⟨h.started.trans later, h.store, h.writes, h.keeps⟩
  | once i c rest todo unlocked =>
    have hkeeps := h.keeps i c (by simp [todo])
    refine h.advance i c _ _ ?_ (by simp [Thread.complete]) ?_
    · -- A call without the mutex writes at once, if at all.
      cases hs : script c with
      | answer r => exact h.store
      | read f => exact h.store
      | write f =>
        rw [hs] at hkeeps
        exact hkeeps m.clock m.store h.started h.store
      | locked obs dec =>
        rw [hs] at unlocked
        cases unlocked
    · intro c' hc'
      exact List.mem_of_mem_tail (by simpa [Thread.complete] using hc')
  | acquire | observe | answer =>
    exact h.advance _ _ _ _ h.store (by simp [Thread.enter]) (by simp [Thread.enter])
  | decide i c rest todo obs dec locked o observed f writes =>
    have hkeeps := h.keeps i c (by simp [todo])
    rw [locked] at hkeeps
    refine h.advance i c _ _ h.store (fun f' hf => ?_) (by simp [Thread.enter])
    obtain rfl : f = f' := by simpa [Thread.enter] using hf
    exact hkeeps m.clock o f h.started writes
  | write i c rest todo locked f writing =>
    refine h.advance i c _ _ ?_ (by simp [Thread.enter]) (by simp [Thread.enter])
    exact h.writes i f writing m.clock m.store h.started h.store
  | release i c rest todo locked r finished =>
    refine h.advance i c _ _ h.store (by simp [Thread.complete]) fun c' hc' => ?_
    exact List.mem_of_mem_tail (by simpa [Thread.complete] using hc')

end History

end CacheServer.Guarded
