import CacheServer.Bench.Draws
import CacheServer.Manager.Integer
import Mathlib.Data.List.Nodup

/-!
# One-pass keys

With the one-pass pattern every operation draws a number of its own from the counter, and its
objects are counted from `worker * 100000000` on. The offset keeps workers apart that count for
themselves, but the counter is one for all of them: when worker 1 has drawn a small number, worker 0
comes to the same objects with a number that is larger by `100000000` objects.

As no two operations have the same number, the keys of a process are all different (`nodup_keys`) in
the offered model, where every operation counts as the first worker's, and for up to `100000000`
objects in the closed model. With two workers and more objects than that, there is a run in which
worker 0 comes to the objects of worker 1 (`exists_run_of_not_apart`).
-/

namespace CacheServer.Bench.Load

variable {o : Options} {p q : Process} {c c' : Call}

/-! ## Indices -/

/-- The index of an object of an operation, as an integer. -/
def Call.index (o : Options) (c : Call) (i : ℕ) : ℤ :=
  o.objects.toInt + c.worker.toInt * 100000000 + (c.op.toNat * o.n.toInt + i)

/-- The indices of an operation are in range. None of the terms is negative, so that none of them
overflows when the sum does not. -/
def Call.Fits (o : Options) (c : Call) : Prop :=
  ∀ i < o.n.toInt.toNat, c.index o i < 2^63

/-- The code computes the index modulo `2^64`. -/
theorem chooseIndex_onePass (hp : o.pattern = .onePass) (c : Call) (i : ℕ) :
    chooseIndex o c.worker (c.op * o.n.toUInt64 + UInt64.ofNat i) c.elapsed =
      Int64.ofInt (c.index o i) := by
  have hop : c.op.toInt64 = Int64.ofInt c.op.toNat := by
    rw [Int64.ofInt_eq_ofNat, ← UInt64.toInt64_ofNat', UInt64.ofNat_toNat]
  have hstride : Int64.ofInt 100000000 = 100000000 := rfl
  unfold chooseIndex Call.index
  rw [hp]
  simp only [UInt64.toInt64_add, UInt64.toInt64_mul, Int64.toInt64_toUInt64, UInt64.toInt64_ofNat',
    Int64.ofInt_add, Int64.ofInt_mul, Int64.ofInt_toInt, hop, hstride, Int64.ofInt_eq_ofNat]

/-- Different indices have different keys. -/
theorem keyFor_injective (o : Options) : Function.Injective (keyFor o) := by
  intro i j h
  have htext := List.append_cancel_left h
  -- The number is read back from the end of the key.
  have hscan := congrArg Decimal.scan htext
  rw [Decimal.scan_ofInt, Decimal.scan_ofInt, Option.some.injEq, Prod.mk.injEq] at hscan
  exact Int64.toInt_inj.mp hscan.1

/-- The keys of two numbers in range are the same only for the same number. -/
theorem keyFor_ofInt_eq_iff {x y : ℤ} (hx : InInt64 x) (hy : InInt64 y) :
    keyFor o (Int64.ofInt x) = keyFor o (Int64.ofInt y) ↔ x = y := by
  rw [(keyFor_injective o).eq_iff, ← Int64.toInt_inj, toInt_ofInt_of_inInt64 hx,
    toInt_ofInt_of_inInt64 hy]

/-- An operation has at least one object. -/
theorem Options.Accepted.n_pos (ho : o.Accepted) : 0 < o.n.toInt := by
  have hbatch := Int64.lt_iff_toInt_lt.mp ho.batchSize
  unfold Options.n
  cases o.operation with
  | unary =>
    have hone : (1 : Int64).toInt = 1 := rfl
    simp [hone]
  | batchGet | batchSet | pipeline => exact hbatch

/-- A batch of accepted options has a positive number of keys. -/
theorem Options.Accepted.toNat_n (ho : o.Accepted) : ((o.n.toInt.toNat : ℕ) : ℤ) = o.n.toInt :=
  Int.toNat_of_nonneg ho.n_pos.le

/-- The objects that are asked for are those of the operation: a unary operation has one. -/
theorem Call.keys_request (o : Options) (c : Call) : (c.request o).keys = c.keys o := by
  unfold Call.request
  -- Only the unary operation takes a list of keys apart, and it has one.
  cases hop : o.operation with
  | unary =>
    have hone : (c.keys o).length = 1 := by
      simp [Call.keys, Options.n, hop]
    obtain ⟨key, hkey⟩ := List.length_eq_one_iff.mp hone
    rw [hkey]
    simp only
    split_ifs <;> rfl
  | batchGet | batchSet | pipeline => rfl

/-- The keys of an operation. -/
theorem Call.keys_eq (hp : o.pattern = .onePass) (c : Call) :
    c.keys o = (List.range o.n.toInt.toNat).map fun i => keyFor o (Int64.ofInt (c.index o i)) := by
  unfold Call.keys
  simp only [chooseIndex_onePass hp]

/-! ## Keys are not used again -/

/-- No two of the requested objects have the same key, and none has a key of the preloaded range. -/
def Process.KeysFresh (o : Options) (p : Process) : Prop :=
  (p.keys o).Nodup ∧ ∀ i : Int64, 0 ≤ i → i < o.objects → keyFor o i ∉ p.keys o

/-- When the workers cannot meet in a number of operations: they count as one, or no range is longer
than what is between them. -/
def Options.Apart (o : Options) (N : ℕ) : Prop :=
  o.model = .offered ∨ o.concurrency = 1 ∨ N ≤ 1 ∨ N * o.n.toInt ≤ 100000000

instance (o : Options) (N : ℕ) : Decidable (o.Apart N) :=
  inferInstanceAs (Decidable (_ ∨ _ ∨ _ ∨ _))

/-- Workers that cannot meet in a number of operations cannot meet in fewer. -/
theorem Options.Apart.mono (ho : o.Accepted) {N N' : ℕ} (hN : o.Apart N) (hle : N' ≤ N) :
    o.Apart N' := by
  rcases hN with hmodel | hone | hN | hN
  · exact .inl hmodel
  · exact .inr (.inl hone)
  · exact .inr (.inr (.inl (hle.trans hN)))
  · have hmul : (N' : ℤ) * o.n.toInt ≤ N * o.n.toInt :=
      mul_le_mul_of_nonneg_right (Int.ofNat_le.mpr hle) ho.n_pos.le
    exact .inr (.inr (.inr (hmul.trans hN)))

/-- The keys of all requested objects. -/
theorem keys_eq (hp : o.pattern = .onePass) (p : Process) :
    p.keys o = p.calls.flatMap fun c =>
      (List.range o.n.toInt.toNat).map fun i => keyFor o (Int64.ofInt (c.index o i)) := by
  unfold Process.keys
  simp only [Call.keys_request, Call.keys_eq hp]

/-- The objects of an operation come after the preloaded range. -/
theorem Call.objects_le_index (ho : o.Accepted) (hc : c.Assigned o) (i : ℕ) :
    o.objects.toInt ≤ c.index o i := by
  have hn := ho.n_pos
  have hmul : 0 ≤ c.op.toNat * o.n.toInt := by positivity
  have hworker := hc.1
  unfold Call.index
  omega

/-- The indices of an operation that fits are in range, and none is negative. -/
theorem Call.inInt64_index (ho : o.Accepted) (hc : c.Assigned o) (hfits : c.Fits o) {i : ℕ}
    (hi : i < o.n.toInt.toNat) : InInt64 (c.index o i) := by
  have hobjects : 0 < o.objects.toInt := Int64.lt_iff_toInt_lt.mp ho.objects
  have hle := Call.objects_le_index ho hc i
  exact ⟨by omega, hfits i hi⟩

/-- An object is in the range of one operation. -/
theorem op_eq_of_add_eq {n a b i j : ℕ} (hi : i < n) (hj : j < n) (h : a * n + i = b * n + j) :
    a = b := by
  have hn : 0 < n := by omega
  have hdiv : ∀ x y, y < n → (x * n + y) / n = x := by
    intro x y hy
    rw [Nat.mul_comm, Nat.mul_add_div hn, Nat.div_eq_of_lt hy, Nat.add_zero]
  rw [← hdiv a i hi, ← hdiv b j hj, h]

/-- The objects of different operations have different indices where the workers cannot meet. -/
theorem Call.index_ne (ho : o.Accepted) {N : ℕ} (hN : o.Apart N) (hc : c.Assigned o)
    (hc' : c'.Assigned o) (hop : c.op.toNat < N) (hop' : c'.op.toNat < N) (hne : c.op ≠ c'.op)
    {i j : ℕ} (hi : i < o.n.toInt.toNat) (hj : j < o.n.toInt.toNat) :
    c.index o i ≠ c'.index o j := by
  intro h
  have hn := ho.n_pos
  unfold Call.index at h
  rw [← ho.toNat_n] at h
  -- It is enough that both count as the same worker.
  have hworker : c.worker.toInt ≠ c'.worker.toInt := by
    intro hw
    rw [hw] at h
    have hsum : c.op.toNat * o.n.toInt.toNat + i = c'.op.toNat * o.n.toInt.toNat + j := by
      zify
      linarith
    exact hne (UInt64.toNat_inj.mp (op_eq_of_add_eq hi hj hsum))
  obtain ⟨hw0, hwtop⟩ := hc
  obtain ⟨hw0', hwtop'⟩ := hc'
  rcases hN with hmodel | hone | hN | hN
  · -- In the offered model all count as worker zero.
    simp only [Options.topWorker, hmodel] at hwtop hwtop'
    omega
  · -- So does the only worker there is.
    have htop : o.topWorker = 0 := by
      have hone' : (1 : Int64).toInt = 1 := rfl
      unfold Options.topWorker
      rw [hone, hone']
      cases o.model <;> rfl
    omega
  · -- Of one operation there are no two.
    have hzero : c.op.toNat = c'.op.toNat := by omega
    exact hne (UInt64.toNat_inj.mp hzero)
  · -- Both ranges end before the next worker's begins.
    have hrange : ∀ op : ℕ, op < N → op * o.n.toInt.toNat + o.n.toInt.toNat ≤ 100000000 := by
      intro op hlt
      have hmul : (op + 1) * o.n.toInt.toNat ≤ N * o.n.toInt.toNat := Nat.mul_le_mul_right _ hlt
      rw [← ho.toNat_n] at hN
      have hN' : N * o.n.toInt.toNat ≤ 100000000 := by exact_mod_cast hN
      rw [Nat.succ_mul] at hmul
      omega
    have hend := hrange c.op.toNat hop
    have hend' := hrange c'.op.toNat hop'
    have hbegin : (0 : ℤ) ≤ c.op.toNat * o.n.toInt.toNat := by positivity
    have hbegin' : (0 : ℤ) ≤ c'.op.toNat * o.n.toInt.toNat := by positivity
    zify at hend hend'
    omega

/-- No requested object has a key of the preloaded range. -/
theorem keyFor_notMem_keys (ho : o.Accepted) (hp : o.pattern = .onePass)
    (hcalls : ∀ c ∈ p.calls, c.Assigned o) (hfits : ∀ c ∈ p.calls, c.Fits o) {i : Int64}
    (hi : i < o.objects) : keyFor o i ∉ p.keys o := by
  intro hmem
  rw [keys_eq hp, List.mem_flatMap] at hmem
  obtain ⟨c, hc, hmem⟩ := hmem
  obtain ⟨j, hj, hkey⟩ := List.mem_map.mp hmem
  have hin := Call.inInt64_index ho (hcalls c hc) (hfits c hc) (List.mem_range.mp hj)
  have hle := Call.objects_le_index ho (hcalls c hc) j
  have hlt := Int64.lt_iff_toInt_lt.mp hi
  rw [← Int64.ofInt_toInt i, keyFor_ofInt_eq_iff hin (inInt64_toInt i)] at hkey
  omega

/-- Where the workers cannot meet, keys are not used again. -/
theorem nodup_keys (ho : o.Accepted) (hp : o.pattern = .onePass) {N : ℕ} (hN : o.Apart N)
    (hi : Invariant o N p) (hfits : ∀ c ∈ p.calls, c.Fits o) : (p.keys o).Nodup := by
  rw [keys_eq hp, List.nodup_flatMap]
  constructor
  · -- Within one operation the indices go up.
    intro c hc
    refine List.Nodup.map_on ?_ List.nodup_range
    intro i hi' j hj hkey
    have hassigned := (hi.calls c hc).1
    have hini := Call.inInt64_index ho hassigned (hfits c hc) (List.mem_range.mp hi')
    have hinj := Call.inInt64_index ho hassigned (hfits c hc) (List.mem_range.mp hj)
    rw [keyFor_ofInt_eq_iff hini hinj, Call.index, Call.index] at hkey
    omega
  · -- Between two operations with different numbers they differ as well.
    have hnodup : p.calls.Pairwise fun c c' => c.op ≠ c'.op := List.pairwise_map.mp hi.nodup
    refine hnodup.imp_of_mem ?_
    intro c c' hc hc' hne key hkey hkey'
    obtain ⟨i, hi', rfl⟩ := List.mem_map.mp hkey
    obtain ⟨j, hj, heq⟩ := List.mem_map.mp hkey'
    obtain ⟨hassigned, hop⟩ := hi.calls c hc
    obtain ⟨hassigned', hop'⟩ := hi.calls c' hc'
    rw [List.mem_range] at hi' hj
    have hini := Call.inInt64_index ho hassigned (hfits c hc) hi'
    have hinj := Call.inInt64_index ho hassigned' (hfits c' hc') hj
    rw [keyFor_ofInt_eq_iff hinj hini] at heq
    exact Call.index_ne ho hN hassigned hassigned' hop hop' hne hi' hj heq.symm

/-- The greatest index of a number of operations is in range. -/
def Options.Fits (o : Options) (N : ℕ) : Prop :=
  o.objects.toInt + o.topWorker * 100000000 + N * o.n.toInt ≤ 2^63

instance (o : Options) (N : ℕ) : Decidable (o.Fits N) := inferInstanceAs (Decidable (_ ≤ _))

/-- An operation with a number below the bound fits. -/
theorem Call.fits_of_lt (ho : o.Accepted) {N : ℕ} (hN : o.Fits N) (hc : c.Assigned o)
    (hop : c.op.toNat < N) : c.Fits o := by
  intro i hi
  have hn := ho.n_pos
  have hmul : (c.op.toNat + 1) * o.n.toInt ≤ N * o.n.toInt := by
    have hle : (c.op.toNat : ℤ) + 1 ≤ N := by exact_mod_cast hop
    exact mul_le_mul_of_nonneg_right hle hn.le
  rw [add_mul, one_mul] at hmul
  have hworker := hc.2
  unfold Options.Fits at hN
  unfold Call.index
  omega

/-- In a number of operations whose indices are in range, the counter does not overflow. -/
theorem Options.Fits.lt (ho : o.Accepted) {N : ℕ} (hN : o.Fits N) : N < 2^64 := by
  have hobjects : 0 < o.objects.toInt := Int64.lt_iff_toInt_lt.mp ho.objects
  have hconcurrency : 0 < o.concurrency.toInt := Int64.lt_iff_toInt_lt.mp ho.concurrency
  have htop : 0 ≤ o.topWorker := by
    unfold Options.topWorker
    cases o.model with
    | closed => exact Int.le_sub_one_of_lt hconcurrency
    | offered => rfl
  have hmul : (N : ℤ) * 1 ≤ N * o.n.toInt :=
    mul_le_mul_of_nonneg_left ho.n_pos (Int.natCast_nonneg N)
  unfold Options.Fits at hN
  omega

/-- The indices of a run are in range when those of as many operations are. -/
theorem fits_of_run (ho : o.Accepted) (hp : o.pattern = .onePass) {N : ℕ} (hN : o.Fits N)
    {actions : List Action} (hrun : run o (start o) actions = some p) (hdraws : draws actions ≤ N) :
    draws actions < 2^64 ∧ ∀ c ∈ p.calls, c.Fits o := by
  have hlt : draws actions < 2^64 := lt_of_le_of_lt hdraws (hN.lt ho)
  refine ⟨hlt, fun c hc => ?_⟩
  obtain ⟨hassigned, hop⟩ := (invariant_run hp hrun hlt).calls c hc
  exact Call.fits_of_lt ho hN hassigned (lt_of_lt_of_le hop hdraws)

/-! ## A run in which two workers meet -/

/-- An operation of one worker, from its start to its request. -/
def round (w : ℕ) : List Action := [.enter w 0, .draw w, .request w]

/-- The first window, with operations of the given workers one after the other. -/
def rounds (ws : List ℕ) : List Action := .launch :: ws.flatMap round

/-- A run of two parts is the one part after the other. -/
theorem run_append (actions actions' : List Action) :
    run o p (actions ++ actions') = (run o p actions).bind fun q => run o q actions' :=
  List.foldlM_append

/-- An operation of the closed model takes the next number, and leaves its worker as it was. -/
theorem run_round (hp : o.pattern = .onePass) (hmodel : o.model = .closed) {w : ℕ}
    (hidle : p.phase w = .idle) :
    ∃ q, run o p (round w) = some q ∧ q.onePassCounter = p.onePassCounter + 1 ∧
      q.calls = p.calls ++ [⟨Int64.ofNat w, p.onePassCounter, 0⟩] ∧ q.phase = p.phase := by
  have hrun : run o p (round w) = some ({ p with
      onePassCounter := p.onePassCounter + 1
      calls := p.calls ++ [(⟨Int64.ofNat w, p.onePassCounter, 0⟩ : Call)] }.put w
        ⟨.idle, (p.worker w).op + 1⟩) := by
    unfold Process.phase at hidle
    simp [run, round, step, hidle, hmodel, hp, Process.put]
  refine ⟨_, hrun, rfl, rfl, ?_⟩
  rw [phase_put]
  exact Function.update_eq_self_iff.mpr hidle.symm

/-- The operations of the given workers take the next numbers in turn. -/
theorem run_flatMap_round (hp : o.pattern = .onePass) (hmodel : o.model = .closed) (ws : List ℕ)
    (hidle : ∀ w ∈ ws, p.phase w = .idle) :
    ∃ q, run o p (ws.flatMap round) = some q ∧ p.calls ⊆ q.calls ∧
      ∀ i w, ws[i]? = some w →
        ⟨Int64.ofNat w, p.onePassCounter + UInt64.ofNat i, 0⟩ ∈ q.calls := by
  induction ws generalizing p with
  | nil => exact ⟨p, rfl, List.Subset.refl _, by simp⟩
  | cons w ws ih =>
    obtain ⟨r, hround, hcounter, hcalls, hphase⟩ :=
      run_round hp hmodel (hidle w List.mem_cons_self)
    have hrest : ∀ w ∈ ws, r.phase w = .idle := by
      intro w' hw'
      rw [hphase]
      exact hidle w' (List.mem_cons_of_mem w hw')
    obtain ⟨q, hrun, hsubset, hmem⟩ := ih hrest
    refine ⟨q, ?_, ?_, ?_⟩
    · rw [List.flatMap_cons, run_append, hround]
      exact hrun
    · intro c hc
      apply hsubset
      rw [hcalls]
      exact List.mem_append_left _ hc
    · -- The first round has the counter's number, and each later one the next.
      intro i w' hw'
      cases i with
      | zero =>
        rw [List.getElem?_cons_zero, Option.some.injEq] at hw'
        apply hsubset
        rw [hcalls, ← hw']
        exact List.mem_append_right _ (by simp)
      | succ i =>
        rw [List.getElem?_cons_succ] at hw'
        have hnext : p.onePassCounter + UInt64.ofNat (i + 1) =
            r.onePassCounter + UInt64.ofNat i := by
          rw [hcounter, UInt64.ofNat_add, UInt64.add_comm (UInt64.ofNat i), ← UInt64.add_assoc]
          rfl
        rw [hnext]
        exact hmem i w' hw'

/-- The run exists, and every operation of it has its place in the list as its number. -/
theorem run_rounds (hp : o.pattern = .onePass) (hmodel : o.model = .closed) {ws : List ℕ}
    (hws : ∀ w ∈ ws, (w : ℤ) < o.concurrency.toInt) :
    ∃ q, run o (start o) (rounds ws) = some q ∧
      ∀ i w, ws[i]? = some w → ⟨Int64.ofNat w, UInt64.ofNat i, 0⟩ ∈ q.calls := by
  have hstage : (start o).stage ≠ .done := by
    simp only [start]
    split_ifs <;> nofun
  have hlaunch : (start o).running = false ∧ (start o).stage ≠ .done := ⟨rfl, hstage⟩
  generalize hr : ({ start o with
    running := true
    worker := fun w => if (w : ℤ) < o.concurrency.toInt then { phase := .idle } else {}
    jobs := []
    index := 0
    closed := o.model = .closed } : Process) = r
  have hstep : step o (start o) .launch = some r := by
    rw [← hr, step, if_pos hlaunch]
  have hidle : ∀ w ∈ ws, r.phase w = .idle := by
    intro w hw
    simp only [← hr, Process.phase, if_pos (hws w hw)]
  have hcounter : r.onePassCounter = 0 := by
    rw [← hr]
    rfl
  obtain ⟨q, hrun, -, hmem⟩ := run_flatMap_round hp hmodel ws hidle
  refine ⟨q, ?_, ?_⟩
  · exact Runs.foldlM_cons_eq_some.mpr ⟨r, hstep, hrun⟩
  · intro i w hw
    have hi := hmem i w hw
    rwa [hcounter, UInt64.zero_add] at hi

/-- Each round draws once. -/
theorem draws_rounds (ws : List ℕ) : draws (rounds ws) = ws.length := by
  induction ws with
  | nil => rfl
  | cons w ws ih =>
    have hround : draws (round w) = 1 := rfl
    rw [rounds, draws_cons] at ih ⊢
    rw [List.flatMap_cons, List.length_cons, ← ih, ← hround]
    unfold draws
    rw [List.countP_append]
    omega

/-- Two operations share a key when an object of one has the index of an object of the other. -/
theorem not_nodup_keys (hp : o.pattern = .onePass) (hc : c ∈ p.calls) (hc' : c' ∈ p.calls)
    (hne : c ≠ c') {i j : ℕ} (hi : i < o.n.toInt.toNat) (hj : j < o.n.toInt.toNat)
    (h : c.index o i = c'.index o j) : ¬ (p.keys o).Nodup := by
  rw [keys_eq hp, List.nodup_flatMap]
  rintro ⟨-, hdisjoint⟩
  have hsymm : ∀ f : Call → List Bytes, Std.Symm (Function.onFun List.Disjoint f) :=
    fun f => ⟨fun _ _ h => h.symm⟩
  refine hdisjoint.forall hc hc' hne (List.mem_map_of_mem (List.mem_range.mpr hi)) ?_
  rw [h]
  exact List.mem_map_of_mem (List.mem_range.mpr hj)

/-- The operation of worker 0 that comes to the objects of the first operation of worker 1. -/
def Options.meeting (o : Options) : ℕ := max 1 (100000000 / o.n.toInt.toNat)

/-- The operation that worker 0 meets worker 1 in shares an object with it. -/
theorem Options.exists_meeting (hn : 0 < o.n.toInt.toNat) :
    ∃ i j, i < o.n.toInt.toNat ∧ j < o.n.toInt.toNat ∧
      100000000 + i = o.meeting * o.n.toInt.toNat + j := by
  unfold Options.meeting
  generalize o.n.toInt.toNat = n at hn ⊢
  by_cases hle : n ≤ 100000000
  · -- Short batches: the operation that covers the stride, at the place of the remainder.
    have hmax : max 1 (100000000 / n) = 100000000 / n := max_eq_right (Nat.div_pos hle hn)
    refine ⟨0, 100000000 % n, hn, Nat.mod_lt _ hn, ?_⟩
    rw [hmax, Nat.div_add_mod']
  · -- A batch longer than the stride: the very next operation.
    have hmax : max 1 (100000000 / n) = 1 := by
      rw [Nat.div_eq_of_lt (by omega)]
      rfl
    refine ⟨n - 100000000, 0, by omega, hn, ?_⟩
    rw [hmax]
    omega

/-- It is one of the operations when these are too many for the space between the workers. -/
theorem Options.meeting_lt {N : ℕ} (hn : 0 < o.n.toInt.toNat) (hone : 1 < N)
    (hN : 100000000 < N * o.n.toInt.toNat) : o.meeting < N :=
  max_lt hone ((Nat.div_lt_iff_lt_mul hn).mpr hN)

/-- The two operations have an object of the same index. -/
theorem index_meeting (ho : o.Accepted) {i j : ℕ}
    (h : 100000000 + i = o.meeting * o.n.toInt.toNat + j) :
    (⟨Int64.ofNat 1, UInt64.ofNat 0, 0⟩ : Call).index o i =
      (⟨Int64.ofNat 0, UInt64.ofNat o.meeting, 0⟩ : Call).index o j := by
  have hmeeting : (UInt64.ofNat o.meeting).toNat = o.meeting := by
    have hle : o.meeting ≤ 100000000 := max_le (by norm_num) (Nat.div_le_self _ _)
    exact UInt64.toNat_ofNat_of_lt' (lt_of_le_of_lt hle (by decide))
  have hworker : (Int64.ofNat 1).toInt = 1 := rfl
  have hworker' : (Int64.ofNat 0).toInt = 0 := rfl
  have hop : (UInt64.ofNat 0).toNat = 0 := rfl
  simp only [Call.index, hmeeting, hworker, hworker', hop, Nat.cast_zero, zero_mul]
  rw [← ho.toNat_n]
  zify at h
  linarith

/-- Worker 1 does one operation, and then worker 0 does the others until it meets it. -/
theorem exists_run_of_not_apart (ho : o.Accepted) (hp : o.pattern = .onePass) {N : ℕ}
    (hN : ¬ o.Apart N) :
    ∃ p, run o (start o) (rounds (1 :: List.replicate o.meeting 0)) = some p ∧
      draws (rounds (1 :: List.replicate o.meeting 0)) ≤ N ∧ ¬ (p.keys o).Nodup := by
  simp only [Options.Apart, not_or, not_le] at hN
  obtain ⟨hmodel, hconcurrency, hone, hlong⟩ := hN
  have hclosed : o.model = .closed := by
    cases hm : o.model with
    | closed => rfl
    | offered => exact absurd hm hmodel
  have htwo : 1 < o.concurrency.toInt := by
    have hpos : 0 < o.concurrency.toInt := Int64.lt_iff_toInt_lt.mp ho.concurrency
    have hne : o.concurrency.toInt ≠ 1 := fun h => hconcurrency (Int64.toInt_inj.mp h)
    omega
  have hn : 0 < o.n.toInt.toNat := by
    have hpos := ho.n_pos
    omega
  -- Both workers take part in the phase.
  have hworkers : ∀ w : ℕ, w ∈ 1 :: List.replicate o.meeting 0 →
      (w : ℤ) < o.concurrency.toInt := by
    intro w hw
    rw [List.mem_cons, List.mem_replicate] at hw
    omega
  obtain ⟨p, hrun, hmem⟩ := run_rounds hp hclosed hworkers
  refine ⟨p, hrun, ?_, ?_⟩
  · rw [draws_rounds, List.length_cons, List.length_replicate]
    refine Options.meeting_lt hn hone ?_
    rw [← ho.toNat_n] at hlong
    exact_mod_cast hlong
  · -- The first operation is worker 1's, the last one worker 0's, and they share an object.
    have hfirst := hmem 0 1 rfl
    have hmeeting : 1 ≤ o.meeting := le_max_left _ _
    have hlast := hmem o.meeting 0 (by
      rw [List.getElem?_cons, if_neg (by omega), List.getElem?_replicate, if_pos (by omega)])
    obtain ⟨i, j, hi, hj, hsum⟩ := o.exists_meeting hn
    refine not_nodup_keys hp hfirst hlast ?_ hi hj ?_
    · have hworker : Int64.ofNat 1 ≠ Int64.ofNat 0 := by decide
      exact fun h => hworker (congrArg Call.worker h)
    · exact index_meeting ho hsum

/-! ## When one-pass keys are fresh -/

/-- One-pass keys, for all options that `main` accepts and all runs of the process. Where nothing
overflows, no requested object has a key of the preloaded range, and no two have the same key where
the workers cannot meet in the operations of the run. As long as no index of `N` operations is out
of range, this is exact: the keys of all runs of at most `N` operations are fresh if and only if the
workers cannot meet in `N` operations. -/
theorem onePass_keysFresh_iff (o : Options) (ho : o.Accepted) (hp : o.pattern = .onePass) :
    (∀ actions p, run o (start o) actions = some p → draws actions < 2^64 →
      (∀ c ∈ p.calls, c.Fits o) →
      (∀ i : Int64, 0 ≤ i → i < o.objects → keyFor o i ∉ p.keys o) ∧
      (o.Apart (draws actions) → p.KeysFresh o)) ∧
    ∀ N, o.Fits N →
      ((∀ actions p, run o (start o) actions = some p → draws actions ≤ N → p.KeysFresh o) ↔
        o.Apart N) := by
  have hpreloaded : ∀ actions p, run o (start o) actions = some p → draws actions < 2^64 →
      (∀ c ∈ p.calls, c.Fits o) →
      ∀ i : Int64, 0 ≤ i → i < o.objects → keyFor o i ∉ p.keys o := by
    intro actions p hrun hdraws hfits i _ hlt
    have hi := invariant_run hp hrun hdraws
    exact keyFor_notMem_keys ho hp (fun c hc => (hi.calls c hc).1) hfits hlt
  have hfresh : ∀ actions p, run o (start o) actions = some p → draws actions < 2^64 →
      (∀ c ∈ p.calls, c.Fits o) → o.Apart (draws actions) → p.KeysFresh o := by
    intro actions p hrun hdraws hfits hapart
    have hi := invariant_run hp hrun hdraws
    exact ⟨nodup_keys ho hp hapart hi hfits, hpreloaded actions p hrun hdraws hfits⟩
  refine ⟨?_, fun N hN => ⟨?_, ?_⟩⟩
  · intro actions p hrun hdraws hfits
    exact ⟨hpreloaded actions p hrun hdraws hfits, hfresh actions p hrun hdraws hfits⟩
  · -- If the workers can meet, there is a run in which they do.
    intro hall
    by_contra hapart
    obtain ⟨p, hrun, hdraws, hnodup⟩ := exists_run_of_not_apart ho hp hapart
    exact hnodup (hall _ p hrun hdraws).1
  · -- If not, nothing overflows either, and the first part applies.
    intro hapart actions p hrun hdraws
    obtain ⟨hlt, hfits⟩ := fits_of_run ho hp hN hrun hdraws
    exact hfresh actions p hrun hlt hfits (hapart.mono ho hdraws)

/-- Two workers in the closed model, which read batches of 100000 keys. -/
def twoWorkers : Options where
  runID := "run".toUTF8.data.toList
  pattern := .onePass
  workload := .readOnly
  operation := .batchGet
  model := .closed
  objects := 2048
  concurrency := 2
  batchSize := 100000
  warmupSeconds := 15
  measureSeconds := 60
  offeredRate := 1000

/-- These options are not refused. -/
theorem accepted_twoWorkers : twoWorkers.Accepted where
  objects := by decide
  concurrency := by decide
  batchSize := by decide
  measureSeconds := by decide
  offeredRate := by decide

/-- The indices of both workers fit in a run of two batches, whose keys are fresh. They are fresh
for 1000 batches, and not always for one more. -/
theorem keysFresh_twoWorkers :
    (∃ p, run twoWorkers (start twoWorkers) (rounds [1, 0]) = some p ∧ ⟨1, 0, 0⟩ ∈ p.calls ∧
      ⟨0, 1, 0⟩ ∈ p.calls ∧ (∀ c ∈ p.calls, c.Fits twoWorkers) ∧ p.KeysFresh twoWorkers) ∧
    (∀ actions p, run twoWorkers (start twoWorkers) actions = some p → draws actions ≤ 1000 →
      p.KeysFresh twoWorkers) ∧
    ¬ ∀ actions p, run twoWorkers (start twoWorkers) actions = some p → draws actions ≤ 1001 →
      p.KeysFresh twoWorkers := by
  have hiff := onePass_keysFresh_iff twoWorkers accepted_twoWorkers rfl
  refine ⟨?_, (hiff.2 1000 (by decide)).mpr (by decide), ?_⟩
  · have hworkers : ∀ w ∈ ([1, 0] : List ℕ), (w : ℤ) < twoWorkers.concurrency.toInt := by decide
    obtain ⟨p, hrun, hmem⟩ := run_rounds (o := twoWorkers) rfl rfl hworkers
    have htwo : twoWorkers.Fits 2 := by decide
    obtain ⟨hdraws, hfits⟩ := fits_of_run accepted_twoWorkers rfl htwo hrun (by decide)
    exact ⟨p, hrun, hmem 0 1 rfl, hmem 1 0 rfl, hfits,
      (hiff.1 _ p hrun hdraws hfits).2 (by decide)⟩
  · intro hall
    exact absurd ((hiff.2 1001 (by decide)).mp hall) (by decide)

/-- Worker 1 reads its first batch, and then worker 0 reads a thousand: the last of these starts
with the key that worker 1 has started with. -/
theorem keys_reused_twoWorkers :
    twoWorkers.Accepted ∧ twoWorkers.pattern = .onePass ∧
    ∃ p, run twoWorkers (start twoWorkers) (rounds (1 :: List.replicate 1000 0)) = some p ∧
      draws (rounds (1 :: List.replicate 1000 0)) < 2^64 ∧
      (∀ c ∈ p.calls, c.Fits twoWorkers) ∧ ¬ (p.keys twoWorkers).Nodup := by
  have hapart : ¬ twoWorkers.Apart 1001 := by decide
  have hfits : twoWorkers.Fits 1001 := by decide
  obtain ⟨p, hrun, hdraws, hnodup⟩ := exists_run_of_not_apart accepted_twoWorkers rfl hapart
  obtain ⟨hlt, hcalls⟩ := fits_of_run accepted_twoWorkers rfl hfits hrun hdraws
  exact ⟨accepted_twoWorkers, rfl, p, hrun, hlt, hcalls, hnodup⟩

end CacheServer.Bench.Load
