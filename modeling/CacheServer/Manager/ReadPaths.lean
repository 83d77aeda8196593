import CacheServer.Manager.Frame
import CacheServer.Manager.Scan

/-!
# The time that readers are told

`get`, `getTTL`, and `scan` each compute the remaining TTL of an item in unsigned 32-bit arithmetic,
with `-1` for no expiry, `-2` for no key, and `0` for the second of the deadline. Whether there is a
key at all is decided by CacheLib, whose comparison is strict, and the three computations compare
the other way round. `read_paths_agree` says that they tell the same time, at every second and
between any writes to other keys.
-/

namespace CacheServer

/-- The item is stored under the key, and its deadline has not passed. -/
def CacheManager.Live (m : CacheManager) (now : UInt32) (key : Bytes) : Prop :=
  ∃ item, m.stored key = some item ∧ ¬ (item.expiryTime ≠ 0 ∧ item.expiryTime < now)

/-- The seconds from `now` to the deadline, and `-1` for an item without one. -/
def Item.secondsLeft (item : Item) (now : UInt32) : ℤ :=
  if item.expiryTime = 0 then -1 else (item.expiryTime.toNat : ℤ) - now.toNat

/-- The iterator visits items that are stored, all at the second `now`. -/
def VisitsStored (m : CacheManager) (now : UInt32) (walk : List Visit) : Prop :=
  ∀ visit ∈ walk, m.stored visit.key = some visit.item ∧ visit.now = now

/-- The call does not write to the key: it is for another one, or only reads. -/
def Op.Spares (key : Bytes) : Op → Prop
  | .get _ | .exists _ | .getTTL _ => True
  | op => op.key ≠ key

/-! ## One item -/

/-- An item is live exactly when CacheLib does not take it for expired. -/
theorem Item.isExpired_eq_false_iff {item : Item} {now : UInt32} :
    item.isExpired now = false ↔ ¬ (item.expiryTime ≠ 0 ∧ item.expiryTime < now) := by
  simp [Item.isExpired]

/-- The remaining TTL of an item that has not expired is the time to its deadline. -/
theorem Item.ttlRemaining_of_live {item : Item} {now : UInt32}
    (h : item.isExpired now = false) : item.ttlRemaining now = item.secondsLeft now := by
  simp only [Item.ttlRemaining, Item.secondsLeft]
  split_ifs with hzero hgt
  · rfl
  · rw [UInt32.toNat_sub_of_le _ _ (UInt32.le_of_lt hgt),
      Int.ofNat_sub (UInt32.le_iff_toNat_le.mp (UInt32.le_of_lt hgt))]
  · -- The deadline is the present second.
    have hlt := not_and.mp (Item.isExpired_eq_false_iff.mp h) hzero
    have heq : item.expiryTime = now :=
      UInt32.le_antisymm (UInt32.not_lt.mp hgt) (UInt32.not_lt.mp hlt)
    rw [heq, Int.sub_self]

/-- The remaining TTL of an item that has expired is zero. -/
theorem Item.ttlRemaining_of_expired {item : Item} {now : UInt32}
    (h : item.isExpired now = true) : item.ttlRemaining now = 0 := by
  obtain ⟨hne, hlt⟩ : item.expiryTime ≠ 0 ∧ item.expiryTime < now := by
    simpa [Item.isExpired] using h
  have hgt : ¬ item.expiryTime > now := UInt32.not_lt.mpr (UInt32.le_of_lt hlt)
  rw [Item.ttlRemaining, if_neg hne, if_neg hgt]

/-- The time to the deadline of an item that has not expired is `-1` without a deadline, and not
negative with one. -/
theorem Item.secondsLeft_spec {item : Item} {now : UInt32} (h : item.isExpired now = false) :
    (item.secondsLeft now = -1 ↔ item.expiryTime = 0) ∧
      (item.expiryTime ≠ 0 →
        item.secondsLeft now = (item.expiryTime.toNat : ℤ) - now.toNat ∧
          0 ≤ item.secondsLeft now) := by
  simp only [Item.secondsLeft]
  split_ifs with hzero
  · exact ⟨iff_of_true rfl hzero, fun hne => absurd hzero hne⟩
  · have hle : now ≤ item.expiryTime :=
      UInt32.not_lt.mp (not_and.mp (Item.isExpired_eq_false_iff.mp h) hzero)
    have hnat := UInt32.le_iff_toNat_le.mp hle
    refine ⟨iff_of_false (by omega) hzero, fun _ => ⟨rfl, by omega⟩⟩

/-! ## The readers -/

section

variable {m : CacheManager} {now : UInt32} {key : Bytes} {item : Item}

/-- What `get`, `exists`, and `getTTL` say of a key that is not live. -/
theorem readers_of_not_live (h : ¬ m.Live now key) :
    (m.get { now } key).1.found = false ∧ m.exists { now } key = false ∧
      m.getTTL { now } key = -2 := by
  cases hm : m.cache with
  | none => simp [CacheManager.get, CacheManager.exists, CacheManager.getTTL, hm]
  | some store =>
    have hfind : store.find now key = none := by
      refine Store.find_eq_none_iff.mpr fun item hitem => ?_
      by_contra hexpired
      refine h ⟨item, by simp [CacheManager.stored, hm, hitem], ?_⟩
      exact Item.isExpired_eq_false_iff.mp (Bool.eq_false_iff.mpr hexpired)
    simp [CacheManager.get, CacheManager.exists, CacheManager.getTTL, hm, hfind]

/-- What `get`, `exists`, and `getTTL` say of a key that is live. -/
theorem readers_of_live (hitem : m.stored key = some item) (hlive : item.isExpired now = false) :
    (m.get { now } key).1 =
        { found := true, value := item.value, ttlRemaining := item.secondsLeft now } ∧
      m.exists { now } key = true ∧ m.getTTL { now } key = item.secondsLeft now := by
  obtain ⟨store, hm, hstore⟩ := Option.bind_eq_some_iff.mp hitem
  have hfind : store.find now key = some item := Store.find_eq_some_iff.mpr ⟨hstore, hlive⟩
  simp [CacheManager.get, CacheManager.exists, CacheManager.getTTL, hm, hfind,
    Item.ttlRemaining_of_live hlive]

/-- The details that `scan` reports are those of visited items. -/
theorem scan_keyDetails {walk : List Visit} {pattern cursor : Bytes} {count : Int32}
    {info : KeyInfo} (h : info ∈ (m.scan walk pattern cursor count true).keyDetails) :
    ∃ visit ∈ walk, info = visit.keyInfo := by
  cases hready : m.isReady with
  | false =>
    have hm : m.cache = none := by simpa [CacheManager.isReady] using hready
    simp [CacheManager.scan, hm] at h
  | true =>
    obtain ⟨seen, rest, hpage, heq⟩ := m.scan_eq_pageResult hready walk pattern cursor count true
    rw [heq] at h
    obtain ⟨visit, hvisit, rfl⟩ := List.mem_map.mp h
    have hseen : visit ∈ seen := List.mem_of_mem_filter hvisit
    have hafter : visit ∈ visitsAfter cursor walk := by
      rw [hpage.split]
      exact List.mem_append_left _ hseen
    refine ⟨visit, ?_, rfl⟩
    simp only [visitsAfter] at hafter
    split_ifs at hafter
    · exact hafter
    · exact (List.dropWhile_sublist _).mem (List.mem_of_mem_tail hafter)

/-- The TTL that `scan` reports for a stored item is the one that `get` would compute. -/
theorem scan_ttlRemaining {walk : List Visit} (hwalk : VisitsStored m now walk)
    {pattern cursor : Bytes} {count : Int32} {info : KeyInfo}
    (h : info ∈ (m.scan walk pattern cursor count true).keyDetails)
    (hitem : m.stored info.key = some item) : info.ttlRemaining = item.ttlRemaining now := by
  obtain ⟨visit, hvisit, rfl⟩ := scan_keyDetails h
  obtain ⟨hstored, rfl⟩ := hwalk visit hvisit
  rw [Option.some.inj (hitem.symm.trans hstored)]
  rfl

/-! ## Between writes -/

/-- A call that does not write to a key leaves its item. -/
theorem Op.stored_of_spares {op : Op} (h : op.Spares key) (env : Env) :
    (op.exec env m).2.stored key = m.stored key := by
  cases op with
  | get k =>
    have hcache := m.get_cache env k
    simp only [Op.exec, Prod.map, id, CacheManager.stored, hcache]
  | «exists» k => rfl
  | getTTL k => rfl
  | set k value ttl => exact m.stored_set_of_ne env (Ne.symm h) value ttl
  | remove k => exact m.stored_remove_of_ne env (Ne.symm h)
  | atomic op =>
    simp only [Op.exec]
    cases hs : (op.exec env m).1.success with
    | true => exact AtomicOp.stored_of_success hs (Ne.symm h)
    | false => rw [CacheManager.stored, AtomicOp.exec_of_not_success hs, CacheManager.stored]

/-- Calls that do not write to a key leave its item. -/
theorem execAll_stored_of_spares {calls : List (Env × Op)} (h : ∀ x ∈ calls, x.2.Spares key) :
    (execAll m calls).2.stored key = m.stored key := by
  induction calls generalizing m with
  | nil => rfl
  | cons x calls ih =>
    obtain ⟨env, op⟩ := x
    have hone := Op.stored_of_spares (m := m) (h (env, op) List.mem_cons_self) env
    exact (ih fun y hy => h y (List.mem_cons_of_mem _ hy)).trans hone

end

/-! ## The readers together -/

/-- `get`, `exists`, `getTTL`, and the details of a scan tell the same of a key at a second. -/
structure TellsTime (m : CacheManager) (now : UInt32) (key : Bytes) (details : List KeyInfo) :
    Prop where
  /-- `get` finds the key exactly when it is live. -/
  found_iff : (m.get { now } key).1.found = true ↔ m.Live now key
  /-- So does `exists`. -/
  exists_iff : m.exists { now } key = true ↔ m.Live now key
  /-- So does `getTTL`. -/
  getTTL_iff : m.getTTL { now } key ≠ -2 ↔ m.Live now key
  /-- The TTL of a key that is there is `-1` without a deadline, and the seconds to it otherwise. -/
  live : ∀ item, m.stored key = some item → m.Live now key →
    (m.get { now } key).1.ttlRemaining = item.secondsLeft now ∧
    m.getTTL { now } key = item.secondsLeft now ∧
    (∀ info ∈ details, info.key = key → info.ttlRemaining = item.secondsLeft now) ∧
    (item.secondsLeft now = -1 ↔ item.expiryTime = 0) ∧
    (item.expiryTime ≠ 0 →
      item.secondsLeft now = (item.expiryTime.toNat : ℤ) - now.toNat ∧ 0 ≤ item.secondsLeft now)
  /-- A scan that still lists an item that has expired reports `0`. -/
  expired : ∀ item, m.stored key = some item → ¬ m.Live now key →
    ∀ info ∈ details, info.key = key → info.ttlRemaining = 0

/-- What is told of a key in one state, and in another one at a later second. -/
structure CountsDown (m : CacheManager) (now : UInt32) (m' : CacheManager) (later : UInt32)
    (key : Bytes) : Prop where
  /-- The key is there up to its deadline. -/
  until_deadline : ∀ item, m.stored key = some item → item.expiryTime ≠ 0 →
    (m'.Live later key ↔ later ≤ item.expiryTime)
  /-- Its TTL goes down by the seconds that have passed. -/
  elapsed : ∀ item, m.stored key = some item → item.expiryTime ≠ 0 → m'.Live later key →
    (m'.get { now := later } key).1.ttlRemaining =
        (m.get { now } key).1.ttlRemaining - ((later.toNat : ℤ) - now.toNat) ∧
      m'.getTTL { now := later } key = m.getTTL { now } key - ((later.toNat : ℤ) - now.toNat)
  /-- Without a deadline, it stays. -/
  unlimited : ∀ item, m.stored key = some item → item.expiryTime = 0 →
    m'.Live later key ∧ (m'.get { now := later } key).1.ttlRemaining = -1 ∧
      m'.getTTL { now := later } key = -1
  /-- A key that is not there does not come back. -/
  gone : ¬ m.Live now key → ¬ m'.Live later key

section

variable {m m' : CacheManager} {now later : UInt32} {key : Bytes} {item : Item}

/-- An item that is stored is live exactly when it has not expired. -/
theorem live_iff (hitem : m.stored key = some item) :
    m.Live now key ↔ item.isExpired now = false := by
  simp [CacheManager.Live, hitem, Item.isExpired_eq_false_iff]

/-- The readers agree. -/
theorem tellsTime {walk : List Visit} (hwalk : VisitsStored m now walk) (pattern cursor : Bytes)
    (count : Int32) :
    TellsTime m now key (m.scan walk pattern cursor count true).keyDetails := by
  have hscan : ∀ item, m.stored key = some item →
      ∀ info ∈ (m.scan walk pattern cursor count true).keyDetails, info.key = key →
        info.ttlRemaining = item.ttlRemaining now := by
    rintro item hitem info hinfo rfl
    exact scan_ttlRemaining hwalk hinfo hitem
  by_cases hlive : m.Live now key
  · obtain ⟨item, hitem, hnot⟩ := hlive
    have hexpired := Item.isExpired_eq_false_iff.mpr hnot
    obtain ⟨hget, hexists, hgetTTL⟩ := readers_of_live hitem hexpired
    have hspec := Item.secondsLeft_spec hexpired
    have hne : item.secondsLeft now ≠ -2 := by
      by_cases hzero : item.expiryTime = 0
      · rw [hspec.1.mpr hzero]
        decide
      · have hpos := (hspec.2 hzero).2
        omega
    have hlive := (live_iff hitem).mpr hexpired
    refine ⟨iff_of_true (by rw [hget]) hlive, iff_of_true hexists hlive,
      iff_of_true (by rwa [hgetTTL]) hlive, ?_, fun _ _ hdead => absurd hlive hdead⟩
    intro item' hitem' _
    obtain rfl := Option.some.inj (hitem.symm.trans hitem')
    refine ⟨by rw [hget], hgetTTL, fun info hinfo hkey => ?_, hspec⟩
    rw [hscan item hitem info hinfo hkey, Item.ttlRemaining_of_live hexpired]
  · obtain ⟨hget, hexists, hgetTTL⟩ := readers_of_not_live hlive
    refine ⟨iff_of_false (by simp [hget]) hlive, iff_of_false (by simp [hexists]) hlive,
      iff_of_false (by simp [hgetTTL]) hlive, fun _ _ h => absurd h hlive, ?_⟩
    intro item hitem _ info hinfo hkey
    have hexpired : item.isExpired now = true := by
      simpa using mt (live_iff hitem).mpr hlive
    rw [hscan item hitem info hinfo hkey, Item.ttlRemaining_of_expired hexpired]

/-- As long as the item of a key stays, what is told of it counts down. -/
theorem countsDown (hstored : m'.stored key = m.stored key) (hlater : now ≤ later) :
    CountsDown m now m' later key := by
  -- An item that has not expired later on has not expired now.
  have hback : ∀ item : Item, item.isExpired later = false → item.isExpired now = false := by
    intro item h
    rw [Item.isExpired_eq_false_iff] at h ⊢
    exact fun hnow => h ⟨hnow.1, UInt32.lt_of_lt_of_le hnow.2 hlater⟩
  refine ⟨fun item hitem hne => ?_, fun item hitem hne hlive => ?_, fun item hitem hzero => ?_, ?_⟩
  · rw [live_iff (hstored.trans hitem), Item.isExpired_eq_false_iff, not_and, UInt32.not_lt]
    exact ⟨fun h => h hne, fun h _ => h⟩
  · have hexpired := (live_iff (hstored.trans hitem)).mp hlive
    obtain ⟨hget, -, hgetTTL⟩ := readers_of_live (hstored.trans hitem) hexpired
    obtain ⟨hget', -, hgetTTL'⟩ := readers_of_live hitem (hback item hexpired)
    have hleft : item.secondsLeft later =
        item.secondsLeft now - ((later.toNat : ℤ) - now.toNat) := by
      simp only [Item.secondsLeft, if_neg hne]
      omega
    rw [hget, hgetTTL, hget', hgetTTL']
    exact ⟨hleft, hleft⟩
  · have hexpired : item.isExpired later = false := by simp [Item.isExpired, hzero]
    have hleft : item.secondsLeft later = -1 := by rw [Item.secondsLeft, if_pos hzero]
    obtain ⟨hget, -, hgetTTL⟩ := readers_of_live (hstored.trans hitem) hexpired
    rw [hget, hgetTTL]
    exact ⟨(live_iff (hstored.trans hitem)).mpr hexpired, hleft, hleft⟩
  · rintro hgone ⟨item, hitem, hnot⟩
    have hexpired := hback item (Item.isExpired_eq_false_iff.mpr hnot)
    exact hgone ((live_iff (hstored.symm.trans hitem)).mpr hexpired)

end

/-- For every state, every second, every key, and every page of a scan at that second, the readers
tell the same time; and after any calls that do not write to the key, at any later second, what they
tell has counted down by the seconds that have passed. -/
theorem read_paths_agree (m : CacheManager) {now : UInt32} (key : Bytes) {walk : List Visit}
    (hwalk : VisitsStored m now walk) (pattern cursor : Bytes) (count : Int32)
    {calls : List (Env × Op)} (hcalls : ∀ x ∈ calls, x.2.Spares key) {later : UInt32}
    (hlater : now ≤ later) :
    TellsTime m now key (m.scan walk pattern cursor count true).keyDetails ∧
      CountsDown m now (execAll m calls).2 later key :=
  ⟨tellsTime hwalk pattern cursor count, countsDown (execAll_stored_of_spares hcalls) hlater⟩

/-- A cache where the key `k` has its deadline in the second 9. -/
def expiringKey : CacheManager where
  maxItemSize := 1024
  cache := some fun key => if key = [107] then some ⟨[97], 5, 9⟩ else none

/-- The key at the second 6, and at the second of its deadline after a write to another key. -/
theorem read_paths_agree_deadline :
    TellsTime expiringKey 6 [107]
        (expiringKey.scan [⟨[107], ⟨[97], 5, 9⟩, 6⟩] [42] [] 10 true).keyDetails ∧
      CountsDown expiringKey 6 (execAll expiringKey [({ now := 7 }, .set [106] [98] 0)]).2 9
        [107] :=
  read_paths_agree expiringKey [107] (by simp [VisitsStored]; decide) [42] [] 10
    (by simp [Op.Spares, Op.key]) (by decide)

end CacheServer
