import CacheServer.Lib.Paging
import CacheServer.Manager.Glob
import CacheServer.Manager.Operations

/-!
# Scanning keys

`CacheManager::scan`. A page walks CacheLib's iterator from the start, skips up to the cursor, and
collects the keys that match until it has enough of them. The order of the walk is CacheLib's own,
so that the items that the iterator visits are an input.
-/

namespace CacheServer

/-- An item that the iterator visits, with the second that the clock shows then. -/
structure Visit where
  /-- The item's key. -/
  key : Bytes
  /-- The item. -/
  item : Item
  /-- The second. -/
  now : UInt32
deriving DecidableEq, Repr

/-- `KeyInfo`. -/
structure KeyInfo where
  /-- The key. -/
  key : Bytes
  /-- Remaining TTL in seconds, `-1` if there is no expiry, `0` if the item has expired. -/
  ttlRemaining : ℤ := 0
  /-- The size of its value. -/
  sizeBytes : ℕ := 0
deriving DecidableEq, Repr

/-- `ScanResult`. -/
structure ScanResult where
  /-- The keys of the page. -/
  keys : List Bytes := []
  /-- Filled in when details are asked for. -/
  keyDetails : List KeyInfo := []
  /-- The cursor for the next page, empty when there is none. -/
  nextCursor : Bytes := []
  /-- Something is left for the next page. -/
  hasMore : Bool := false
deriving DecidableEq, Repr

/-- The metadata of a visited item. -/
def Visit.keyInfo (visit : Visit) : KeyInfo where
  key := visit.key
  ttlRemaining := visit.item.ttlRemaining visit.now
  sizeBytes := visit.item.value.length

/-- The count of a request, brought into the range that `scan` allows. -/
def clampCount (count : Int32) : Int32 :=
  let count := if count ≤ 0 then 100 else count
  if count > 10000 then 10000 else count

/-- The key of a visited item, and its metadata if they are asked for, are pushed back. -/
def ScanResult.push (result : ScanResult) (includeDetails : Bool) (visit : Visit) : ScanResult :=
  { result with
    keys := result.keys ++ [visit.key]
    keyDetails :=
      if includeDetails then result.keyDetails ++ [visit.keyInfo] else result.keyDetails }

/-- The loop of `scan` over the items that are left to visit. -/
def scanLoop (pattern cursor : Bytes) (count : ℤ) (includeDetails : Bool) :
    List Visit → Bool → ℕ → ScanResult → ScanResult
  | [], _, _, result => result
  | visit :: visits, pastCursor, matched, result =>
    if !pastCursor then
      scanLoop pattern cursor count includeDetails visits (visit.key = cursor) matched result
    else if matchesPattern visit.key pattern then
      let result := result.push includeDetails visit
      let matched := matched + 1
      if matched ≥ count then
        -- There is more if there are items left, whether they match or not.
        if visits.isEmpty then result else { result with hasMore := true, nextCursor := visit.key }
      else scanLoop pattern cursor count includeDetails visits pastCursor matched result
    else scanLoop pattern cursor count includeDetails visits pastCursor matched result

/-- `scan`, on the items that the iterator visits. -/
def CacheManager.scan (m : CacheManager) (walk : List Visit) (pattern cursor : Bytes)
    (count : Int32) (includeDetails : Bool) : ScanResult :=
  match m.cache with
  | none => {}
  | some _ =>
    scanLoop pattern cursor (clampCount count).toInt includeDetails walk cursor.isEmpty 0 {}

/-! ## The limit -/

/-- The number of keys that a page may have: 100 for a count that is not positive, and the count up
to 10000 for any other. -/
def pageLimit (count : Int32) : ℕ :=
  if count.toInt ≤ 0 then 100 else min count.toInt.toNat 10000

/-- The clamped count is the limit. -/
theorem toInt_clampCount (count : Int32) : (clampCount count).toInt = pageLimit count := by
  simp only [pageLimit, clampCount, Int32.le_iff_toInt_le, Int32.toInt_zero, gt_iff_lt,
    Int32.lt_iff_toInt_lt]
  by_cases hpos : count.toInt ≤ 0
  · simp only [hpos, if_true]
    decide
  · have h10000 : (10000 : Int32).toInt = 10000 := by decide
    simp only [hpos, if_false, h10000]
    split_ifs with hmax
    · simp only [h10000]
      omega
    · omega

/-- A page may have at least one key. -/
theorem pageLimit_pos (count : Int32) : 0 < pageLimit count := by
  simp only [pageLimit]
  split_ifs <;> omega

/-! ## One page -/

/-- The items that match, of those that a page has looked at. -/
def hits (pattern : Bytes) (seen : List Visit) : List Visit :=
  seen.filter fun visit => matchesPattern visit.key pattern

/-- The page that has looked at some items and leaves others over. -/
def pageResult (pattern : Bytes) (includeDetails : Bool) (seen rest : List Visit) :
    ScanResult where
  keys := (hits pattern seen).map Visit.key
  keyDetails := if includeDetails then (hits pattern seen).map Visit.keyInfo else []
  nextCursor := if rest.isEmpty then [] else ((seen.map Visit.key).getLast?).getD []
  hasMore := !rest.isEmpty

/-- A page's keys and details, after those that have been collected before. -/
def ScanResult.prepend (collected result : ScanResult) : ScanResult :=
  { result with
    keys := collected.keys ++ result.keys
    keyDetails := collected.keyDetails ++ result.keyDetails }

/-- The cursor that a request names, where an empty one stands for none. -/
def cursorKey (cursor : Bytes) : Option Bytes := if cursor.isEmpty then none else some cursor

/-- The items that are visited after the cursor. -/
def visitsAfter (cursor : Bytes) (walk : List Visit) : List Visit :=
  if cursor.isEmpty then walk else (walk.dropWhile (·.key != cursor)).tail

/-- The keys of the items after the cursor are the keys after the cursor. -/
theorem map_key_visitsAfter (cursor : Bytes) (walk : List Visit) :
    (visitsAfter cursor walk).map Visit.key =
      Paging.after (cursorKey cursor) (walk.map Visit.key) := by
  simp only [visitsAfter, cursorKey]
  split_ifs
  · rfl
  · simp only [Paging.after, List.map_tail, List.dropWhile_map, Function.comp_def]

/-- The loop skips the items up to the cursor. -/
theorem scanLoop_skip (pattern cursor : Bytes) (count : ℤ) (includeDetails : Bool)
    (walk : List Visit) (matched : ℕ) (result : ScanResult) :
    scanLoop pattern cursor count includeDetails walk false matched result =
      scanLoop pattern cursor count includeDetails (walk.dropWhile (·.key != cursor)).tail true
        matched result := by
  induction walk with
  | nil => rfl
  | cons visit visits ih =>
    -- The cursor itself is skipped too, and the items after it are not.
    rw [scanLoop]
    by_cases hkey : visit.key = cursor
    · simp [hkey]
    · simpa [hkey] using ih

/-- A page with one more item in front of those that it has looked at. -/
theorem prepend_pageResult_cons {pattern : Bytes} {visit : Visit} {seen rest : List Visit}
    (hseen : rest ≠ [] → seen ≠ []) (includeDetails : Bool) (result : ScanResult) :
    result.prepend (pageResult pattern includeDetails (visit :: seen) rest) =
      (if matchesPattern visit.key pattern then result.push includeDetails visit
        else result).prepend (pageResult pattern includeDetails seen rest) := by
  by_cases hrest : rest = []
  · split_ifs with hmatch <;> cases includeDetails <;>
      simp [ScanResult.prepend, ScanResult.push, pageResult, hits, hmatch, hrest]
  · have hlast : (visit :: seen).getLast? = seen.getLast? :=
      List.getLast?_cons_of_ne_nil (hseen hrest)
    split_ifs with hmatch <;> cases includeDetails <;>
      simp only [ScanResult.prepend, ScanResult.push, pageResult, hits, List.getLast?_map, hlast,
        List.filter_cons, hmatch] <;>
      simp

/-- Past the cursor, the loop collects a page of the keys that are still missing. -/
theorem scanLoop_past (pattern cursor : Bytes) (includeDetails : Bool) (visits : List Visit)
    (matched : ℕ) {missing : ℕ} (hpos : 0 < missing) (result : ScanResult)
    (hmore : result.hasMore = false) (hcursor : result.nextCursor = []) :
    ∃ seen rest,
      Paging.IsPage (fun visit => matchesPattern visit.key pattern) missing visits seen rest ∧
      scanLoop pattern cursor ((matched + missing : ℕ) : ℤ) includeDetails visits true matched
        result = result.prepend (pageResult pattern includeDetails seen rest) := by
  induction visits generalizing matched missing result with
  | nil =>
    refine ⟨[], [], .nil _ _, ?_⟩
    obtain ⟨keys, details, next, more⟩ := result
    simp_all [scanLoop, ScanResult.prepend, pageResult, hits]
  | cons visit visits ih =>
    rw [scanLoop]
    by_cases hmatch : matchesPattern visit.key pattern = true
    · simp only [Bool.not_true, Bool.false_eq_true, if_false, hmatch, if_true, ge_iff_le,
        Nat.cast_le]
      obtain ⟨missing, rfl⟩ : ∃ k, missing = k + 1 := ⟨missing - 1, by omega⟩
      cases missing with
      | zero =>
        -- The page is full, and whatever is left to visit is left over.
        refine ⟨[visit], visits, .stop (by exact hmatch) visits, ?_⟩
        cases visits <;> cases includeDetails <;>
          simp_all [ScanResult.prepend, ScanResult.push, pageResult, hits]
      | succ missing =>
        -- The item is collected, and one fewer is missing.
        have hnot : ¬ matched + (missing + 1 + 1) ≤ matched + 1 := by omega
        have hsum : matched + 1 + (missing + 1) = matched + (missing + 1 + 1) := by omega
        obtain ⟨seen, rest, hpage, heq⟩ :=
          ih (matched + 1) (Nat.succ_pos missing) (result.push includeDetails visit) hmore hcursor
        refine ⟨visit :: seen, rest, hpage.hit (by exact hmatch), ?_⟩
        rw [prepend_pageResult_cons (hpage.seen_ne_nil (by omega)), if_pos hmatch,
          if_neg hnot, ← heq, ← hsum]
    · obtain ⟨seen, rest, hpage, heq⟩ := ih matched hpos result hmore hcursor
      refine ⟨visit :: seen, rest, hpage.miss (by simpa using hmatch) hpos, ?_⟩
      rw [prepend_pageResult_cons (hpage.seen_ne_nil hpos)]
      simpa only [Bool.not_true, Bool.false_eq_true, if_false, hmatch] using heq

/-- With a cache, `scan` returns a page of the items that are visited after the cursor. -/
theorem CacheManager.scan_eq_pageResult {m : CacheManager} (hready : m.isReady = true)
    (walk : List Visit) (pattern cursor : Bytes) (count : Int32) (includeDetails : Bool) :
    ∃ seen rest,
      Paging.IsPage (fun visit => matchesPattern visit.key pattern) (pageLimit count)
        (visitsAfter cursor walk) seen rest ∧
      m.scan walk pattern cursor count includeDetails =
        pageResult pattern includeDetails seen rest := by
  obtain ⟨store, hm⟩ := Option.isSome_iff_exists.mp hready
  obtain ⟨seen, rest, hpage, heq⟩ :=
    scanLoop_past pattern cursor includeDetails (visitsAfter cursor walk) 0
      (pageLimit_pos count) {} rfl rfl
  refine ⟨seen, rest, hpage, ?_⟩
  simp only [scan, hm, toInt_clampCount]
  rw [Nat.zero_add] at heq
  calc scanLoop pattern cursor (pageLimit count) includeDetails walk cursor.isEmpty 0 {}
      = scanLoop pattern cursor (pageLimit count) includeDetails (visitsAfter cursor walk) true 0
          {} := by
        cases hcursor : cursor.isEmpty with
        | true => simp [visitsAfter, hcursor]
        | false => simp only [scanLoop_skip, visitsAfter, hcursor, Bool.false_eq_true, if_false]
    _ = pageResult pattern includeDetails seen rest := by
        rw [heq]
        simp [ScanResult.prepend]

end CacheServer
