import CacheServer.Lib.Decimal
import CacheServer.Lib.LittleEndian
import CacheServer.Manager.CacheLib

/-!
# Media objects

The HTTP benchmark asks for objects by path, `/obj/<size>/<index>`, and every byte of an object
follows from its path. `http_service.py` makes the bytes and reads the paths, and `httpbench.go`
writes the paths and checks the bytes. They are separate programs in two languages, and
`validBody_iff` and `route_objPath` say that they agree.
-/

namespace CacheServer.Bench.Media

/-! ## `http_service.py` -/

/-- `bytes(range(256))`. -/
def byteRange : Bytes := (List.range 256).map UInt8.ofNat

/-- `payload`, which raises when the index does not fit into eight bytes. -/
def payload (size index : ℕ) : Option Bytes :=
  let body := ((List.replicate (size / 256 + 1) byteRange).flatten).take size
  if index < 2^64 then some (LittleEndian.toBytes 8 index ++ body.drop 8) else none

/-- `re.fullmatch(r"/obj/(\d+)/(\d+)", path)`. The request line is decoded as Latin-1, in which
there are no other decimal digits than those of ASCII. -/
def matchPath (path : Bytes) : Option (Bytes × Bytes) :=
  if path.take 5 = "/obj/".toUTF8.data.toList then
    let rest := path.drop 5
    match rest.takeWhile Decimal.isDigit, rest.dropWhile Decimal.isDigit with
    | size, 47 :: index =>
      if size ≠ [] ∧ index ≠ [] ∧ index.all Decimal.isDigit then some (size, index) else none
    | _, _ => none
  else none

/-- Where `do_GET` sends a request. -/
inductive Route
  | stats
  | error (code : ℕ)
  | object (size index : ℕ)
  /-- An exception, and no response. -/
  | raises
deriving DecidableEq, Repr

/-- `do_GET` as far as it looks at the path. Python does not convert more than 4300 digits. -/
def route (path : Bytes) : Route :=
  if path = "/stats".toUTF8.data.toList then .stats
  else
    match matchPath path with
    | none => .error 404
    | some (size, index) =>
      if 4300 < size.length ∨ 4300 < index.length then .raises
      else
        let (size, index) := (Decimal.value size, Decimal.value index)
        if size < 8 ∨ 1048576 < size then .error 413 else .object size index

/-! ## `httpbench.go` -/

/-- `expected` of `main`. -/
def expected (size : ℕ) : Bytes := (List.range size).map fun i => UInt8.ofNat (i % 256)

/-- `validBody`. -/
def validBody (body canonical : Bytes) (key : Int64) : Bool :=
  if body.length ≠ canonical.length ∨ body.length < 8 then false
  else
    UInt64.ofNat (LittleEndian.ofBytes (body.take 8)) = key.toUInt64 &&
      body.drop 8 = canonical.drop 8

/-- The path of the object with the key. -/
def objPath (size key : ℕ) : Bytes :=
  "/obj/".toUTF8.data.toList ++ Decimal.ofNat size ++ [47] ++ Decimal.ofNat key

/-- `-pattern`. -/
inductive Pattern
  | repeated
  | recentReplay
  | onePass
deriving DecidableEq, Repr

/-- The repeated range is the pattern that the client expects. -/
theorem flatten_replicate_byteRange (k : ℕ) :
    (List.replicate k byteRange).flatten = expected (256 * k) := by
  induction k with
  | zero => rfl
  | succ k ih =>
    have hblock : byteRange = (List.range 256).map fun i => UInt8.ofNat ((256 * k + i) % 256) := by
      refine List.map_congr_left fun i hi => ?_
      have := List.mem_range.mp hi
      congr 1
      omega
    rw [List.replicate_succ', List.flatten_append, ih, List.flatten_singleton, Nat.mul_succ]
    simp only [expected, List.range_add, List.map_append, List.map_map]
    rw [hblock]
    rfl

/-- The body that `payload` starts from is the one that the client expects. -/
theorem take_flatten_byteRange (size : ℕ) :
    ((List.replicate (size / 256 + 1) byteRange).flatten).take size = expected size := by
  rw [flatten_replicate_byteRange, expected, expected, ← List.map_take, List.take_range]
  congr 2
  omega

/-- For every size that the service serves and every key of the client, the client accepts exactly
the body that the service makes for that size and key. -/
theorem validBody_iff {size : ℕ} (hsize : 8 ≤ size) {key : Int64} (hkey : 0 ≤ key.toInt)
    (body : Bytes) :
    validBody body (expected size) key = true ↔ payload size key.toInt.toNat = some body := by
  have hlength : (expected size).length = size := by simp [expected]
  have hword : key.toUInt64.toNat = key.toInt.toNat :=
    Int64.toNat_toUInt64_of_le (Int64.le_iff_toInt_le.mpr (by simpa using hkey))
  have hfits : key.toInt.toNat < 2^64 := by
    have := key.toInt_lt
    omega
  rw [payload, if_pos hfits, take_flatten_byteRange, Option.some.injEq]
  constructor
  · intro h
    unfold validBody at h
    split_ifs at h with hlen
    simp only [hlength, not_or, ne_eq, not_not, not_lt] at hlen
    simp only [Bool.and_eq_true, decide_eq_true_eq] at h
    -- The client compares a number and a tail, and the service writes bytes in front of a tail.
    obtain ⟨hhead, htail⟩ := h
    have htake : (body.take 8).length = 8 := by simp; omega
    -- The bytes are eight, so the number that they make is the key itself.
    have hof : LittleEndian.ofBytes (body.take 8) = key.toInt.toNat := by
      have hlt := LittleEndian.ofBytes_lt (body.take 8)
      rw [htake] at hlt
      rw [← hword, ← hhead, UInt64.toNat_ofNat']
      omega
    rw [← hof, ← htail]
    nth_rewrite 1 [← htake]
    rw [LittleEndian.toBytes_ofBytes, List.take_append_drop]
  · rintro rfl
    -- The body of the service has the right length, and its eight bytes are read back.
    have hlen :
        (LittleEndian.toBytes 8 key.toInt.toNat ++ (expected size).drop 8).length = size := by
      simp [hlength]
      omega
    unfold validBody
    rw [hlen, hlength, if_neg (by omega), List.take_left' (LittleEndian.length_toBytes ..),
      List.drop_left' (LittleEndian.length_toBytes ..),
      LittleEndian.ofBytes_toBytes (by simpa using hfits)]
    simp only [decide_true, Bool.and_true, decide_eq_true_eq]
    apply UInt64.toNat_inj.mp
    rw [UInt64.toNat_ofNat', hword]
    omega

/-! ## The paths -/

/-- The service reads the sizes and keys that the client writes. -/
theorem matchPath_objPath (size key : ℕ) :
    matchPath (objPath size key) = some (Decimal.ofNat size, Decimal.ofNat key) := by
  have hrest : objPath size key =
      "/obj/".toUTF8.data.toList ++ (Decimal.ofNat size ++ 47 :: Decimal.ofNat key) := by
    simp [objPath]
  have hfive : "/obj/".toUTF8.data.toList.length = 5 := by decide
  -- The slash ends the digits of the size.
  have hslash : Decimal.isDigit 47 = false := by decide
  have hdigits : ∀ n : ℕ, ∀ b ∈ Decimal.ofNat n, Decimal.isDigit b = true :=
    fun n b hb => Decimal.isDigit_of_mem_ofNat hb
  rw [matchPath, hrest, List.take_left' hfive, List.drop_left' hfive, if_pos rfl]
  simp only [List.takeWhile_append_of_pos (hdigits size),
    List.dropWhile_append_of_pos (hdigits size)]
  simp [hslash, Decimal.ofNat_ne_nil]
  exact hdigits key

/-- Numbers of up to twenty digits have short texts. -/
theorem length_ofNat_le {n : ℕ} (h : n < 10^20) : (Decimal.ofNat n).length ≤ 20 := by
  unfold Decimal.ofNat
  split_ifs
  · simp
  · simpa using (Nat.digits_length_le_iff (by decide) n).mpr h

/-- The path of an object that the service serves is taken to it. -/
theorem route_objPath {size key : ℕ} (hsize : 8 ≤ size) (hsize' : size ≤ 1048576)
    (hkey : key < 2^64) : route (objPath size key) = .object size key := by
  have hne : objPath size key ≠ "/stats".toUTF8.data.toList := by
    intro h
    have hpath := matchPath_objPath size key
    rw [h, show matchPath "/stats".toUTF8.data.toList = none by decide] at hpath
    cases hpath
  -- A size and a key of at most twenty digits are short enough for `int`.
  have hlen : ¬ (4300 < (Decimal.ofNat size).length ∨ 4300 < (Decimal.ofNat key).length) := by
    have h1 := length_ofNat_le (show size < 10^20 by omega)
    have h2 := length_ofNat_le (show key < 10^20 by omega)
    omega
  rw [route, if_neg hne, matchPath_objPath]
  simp only [if_neg hlen, Decimal.value_ofNat]
  rw [if_neg (by omega)]

end CacheServer.Bench.Media
