import CacheServer.Lib.Wire
import CacheServer.Manager.Lookup
import CacheServer.Service.Conditional

/-!
# The message limit

`main` gives gRPC one limit for the messages that the server receives and sends, the flag
`max_item_size` cast to an `int` plus 1024. The handlers admit every value up to the flag. A
message that carries one value fits with room to spare, as long as the cast and the sum are exact
(`single_values_fit`). A request of `CompareAndSwap` carries two values, and with the largest key
it fits for flags of up to 752 only (`transport_admits_iff`).
-/

namespace CacheServer.Service

open Wire

/-- `static_cast<int>(FLAGS_max_item_size) + 1024`. The cast keeps the low 32 bits. There is none
where the sum overflows, for which the language defines no result. -/
def messageLimit (maxItemSize : UInt64) : Option ℤ :=
  let limit := (Int32.ofNat maxItemSize.toNat).toInt + 1024
  if limit < 2^31 then some limit else none

/-- The limit is there, and a message of the size is not above it. -/
def Admits (maxItemSize : UInt64) (size : ℕ) : Prop :=
  ∃ limit, messageLimit maxItemSize = some limit ∧ (size : ℤ) ≤ limit

/-! ## Sizes of messages -/

/-- The size of a `SetRequest` or a `SetNXRequest`. -/
def SetRequest.size (r : SetRequest) : ℕ :=
  bytesSize r.key.length + bytesSize r.value.length + int64Size r.ttlSeconds

/-- The size of a `CompareAndSwapRequest`. -/
def CompareAndSwapRequest.size (r : CompareAndSwapRequest) : ℕ :=
  bytesSize r.key.length + bytesSize r.expectedValue.length + bytesSize r.newValue.length +
    uint32Size r.ttlSeconds + boolSize r.keepTtl

/-- The size of a `GetResponse`. -/
def GetResponse.size (r : GetResponse) : ℕ :=
  boolSize r.found + bytesSize r.value.length + int64Size (Int64.ofInt r.ttlRemaining)

/-- The size of a `SetNXResponse`. -/
def SetNXResponse.size (r : SetNXResponse) : ℕ :=
  boolSize r.wasSet + bytesSize r.existingValue.length + bytesSize r.message.utf8ByteSize

/-- The size of a `CompareAndSwapResponse`. -/
def CompareAndSwapResponse.size (r : CompareAndSwapResponse) : ℕ :=
  boolSize r.success + bytesSize r.actualValue.length + bytesSize r.message.utf8ByteSize

/-! ## What the limit is to admit -/

/-- The key has 1 to 255 bytes. -/
def KeyFits (key : Bytes) : Prop := 1 ≤ key.length ∧ key.length ≤ 255

/-- Such a key is not empty. -/
theorem KeyFits.isEmpty_eq {key : Bytes} (h : KeyFits key) : key.isEmpty = false := by
  have hpos := h.1
  cases key with
  | nil => simp at hpos
  | cons b key => rfl

/-- A manager that is configured with the flag, and whose stored values are within it. -/
structure Configured (maxItemSize : UInt64) (m : CacheManager) : Prop where
  /-- There is a cache. -/
  ready : m.isReady = true
  /-- Its limit is the flag. -/
  maxItemSize_eq : m.maxItemSize = maxItemSize.toNat
  /-- No stored value is above it. -/
  stored_le : ∀ key item, m.stored key = some item → item.value.length ≤ maxItemSize.toNat

/-- The messages that carry one value fit: the requests of `Set` and `SetNX` with any key and value
that the handlers admit, and the responses of `Get`, `SetNX`, and `CompareAndSwap`. -/
structure SingleValuesFit (maxItemSize : UInt64) : Prop where
  /-- A request of `Set` or of `SetNX` fits. -/
  set : ∀ request : SetRequest, KeyFits request.key →
    request.value.length ≤ maxItemSize.toNat → Admits maxItemSize request.size
  /-- A response of `Get` fits. -/
  get : ∀ env m request status response, Configured maxItemSize m → KeyFits request.key →
    (get env m request).1 = .ok (status, response) → Admits maxItemSize response.size
  /-- So does one of `SetNX`. -/
  setNX : ∀ env m request status response, Configured maxItemSize m → KeyFits request.key →
    (setNX env m request).1 = .ok (status, response) → Admits maxItemSize response.size
  /-- So does one of `CompareAndSwap`. -/
  compareAndSwap : ∀ env m request status response, Configured maxItemSize m →
    KeyFits request.key → (compareAndSwap env m request).1 = .ok (status, response) →
    Admits maxItemSize response.size

/-- The limit is what it is meant to be, and admits the messages that carry one value, and the
requests of `CompareAndSwap` with any key and values that the handlers admit. -/
structure TransportAdmits (maxItemSize : UInt64) : Prop where
  /-- The limit is the flag and room for the rest of a message. -/
  exact : messageLimit maxItemSize = some ((maxItemSize.toNat : ℤ) + 1024)
  /-- Messages with one value fit. -/
  single : SingleValuesFit maxItemSize
  /-- So do those with two. -/
  compareAndSwap : ∀ request : CompareAndSwapRequest, KeyFits request.key →
    request.expectedValue.length ≤ maxItemSize.toNat →
    request.newValue.length ≤ maxItemSize.toNat → Admits maxItemSize request.size

/-! ## The limit -/

/-- The cast and the sum are exact for flags below 2^31 - 1024, and for no others. -/
theorem messageLimit_exact_iff (maxItemSize : UInt64) :
    messageLimit maxItemSize = some ((maxItemSize.toNat : ℤ) + 1024) ↔
      maxItemSize.toNat + 1024 < 2^31 := by
  simp only [messageLimit]
  constructor
  · intro h
    -- A sum that overflows is no limit at all, and a cast that wraps gives a smaller one.
    split_ifs at h with hlt
    have heq := Option.some.inj h
    omega
  · intro h
    have hcast : (Int32.ofNat maxItemSize.toNat).toInt = maxItemSize.toNat :=
      Int32.toInt_ofNat_of_lt (by omega)
    rw [hcast, if_pos (by omega)]

section

variable {maxItemSize : UInt64} (hbound : maxItemSize.toNat + 1024 < 2^31)

include hbound

/-- Where the limit is exact, it is what decides. -/
theorem admits_iff (size : ℕ) : Admits maxItemSize size ↔ size ≤ maxItemSize.toNat + 1024 := by
  unfold Admits
  rw [(messageLimit_exact_iff maxItemSize).mpr hbound]
  simp only [Option.some.injEq, exists_eq_left']
  omega

/-- A value that the handlers admit takes at most six bytes on top of the flag. -/
theorem bytesSize_value_le {length : ℕ} (h : length ≤ maxItemSize.toNat) :
    bytesSize length ≤ 6 + maxItemSize.toNat := by
  have hdigits : maxItemSize.toNat < 128^(4 + 1) := by omega
  exact bytesSize_le h hdigits

end

/-! ## Messages with one value -/

/-- The fields of a request with one value other than the value take at most 269 bytes. -/
theorem SetRequest.size_le (r : SetRequest) (hkey : KeyFits r.key) :
    r.size ≤ bytesSize r.value.length + 269 := by
  have hk : bytesSize r.key.length ≤ 1 + 2 + 255 := bytesSize_le hkey.2 (by decide)
  have ht := int64Size_le r.ttlSeconds
  unfold SetRequest.size
  omega

/-- The fields of a response of `Get` other than the value take at most 13 bytes. -/
theorem GetResponse.size_le (r : GetResponse) : r.size ≤ bytesSize r.value.length + 13 := by
  have hf := boolSize_le r.found
  have ht := int64Size_le (Int64.ofInt r.ttlRemaining)
  unfold GetResponse.size
  omega

section

variable {maxItemSize : UInt64} {env : Env} {m : CacheManager}

/-- An item that is found is within the flag. -/
theorem Configured.found_le (hm : Configured maxItemSize m) {store : Store}
    (hstore : m.cache = some store) {now : UInt32} {key : Bytes} {item : Item}
    (h : store.find now key = some item) : item.value.length ≤ maxItemSize.toNat := by
  apply hm.stored_le key item
  simp [CacheManager.stored, hstore, (Store.find_eq_some_iff.mp h).1]

/-- The response of `Get` holds a stored value, or none. -/
theorem Configured.get_le (hm : Configured maxItemSize m) {request : KeyRequest}
    (hkey : KeyFits request.key) {status : Status} {response : GetResponse}
    (h : (get env m request).1 = .ok (status, response)) :
    response.value.length ≤ maxItemSize.toNat := by
  obtain ⟨store, hstore⟩ := Option.isSome_iff_exists.mp hm.ready
  rw [get, keyed_of_not_isEmpty hm.ready hkey.isEmpty_eq] at h
  simp only [Except.ok.injEq, Prod.mk.injEq] at h
  rw [← h.2]
  -- A miss has no value. A hit has the stored one, or none when it could not be copied.
  obtain ⟨-, hget⟩ | ⟨-, item, hitem, hget⟩ := m.get_cases env request.key
  · simp [hget]
  · have hle : item.value.length ≤ maxItemSize.toNat :=
      hm.found_le hstore (by simpa [CacheManager.found, hstore] using hitem)
    rw [hget]
    cases env.copyThrows
    · exact hle
    · exact Nat.zero_le _

/-- The response of `SetNX` holds a stored value, or none, and one of two short messages. -/
theorem Configured.setNX_le (hm : Configured maxItemSize m) {request : SetRequest}
    (hkey : KeyFits request.key) {status : Status} {response : SetNXResponse}
    (h : (setNX env m request).1 = .ok (status, response)) :
    response.existingValue.length ≤ maxItemSize.toNat ∧ response.message.utf8ByteSize ≤ 31 := by
  have hexists : "Key already exists".utf8ByteSize ≤ 31 := by decide
  obtain ⟨store, hstore⟩ := Option.isSome_iff_exists.mp hm.ready
  cases hfind : env.findThrows with
  | true => simp [setNX_of_findThrows hstore hfind hkey.isEmpty_eq] at h
  | false =>
    rw [setNX_answer hstore hfind hkey.isEmpty_eq] at h
    simp only [Except.ok.injEq, Prod.mk.injEq] at h
    rw [← h.2]
    -- A key that is there is answered with its value, and any other one without a value.
    cases hitem : store.find env.now request.key with
    | some existing => exact ⟨hm.found_le hstore hitem, hexists⟩
    | none =>
      cases env.accepts m.maxItemSize request.key request.value
      · exact ⟨Nat.zero_le _, hexists⟩
      · exact ⟨Nat.zero_le _, by decide⟩

/-- The response of `CompareAndSwap` holds a stored value, the new one that was stored, or none, and
one of two short messages. -/
theorem Configured.compareAndSwap_le (hm : Configured maxItemSize m)
    {request : CompareAndSwapRequest} (hkey : KeyFits request.key) {status : Status}
    {response : CompareAndSwapResponse}
    (h : (compareAndSwap env m request).1 = .ok (status, response)) :
    response.actualValue.length ≤ maxItemSize.toNat ∧ response.message.utf8ByteSize ≤ 31 := by
  have hmismatch : "Value mismatch or key not found".utf8ByteSize ≤ 31 := by decide
  have hswapped : "Value swapped successfully".utf8ByteSize ≤ 31 := by decide
  obtain ⟨store, hstore⟩ := Option.isSome_iff_exists.mp hm.ready
  cases hfind : env.findThrows with
  | true => simp [compareAndSwap_of_findThrows hstore hfind hkey.isEmpty_eq] at h
  | false =>
    rw [compareAndSwap_answer hstore hfind hkey.isEmpty_eq] at h
    simp only [Except.ok.injEq, Prod.mk.injEq] at h
    rw [← h.2]
    cases hitem : store.find env.now request.key with
    | none => exact ⟨Nat.zero_le _, hmismatch⟩
    | some existing =>
      simp only
      split_ifs with hswap
      · -- What is stored has passed the size check, which is by the same flag.
        have hsize := hswap.2
        simp only [Env.accepts, Bool.and_eq_true, decide_eq_true_eq, hm.maxItemSize_eq] at hsize
        exact ⟨hsize.1.1.1, hswapped⟩
      · exact ⟨hm.found_le hstore hitem, hmismatch⟩

end

/-- A response with a flag, a value, and a short message takes at most 35 bytes on top of the
value. -/
theorem valueResponse_size_le (flag : Bool) (value : ℕ) {message : ℕ} (h : message ≤ 31) :
    boolSize flag + bytesSize value + bytesSize message ≤ bytesSize value + 35 := by
  have hf := boolSize_le flag
  have hs : bytesSize message ≤ 0 + 2 + 31 := bytesSize_le h (by decide)
  omega

/-- Where the limit is exact, every message with one value fits. -/
theorem single_values_fit {maxItemSize : UInt64} (hbound : maxItemSize.toNat + 1024 < 2^31) :
    SingleValuesFit maxItemSize where
  set request hkey hvalue := by
    have hsize := request.size_le hkey
    have hv := bytesSize_value_le hbound hvalue
    exact (admits_iff hbound _).mpr (by omega)
  get env m request status response hm hkey h := by
    have hsize := response.size_le
    have hv := bytesSize_value_le hbound (hm.get_le hkey h)
    exact (admits_iff hbound _).mpr (by omega)
  setNX env m request status response hm hkey h := by
    obtain ⟨hvalue, hmessage⟩ := hm.setNX_le hkey h
    have hsize : response.size ≤ _ :=
      valueResponse_size_le response.wasSet response.existingValue.length hmessage
    have hv := bytesSize_value_le hbound hvalue
    exact (admits_iff hbound _).mpr (by omega)
  compareAndSwap env m request status response hm hkey h := by
    obtain ⟨hvalue, hmessage⟩ := hm.compareAndSwap_le hkey h
    have hsize : response.size ≤ _ :=
      valueResponse_size_le response.success response.actualValue.length hmessage
    have hv := bytesSize_value_le hbound hvalue
    exact (admits_iff hbound _).mpr (by omega)

/-! ## Requests of `CompareAndSwap` -/

/-- The request with the largest key, two values of the same size, and every field set. -/
def largestSwap (size : ℕ) : CompareAndSwapRequest where
  key := List.replicate 255 97
  expectedValue := List.replicate size 97
  newValue := List.replicate size 98
  ttlSeconds := 4294967295
  keepTtl := true

/-- The key of the largest request is admitted. -/
theorem keyFits_largestSwap (size : ℕ) : KeyFits (largestSwap size).key := by
  have hlength : (largestSwap size).key.length = 255 := List.length_replicate ..
  constructor <;> omega

/-- The size of the largest request. -/
theorem size_largestSwap (size : ℕ) : (largestSwap size).size = 2 * bytesSize size + 266 := by
  have hk : bytesSize 255 = 258 := by decide
  have ht : uint32Size 4294967295 = 6 := by decide
  have hb : boolSize true = 2 := rfl
  simp only [CompareAndSwapRequest.size, largestSwap, List.length_replicate, hk, ht, hb]
  omega

/-- No request is larger than the largest one. -/
theorem CompareAndSwapRequest.size_le (r : CompareAndSwapRequest) (hkey : KeyFits r.key)
    {bound k : ℕ} (hexpected : r.expectedValue.length ≤ bound) (hnew : r.newValue.length ≤ bound)
    (hk : bound < 128^(k + 1)) : r.size ≤ 2 * (k + 2 + bound) + 266 := by
  have hkey : bytesSize r.key.length ≤ 1 + 2 + 255 := bytesSize_le hkey.2 (by decide)
  have hexpected := bytesSize_le hexpected hk
  have hnew := bytesSize_le hnew hk
  have httl := uint32Size_le r.ttlSeconds
  have hkeep := boolSize_le r.keepTtl
  unfold CompareAndSwapRequest.size
  omega

/-- Where the limit is exact, it admits the requests of `CompareAndSwap` for flags of up to 752. -/
theorem swaps_fit_iff {maxItemSize : UInt64} (hbound : maxItemSize.toNat + 1024 < 2^31) :
    (∀ request : CompareAndSwapRequest, KeyFits request.key →
      request.expectedValue.length ≤ maxItemSize.toNat →
      request.newValue.length ≤ maxItemSize.toNat → Admits maxItemSize request.size) ↔
      maxItemSize.toNat ≤ 752 := by
  constructor
  · intro h
    by_contra hlarge
    -- The largest request decides: two values, and 266 bytes of everything else.
    have hadmits := h (largestSwap maxItemSize.toNat) (keyFits_largestSwap _)
      (List.length_replicate ..).le (List.length_replicate ..).le
    rw [admits_iff hbound, size_largestSwap] at hadmits
    -- Each of the lengths takes at least two bytes.
    have hdigits : 1 + 1 ≤ varintSize maxItemSize.toNat := le_varintSize (by omega)
    rw [bytesSize, if_neg (by omega)] at hadmits
    omega
  · intro h request hkey hexpected hnew
    -- Values of up to 752 bytes have lengths of two bytes at most.
    have hsize : request.size ≤ 2 * (1 + 2 + maxItemSize.toNat) + 266 :=
      request.size_le hkey hexpected hnew (by omega)
    exact (admits_iff hbound _).mpr (by omega)

/-- For every flag: the limit is what the flag says, and admits everything that the handlers admit,
exactly when the flag is at most 752. Without the requests of `CompareAndSwap` it does exactly when
the cast and the sum are exact, which is when the flag is below 2^31 - 1024. -/
theorem transport_admits_iff (maxItemSize : UInt64) :
    (TransportAdmits maxItemSize ↔ maxItemSize.toNat ≤ 752) ∧
      (messageLimit maxItemSize = some ((maxItemSize.toNat : ℤ) + 1024) ∧
        SingleValuesFit maxItemSize ↔ maxItemSize.toNat + 1024 < 2^31) := by
  constructor
  · constructor
    · intro h
      exact (swaps_fit_iff ((messageLimit_exact_iff _).mp h.exact)).mp h.compareAndSwap
    · intro h
      have hbound : maxItemSize.toNat + 1024 < 2^31 := by omega
      exact {
        exact := (messageLimit_exact_iff _).mpr hbound
        single := single_values_fit hbound
        compareAndSwap := (swaps_fit_iff hbound).mpr h }
  · constructor
    · intro h
      exact (messageLimit_exact_iff _).mp h.1
    · intro h
      exact ⟨(messageLimit_exact_iff _).mpr h, single_values_fit h⟩

/-- At the default flag of 4 MiB, the largest `CompareAndSwap` of two values of 3 MiB is above the
limit, and a flag of 4 GiB gives a limit of 1024 bytes. -/
theorem transport_rejects :
    ((largestSwap 3145728).expectedValue.length ≤ 4194304 ∧
        (largestSwap 3145728).newValue.length ≤ 4194304 ∧
        ¬ Admits 4194304 (largestSwap 3145728).size) ∧
      ¬ TransportAdmits 4194304 ∧ messageLimit 4294967296 = some 1024 := by
  have hsize : (3145728 : ℕ) ≤ 4194304 := by decide
  have hexpected : (largestSwap 3145728).expectedValue.length ≤ 4194304 :=
    (List.length_replicate ..).trans_le hsize
  have hnew : (largestSwap 3145728).newValue.length ≤ 4194304 :=
    (List.length_replicate ..).trans_le hsize
  have hbound : (4194304 : UInt64).toNat + 1024 < 2^31 := by decide
  have hswap : ¬ Admits 4194304 (largestSwap 3145728).size := by
    have hflag : (4194304 : UInt64).toNat = 4194304 := rfl
    rw [admits_iff hbound, size_largestSwap, bytesSize, if_neg (by decide), hflag]
    omega
  refine ⟨⟨hexpected, hnew, hswap⟩, ?_, by decide⟩
  intro h
  exact hswap (h.compareAndSwap (largestSwap 3145728) (keyFits_largestSwap _) hexpected hnew)

end CacheServer.Service
