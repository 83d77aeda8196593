import CacheServer.Service.Handlers

/-!
# Scans of several pages

A client that follows the cursor of `Scan` from page to page, while others write to the cache in
between. Every page walks the cache anew, from the start, and skips to the cursor.

The order in which CacheLib's iterator visits the items is not known to the code. What is assumed of
it is that a walk visits every stored item once, and that two keys that stay stored from one
walk to the next are visited in the same order by both.
-/

namespace CacheServer

open scoped List

namespace Service

/-! ## What happens between pages -/

/-- A write to the table between two pages: an insert or an overwrite, or a removal. -/
inductive Mutation
  | insertOrReplace (key : Bytes) (item : Item)
  | remove (key : Bytes)
deriving DecidableEq, Repr

/-- The table after a write. -/
def Mutation.apply (store : Store) : Mutation → Store
  | .insertOrReplace key item => store.insertOrReplace key item
  | .remove key => store.remove key

/-- The table after some writes. -/
def applyAll (store : Store) (mutations : List Mutation) : Store :=
  mutations.foldl Mutation.apply store

/-- The key is stored before, between, and after the writes. -/
def Stays (key : Bytes) : Store → List Mutation → Prop
  | store, [] => (store key).isSome
  | store, mutation :: mutations =>
    (store key).isSome ∧ Stays key (mutation.apply store) mutations

/-! ## What is assumed of the iterator -/

/-- The keys that a walk visits, in their order. -/
def walkKeys (walk : List Visit) : List Bytes := walk.map Visit.key

/-- The walk visits every stored item once, and none of the keys is empty. -/
structure Walks (store : Store) (walk : List Visit) : Prop where
  /-- No key is visited twice. -/
  nodup : (walkKeys walk).Nodup
  /-- No key is empty. -/
  nonempty : [] ∉ walkKeys walk
  /-- What is visited is what is stored. -/
  stored_iff (key : Bytes) (item : Item) :
    store key = some item ↔ ∃ visit ∈ walk, visit.key = key ∧ visit.item = item

/-- Keys that stay stored are visited in the same order by a walk before some writes and by a walk
after them. -/
def OrderKept (store : Store) (mutations : List Mutation) (walk walk' : List Visit) : Prop :=
  ∀ x y, Stays x store mutations → Stays y store mutations →
    [x, y] <+ walkKeys walk → [x, y] <+ walkKeys walk'

/-! ## The client -/

/-- What the client asks for in the request for one page, and the walk that the request meets. -/
structure PageRequest where
  /-- The most keys to return, zero for the default. -/
  count : Int32 := 0
  /-- Whether details are asked for. -/
  includeDetails : Bool := false
  /-- What the iterator visits. -/
  walk : List Visit
deriving DecidableEq, Repr

/-- The requests of one scan, with the writes between them. -/
inductive Session
  | last (request : PageRequest)
  | next (request : PageRequest) (mutations : List Mutation) (session : Session)
deriving DecidableEq, Repr

/-- The first request. -/
def Session.first : Session → PageRequest
  | .last request | .next request _ _ => request

/-- The number of requests. -/
def Session.length : Session → ℕ
  | .last _ => 1
  | .next _ _ session => session.length + 1

/-- A page that the client has received, and the table that it was produced from. -/
structure Page where
  /-- The table. -/
  store : Store
  /-- The request. -/
  request : PageRequest
  /-- The response. -/
  response : ScanResponse

section Client

variable (m : CacheManager) (pattern : Bytes)

/-- The response to the request for the page after a cursor. -/
def PageRequest.response (request : PageRequest) (store : Store) (cursor : Bytes) : ScanResponse :=
  let scanRequest : ScanRequest :=
    { pattern, cursor, count := request.count, includeDetails := request.includeDetails }
  match (scan { m with cache := some store } request.walk scanRequest).1 with
  | .ok (_, response) => response
  | .error _ => {}

/-- The pages that the client receives from a cursor on. It goes on as long as there is more. -/
def Session.pages : Session → Store → Bytes → List Page
  | .last request, store, cursor => [⟨store, request, request.response m pattern store cursor⟩]
  | .next request mutations session, store, cursor =>
    let response := request.response m pattern store cursor
    ⟨store, request, response⟩ ::
      if response.hasMore then session.pages (applyAll store mutations) response.nextCursor else []

/-- The cursor key is never removed before the page that starts from it. -/
def Session.CursorKept : Session → Store → Bytes → Prop
  | .last _, _, _ => True
  | .next request mutations session, store, cursor =>
    let response := request.response m pattern store cursor
    response.hasMore = true →
      Mutation.remove response.nextCursor ∉ mutations ∧
        session.CursorKept (applyAll store mutations) response.nextCursor

/-- The key is stored from the first page that is produced to the last one. -/
def Session.Stores (key : Bytes) : Session → Store → Bytes → Prop
  | .last _, store, _ => (store key).isSome
  | .next request mutations session, store, cursor =>
    let response := request.response m pattern store cursor
    (store key).isSome ∧
      (response.hasMore = true →
        Stays key store mutations ∧
          session.Stores key (applyAll store mutations) response.nextCursor)

end Client

/-- What is assumed of the iterator holds of the walks of a scan. -/
def Session.Walks : Session → Store → Prop
  | .last request, store => Service.Walks store request.walk
  | .next request mutations session, store =>
    Service.Walks store request.walk ∧
      OrderKept store mutations request.walk session.first.walk ∧
      session.Walks (applyAll store mutations)

/-- Nobody writes between the pages. -/
def Session.Unmodified : Session → Prop
  | .last _ => True
  | .next _ mutations session => mutations = [] ∧ session.Unmodified

/-- The keys that are returned over all pages. -/
def returned (pages : List Page) : List Bytes := pages.flatMap fun page => page.response.keys

/-- The client has received a page after which there is no more. -/
def Finished (pages : List Page) : Prop := ∃ page ∈ pages, page.response.hasMore = false

instance (pages : List Page) : Decidable (Finished pages) :=
  inferInstanceAs (Decidable (∃ page ∈ pages, page.response.hasMore = false))

/-- What holds of every page by itself. -/
structure Page.WellFormed (pattern : Bytes) (page : Page) : Prop where
  /-- Its keys match, and are stored. -/
  mem : ∀ key ∈ page.response.keys,
    matchesPattern key pattern = true ∧ (page.store key).isSome
  /-- They are no more than were asked for. -/
  length_le : page.response.keys.length ≤ pageLimit page.request.count
  /-- No key is listed twice. -/
  nodup : page.response.keys.Nodup
  /-- When something is left, it is full, and the cursor is its last key. -/
  more : page.response.hasMore = true →
    page.response.keys.getLast? = some page.response.nextCursor ∧
      page.response.keys.length = pageLimit page.request.count
  /-- When nothing is left, there is no cursor. -/
  noMore : page.response.hasMore = false → page.response.nextCursor = []
  /-- Details are given when they were asked for, one for each key. -/
  details : page.response.keyDetails.map KeyInfo.key =
    if page.request.includeDetails then page.response.keys else []

/-! ## Keys that stay -/

/-- Only its removal takes a key out of the table. -/
theorem isSome_apply {key : Bytes} {store : Store} {mutation : Mutation}
    (hne : mutation ≠ .remove key) (h : (store key).isSome) :
    (mutation.apply store key).isSome := by
  cases mutation with
  | insertOrReplace k item =>
    -- Under its own key there is the new item, and under another what there was.
    by_cases hk : key = k
    · subst hk
      simp [Mutation.apply]
    · simpa [Mutation.apply, hk] using h
  | remove k =>
    have hk : key ≠ k := fun hk => hne (hk ▸ rfl)
    simpa [Mutation.apply, hk] using h

/-- A stored key that is not removed stays. -/
theorem stays_of_not_mem {key : Bytes} {store : Store} {mutations : List Mutation}
    (h : (store key).isSome) (hnot : Mutation.remove key ∉ mutations) :
    Stays key store mutations := by
  induction mutations generalizing store with
  | nil => exact h
  | cons mutation mutations ih =>
    obtain ⟨hne, hnot⟩ := List.ne_and_not_mem_of_not_mem_cons hnot
    exact ⟨h, ih (isSome_apply (Ne.symm hne) h) hnot⟩

/-- The keys of a walk are the stored ones. -/
theorem Walks.mem_walkKeys_iff {store : Store} {walk : List Visit} (h : Walks store walk)
    {key : Bytes} : key ∈ walkKeys walk ↔ (store key).isSome := by
  simp only [walkKeys, List.mem_map, Option.isSome_iff_exists, h.stored_iff]
  constructor
  · rintro ⟨visit, hvisit, hkey⟩
    exact ⟨visit.item, visit, hvisit, hkey, rfl⟩
  · rintro ⟨_, visit, hvisit, hkey, _⟩
    exact ⟨visit, hvisit, hkey⟩

/-! ## One page -/

/-- A response, in terms of the keys that the page has looked at and of those that it leaves
over. -/
structure PageAnswer (pattern cursor : Bytes) (request : PageRequest) (response : ScanResponse)
    (seen rest : List Bytes) : Prop where
  /-- What was looked at and what is left over are a page of the walk. -/
  isPage : Paging.IsPage (matchesPattern · pattern) (pageLimit request.count)
    (Paging.after (cursorKey cursor) (walkKeys request.walk)) seen rest
  /-- Its keys are those looked at that match. -/
  keys_eq : response.keys = seen.filter (matchesPattern · pattern)
  /-- There is more when something is left over. -/
  hasMore_eq : response.hasMore = !rest.isEmpty
  /-- Then the cursor is the last key that was looked at. -/
  nextCursor_of_more : rest ≠ [] → seen.getLast? = some response.nextCursor
  /-- Otherwise there is no cursor. -/
  nextCursor_of_done : rest = [] → response.nextCursor = []
  /-- Details are given when they were asked for, one for each key. -/
  details_eq : response.keyDetails.map KeyInfo.key =
    if request.includeDetails then response.keys else []

section Scan

variable {m : CacheManager} {pattern cursor : Bytes} {request : PageRequest} {store : Store}

/-- Every response is a page of the keys after the cursor. -/
theorem exists_pageAnswer (m : CacheManager) (pattern : Bytes) (request : PageRequest)
    (store : Store) (cursor : Bytes) :
    ∃ seen rest,
      PageAnswer pattern cursor request (request.response m pattern store cursor) seen rest := by
  obtain ⟨seen, rest, hpage, heq⟩ :=
    CacheManager.scan_eq_pageResult (m := { m with cache := some store }) rfl request.walk pattern
      cursor request.count request.includeDetails
  -- The loop goes over visits, and the page is about their keys.
  have hkeys : (hits pattern seen).map Visit.key =
      (seen.map Visit.key).filter (matchesPattern · pattern) := by
    simp only [hits, List.filter_map, Function.comp_def]
  have hisPage := hpage.map (matchesPattern · pattern) Visit.key
  rw [map_key_visitsAfter] at hisPage
  have hresponse : request.response m pattern store cursor =
      { keys := (hits pattern seen).map Visit.key
        keyDetails := if request.includeDetails then (hits pattern seen).map Visit.keyInfo else []
        nextCursor := if rest.isEmpty then [] else (seen.map Visit.key).getLast?.getD []
        hasMore := !rest.isEmpty } := by
    simp only [PageRequest.response, scan, ready, heq, pageResult]
    rfl
  refine ⟨seen.map Visit.key, rest.map Visit.key, hisPage, ?_, ?_, ?_, ?_, ?_⟩
  · rw [hresponse, hkeys]
  · rw [hresponse, List.isEmpty_map]
  · intro hrest
    have hseen := hisPage.seen_ne_nil (pageLimit_pos request.count) hrest
    have hrest : rest.isEmpty = false := by simpa using hrest
    simp only [hresponse, hrest, List.getLast?_eq_some_getLast hseen, Option.getD_some,
      Bool.false_eq_true, if_false]
  · intro hrest
    rw [hresponse]
    simp [List.map_eq_nil_iff.mp hrest]
  · rw [hresponse]
    cases request.includeDetails
    · rfl
    · simp [Function.comp_def, Visit.keyInfo]

/-- The keys that a page has looked at are stored. -/
theorem PageAnswer.isSome_of_mem {response : ScanResponse} {seen rest : List Bytes}
    (h : PageAnswer pattern cursor request response seen rest) (hwalk : Walks store request.walk)
    {key : Bytes} (hkey : key ∈ seen) : (store key).isSome := by
  rw [← hwalk.mem_walkKeys_iff]
  refine (Paging.after_sublist (cursorKey cursor) (walkKeys request.walk)).subset ?_
  rw [h.isPage.split]
  exact List.mem_append_left rest hkey

/-- Every page is well formed. -/
theorem wellFormed_response (m : CacheManager) (pattern cursor : Bytes)
    (hwalk : Walks store request.walk) :
    Page.WellFormed pattern ⟨store, request, request.response m pattern store cursor⟩ := by
  obtain ⟨seen, rest, h⟩ := exists_pageAnswer m pattern request store cursor
  have hmore : (request.response m pattern store cursor).hasMore = true ↔ rest ≠ [] := by
    simp [h.hasMore_eq]
  refine ⟨?_, ?_, ?_, ?_, ?_, h.details_eq⟩ <;> dsimp only
  · intro key hkey
    rw [h.keys_eq] at hkey
    obtain ⟨hseen, hmatch⟩ := List.mem_filter.mp hkey
    exact ⟨hmatch, h.isSome_of_mem hwalk hseen⟩
  · rw [h.keys_eq]
    exact h.isPage.length_le
  · rw [h.keys_eq]
    exact (h.isPage.nodup hwalk.nodup).filter _
  · rw [hmore]
    intro hrest
    rw [h.keys_eq, h.isPage.last hrest]
    exact ⟨h.nextCursor_of_more hrest, h.isPage.full hrest⟩
  · intro hdone
    -- Were something left over, there would be more.
    refine h.nextCursor_of_done ?_
    by_contra hrest
    rw [hmore.mpr hrest] at hdone
    cases hdone

end Scan

/-! ## All pages -/

section Session

variable {m : CacheManager} {pattern : Bytes}

/-- All pages of a scan are well formed. -/
theorem Session.wellFormed_of_mem {session : Session} {store : Store} {cursor : Bytes}
    (hwalks : session.Walks store) {page : Page}
    (hpage : page ∈ session.pages m pattern store cursor) : page.WellFormed pattern := by
  induction session generalizing store cursor with
  | last request =>
    obtain rfl := List.mem_singleton.mp hpage
    exact wellFormed_response m pattern cursor hwalks
  | next request mutations session ih =>
    obtain ⟨hwalk, -, hwalks⟩ := hwalks
    rcases List.mem_cons.mp hpage with rfl | hpage
    · exact wellFormed_response m pattern cursor hwalk
    · -- The later pages are there only when the client goes on.
      split_ifs at hpage
      · exact ih hwalks hpage
      · cases hpage

/-- A key that is stored during the whole scan is stored at first. -/
theorem Session.Stores.isSome {key : Bytes} {session : Session} {store : Store} {cursor : Bytes}
    (h : session.Stores m pattern key store cursor) : (store key).isSome := by
  cases session with
  | last _ => exact h
  | next _ _ _ => exact h.1

/-- The first walk is one of the table that the scan starts from. -/
theorem Session.Walks.first {session : Session} {store : Store} (h : session.Walks store) :
    Service.Walks store session.first.walk := by
  cases session with
  | last _ => exact h
  | next _ _ _ => exact h.1

/-- One page by itself, for the order of a key and the cursors. -/
theorem PageAnswer.paged_last {cursor : Bytes} {request : PageRequest} {response : ScanResponse}
    {store : Store} {seen rest : List Bytes}
    (h : PageAnswer pattern cursor request response seen rest)
    (hwalk : Service.Walks store request.walk) (key : Bytes) :
    Paging.Paged (matchesPattern · pattern) key (cursorKey cursor) (walkKeys request.walk)
      [response.keys] (!response.hasMore) := by
  have hpaged := Paging.Paged.last (x := key) hwalk.nodup h.isPage
  rwa [← h.keys_eq, ← Bool.not_not rest.isEmpty, ← h.hasMore_eq] at hpaged

/-- The pages of a scan whose cursors are kept are read in pages, for the order of the cursors and a
key that stays stored. -/
theorem Session.paged {session : Session} {store : Store} {cursor key : Bytes}
    (hwalks : session.Walks store) (hcursor : session.CursorKept m pattern store cursor)
    (hkey : session.Stores m pattern key store cursor) :
    ∃ finished, Paging.Paged (matchesPattern · pattern) key (cursorKey cursor)
        (walkKeys session.first.walk)
        ((session.pages m pattern store cursor).map (·.response.keys)) finished ∧
      (Finished (session.pages m pattern store cursor) → finished = true) := by
  induction session generalizing store cursor with
  | last request =>
    obtain ⟨seen, rest, h⟩ := exists_pageAnswer m pattern request store cursor
    refine ⟨_, h.paged_last hwalks key, ?_⟩
    rintro ⟨page, hpage, hdone⟩
    obtain rfl := List.mem_singleton.mp hpage
    simpa using hdone
  | next request mutations session ih =>
    obtain ⟨hwalk, horder, hwalks⟩ := hwalks
    obtain ⟨seen, rest, h⟩ := exists_pageAnswer m pattern request store cursor
    simp only [Session.CursorKept] at hcursor
    simp only [Session.Stores] at hkey
    simp only [Session.pages]
    generalize request.response m pattern store cursor = response at *
    by_cases hmore : response.hasMore = true
    · -- The client goes on, from a cursor that is the last key of the page.
      obtain ⟨hnot, hcursor⟩ := hcursor hmore
      obtain ⟨hstays, hkey⟩ := hkey.2 hmore
      have hrest : rest ≠ [] := by simpa [h.hasMore_eq] using hmore
      have hlast := h.nextCursor_of_more hrest
      have hmem := h.isSome_of_mem hwalk (List.mem_of_getLast? hlast)
      -- The cursor is a key of the walk, so it is not empty and stays stored as the key does.
      have hcursorKey : cursorKey response.nextCursor = some response.nextCursor := by
        have hne : response.nextCursor ≠ [] := by
          rintro heq
          rw [heq] at hmem
          exact hwalk.nonempty (hwalk.mem_walkKeys_iff.mpr hmem)
        simpa [cursorKey] using hne
      have hstaysCursor := stays_of_not_mem hmem hnot
      have hkeeps : Paging.Keeps key response.nextCursor (walkKeys request.walk)
          (walkKeys session.first.walk) :=
        ⟨horder _ _ hstays hstaysCursor, horder _ _ hstaysCursor hstays⟩
      obtain ⟨finished, hpaged, hfinished⟩ := ih hwalks hcursor hkey
      rw [hcursorKey] at hpaged
      refine ⟨finished, ?_, ?_⟩
      · simp only [hmore, if_true, List.map_cons]
        rw [h.keys_eq]
        exact .next hwalk.nodup h.isPage hlast hkeeps hpaged
      · rintro ⟨page, hpage, hdone⟩
        simp only [hmore, if_true] at hpage
        rcases List.mem_cons.mp hpage with rfl | hpage
        · simp [hmore] at hdone
        · exact hfinished ⟨page, hpage, hdone⟩
    · -- The client stops, and the rest of the session is not run.
      simp only [hmore, Bool.false_eq_true, if_false, List.map_cons, List.map_nil]
      exact ⟨_, h.paged_last hwalk key, fun _ => by simpa using hmore⟩

/-! ## Scans of a cache that nobody writes to -/

/-- Without writes the cursors are kept. -/
theorem Session.Unmodified.cursorKept {session : Session} (h : session.Unmodified) (store : Store)
    (cursor : Bytes) : session.CursorKept m pattern store cursor := by
  induction session generalizing store cursor with
  | last request => trivial
  | next request mutations session ih =>
    obtain ⟨rfl, h⟩ := h
    exact fun _ => ⟨List.not_mem_nil, ih h _ _⟩

/-- Without writes a stored key is stored during the whole scan. -/
theorem Session.Unmodified.stores {session : Session} (h : session.Unmodified) {store : Store}
    {key : Bytes} (hkey : (store key).isSome) (cursor : Bytes) :
    session.Stores m pattern key store cursor := by
  induction session generalizing cursor with
  | last request => exact hkey
  | next request mutations session ih =>
    obtain ⟨rfl, h⟩ := h
    exact ⟨hkey, fun _ => ⟨hkey, ih h _⟩⟩

/-- Without writes all pages are produced from the table that the scan starts from. -/
theorem Session.Unmodified.store_eq {session : Session} (h : session.Unmodified) {store : Store}
    {cursor : Bytes} {page : Page} (hpage : page ∈ session.pages m pattern store cursor) :
    page.store = store := by
  induction session generalizing cursor with
  | last request =>
    obtain rfl := List.mem_singleton.mp hpage
    rfl
  | next request mutations session ih =>
    obtain ⟨rfl, h⟩ := h
    rcases List.mem_cons.mp hpage with rfl | hpage
    · rfl
    · split_ifs at hpage
      · exact ih h hpage
      · cases hpage

/-- A client that has always been told that there is more has sent all of its requests. -/
theorem Session.length_pages {session : Session} {store : Store} {cursor : Bytes}
    (h : ¬ Finished (session.pages m pattern store cursor)) :
    (session.pages m pattern store cursor).length = session.length := by
  induction session generalizing store cursor with
  | last request => rfl
  | next request mutations session ih =>
    simp only [Session.pages] at h ⊢
    -- A page after which there is no more would finish the scan.
    by_cases hmore : (request.response m pattern store cursor).hasMore = true
    · simp only [hmore, if_true, List.length_cons, Session.length] at h ⊢
      rw [ih]
      rintro ⟨page, hpage, hdone⟩
      exact h ⟨page, List.mem_cons_of_mem _ hpage, hdone⟩
    · exact absurd ⟨_, List.mem_cons_self, by simpa using hmore⟩ h

/-- Pages after each of which there is more return at least one key each. -/
theorem length_le_length_returned {pages : List Page}
    (hwf : ∀ page ∈ pages, page.WellFormed pattern) (h : ¬ Finished pages) :
    pages.length ≤ (returned pages).length := by
  induction pages with
  | nil => exact Nat.zero_le _
  | cons page pages ih =>
    have hmore : page.response.hasMore = true := by
      by_contra hmore
      exact h ⟨page, List.mem_cons_self, by simpa using hmore⟩
    -- A page with more to come is full, and a page has room for a key at least.
    have hpos : 0 < page.response.keys.length := by
      rw [((hwf page List.mem_cons_self).more hmore).2]
      exact pageLimit_pos _
    have hrest := ih (fun page' hpage => hwf page' (List.mem_cons_of_mem _ hpage))
      fun ⟨page', hpage, hdone⟩ => h ⟨page', List.mem_cons_of_mem _ hpage, hdone⟩
    simp only [returned, List.flatMap_cons, List.length_cons, List.length_append] at hrest ⊢
    omega

/-- A key that matches and stays stored is returned at most once, and exactly once by a scan that
gets to its end. -/
theorem Session.count_returned {session : Session} {store : Store} {key : Bytes}
    (hwalks : session.Walks store) (hcursor : session.CursorKept m pattern store [])
    (hmatch : matchesPattern key pattern = true) (hkey : session.Stores m pattern key store []) :
    (returned (session.pages m pattern store [])).count key ≤ 1 ∧
      (Finished (session.pages m pattern store []) →
        (returned (session.pages m pattern store [])).count key = 1) := by
  obtain ⟨finished, hpaged, hfinished⟩ := Session.paged hwalks hcursor hkey
  have hmem : key ∈ Paging.after (cursorKey []) (walkKeys session.first.walk) :=
    hwalks.first.mem_walkKeys_iff.mpr hkey.isSome
  obtain ⟨hle, hone⟩ := hpaged.count_of_mem_after hmatch hmem
  rw [returned, List.flatMap_def]
  exact ⟨hle, fun h => hone (hfinished h)⟩

/-- Without writes no key is returned twice. -/
theorem Session.Unmodified.nodup_returned {session : Session} (h : session.Unmodified)
    {store : Store} (hwalks : session.Walks store) :
    (returned (session.pages m pattern store [])).Nodup := by
  rw [List.nodup_iff_count_le_one]
  intro key
  -- A key that is returned matches and is stored, and it stays stored.
  by_cases hkey : key ∈ returned (session.pages m pattern store [])
  · obtain ⟨page, hpage, hkey⟩ := List.mem_flatMap.mp hkey
    obtain ⟨hmatch, hstored⟩ := (Session.wellFormed_of_mem hwalks hpage).mem key hkey
    rw [h.store_eq hpage] at hstored
    exact (Session.count_returned hwalks (h.cursorKept store []) hmatch (h.stores hstored [])).1
  · rw [List.count_eq_zero.mpr hkey]
    exact Nat.zero_le 1

/-- Without writes a scan gets to its end within as many pages as there are stored keys. -/
theorem Session.Unmodified.finished {session : Session} (h : session.Unmodified) {store : Store}
    (hwalks : session.Walks store) (hlength : session.first.walk.length < session.length) :
    Finished (session.pages m pattern store []) := by
  by_contra hnot
  -- Otherwise every request has its page, each page has a key, and no key comes twice.
  have hsubset : returned (session.pages m pattern store []) ⊆ walkKeys session.first.walk := by
    intro key hkey
    obtain ⟨page, hpage, hkey⟩ := List.mem_flatMap.mp hkey
    have hstored := ((Session.wellFormed_of_mem hwalks hpage).mem key hkey).2
    rw [h.store_eq hpage] at hstored
    exact hwalks.first.mem_walkKeys_iff.mpr hstored
  have hcount : session.length ≤ session.first.walk.length :=
    calc session.length
        = (session.pages m pattern store []).length := (Session.length_pages hnot).symm
      _ ≤ (returned (session.pages m pattern store [])).length :=
          length_le_length_returned (fun _ => Session.wellFormed_of_mem hwalks) hnot
      _ ≤ (walkKeys session.first.walk).length :=
          ((h.nodup_returned hwalks).subperm hsubset).length_le
      _ = session.first.walk.length := List.length_map _
  omega

/-! ## The contract -/

/-- The contract of a scan of several pages that starts without a cursor. A key that matches and
stays stored is returned at most once, and exactly once if the scan gets to its end, provided that
nobody removes the cursor key. Every page by itself is well formed. On a cache that nobody writes
to, a client with more requests than there are stored keys gets to the end. -/
theorem scan_pagination (m : CacheManager) (pattern : Bytes) (store : Store) (session : Session)
    (hwalks : session.Walks store) :
    (session.CursorKept m pattern store [] → ∀ key, matchesPattern key pattern = true →
      session.Stores m pattern key store [] →
        (returned (session.pages m pattern store [])).count key ≤ 1 ∧
          (Finished (session.pages m pattern store []) →
            (returned (session.pages m pattern store [])).count key = 1)) ∧
    (∀ page ∈ session.pages m pattern store [], page.WellFormed pattern) ∧
    (session.Unmodified → session.first.walk.length < session.length →
      Finished (session.pages m pattern store [])) :=
  ⟨fun hcursor _ => Session.count_returned hwalks hcursor,
    fun _ => Session.wellFormed_of_mem hwalks, fun h => h.finished hwalks⟩

/-- A table with three items. -/
def threeItems : Store :=
  applyAll (fun _ => none)
    [.insertOrReplace [97] ⟨[49], 5, 0⟩, .insertOrReplace [98] ⟨[50], 5, 0⟩,
      .insertOrReplace [99] ⟨[51], 5, 0⟩]

/-- The writes between the two pages: a key is inserted, and one that is not the cursor is
removed. -/
def writesBetween : List Mutation := [.insertOrReplace [100] ⟨[52], 7, 0⟩, .remove [98]]

/-- A scan of two pages, the first one with room for one key. -/
def twoPages : Session :=
  .next
    { count := 1
      walk :=
        [⟨[97], ⟨[49], 5, 0⟩, 6⟩, ⟨[98], ⟨[50], 5, 0⟩, 6⟩, ⟨[99], ⟨[51], 5, 0⟩, 6⟩] }
    writesBetween
    (.last
      { walk :=
          [⟨[100], ⟨[52], 7, 0⟩, 8⟩, ⟨[97], ⟨[49], 5, 0⟩, 8⟩, ⟨[99], ⟨[51], 5, 0⟩, 8⟩] })

/-- The walks of the two pages are walks of the table before the writes and after them, and they
visit the keys that stay in the same order. -/
theorem walks_twoPages : twoPages.Walks threeItems := by
  refine ⟨⟨by decide, by decide, ?_⟩, ?_, ⟨by decide, by decide, ?_⟩⟩
  · intro key item
    simp only [threeItems, applyAll, Mutation.apply, Store.insertOrReplace, Function.update_apply,
      List.foldl_cons, List.foldl_nil]
    split_ifs <;> simp_all [eq_comm]
  · intro x y hx hy h
    have hremoved : ¬ Stays [98] threeItems writesBetween := by
      simp [writesBetween, Stays, Mutation.apply]
    have hmem : [x, y] ∈ [[97], [98], [99]].sublists := List.mem_sublists.mpr h
    simp [List.sublists] at hmem
    rcases hmem with ⟨rfl, rfl⟩ | ⟨rfl, rfl⟩ | ⟨rfl, rfl⟩
    · exact absurd hy hremoved
    · decide
    · exact absurd hx hremoved
  · intro key item
    simp only [writesBetween, threeItems, applyAll, Mutation.apply, Store.insertOrReplace,
      Store.remove, Function.update_apply, List.foldl_cons, List.foldl_nil]
    split_ifs <;> simp_all [eq_comm]

/-- The key that the writes leave alone is returned once by the two pages. -/
theorem scan_pagination_twoPages :
    (returned (twoPages.pages ⟨1024, none, 0, 0, 0, 0, 0⟩ [63] threeItems [])).count [99] = 1 := by
  have hcursor : twoPages.CursorKept ⟨1024, none, 0, 0, 0, 0, 0⟩ [63] threeItems [] :=
    fun _ => ⟨by decide, trivial⟩
  have hstores : twoPages.Stores ⟨1024, none, 0, 0, 0, 0, 0⟩ [63] [99] threeItems [] :=
    ⟨rfl, fun _ => ⟨⟨rfl, rfl, rfl⟩, rfl⟩⟩
  exact ((scan_pagination ⟨1024, none, 0, 0, 0, 0, 0⟩ [63] threeItems twoPages walks_twoPages).1
    hcursor [99] (by decide) hstores).2 (by decide)

end Session

end Service

end CacheServer
