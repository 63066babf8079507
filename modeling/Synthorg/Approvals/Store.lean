/-
The approval store (api/approval_store.py, api/_approval_expiration.py),
with a repository.

`get`, `save_if_pending`, `consume_if_approved` and `add` hold `_lock` from their look into the
cache to their answer, over the statements they await. A listing holds it twice a page only: to
note the generation and to write the page into the cache; its statements run beside whatever the
holder of the lock awaits. Every statement is an event, and so is every stretch of a call between
two of them.

Of the statements (sqlite/approval_repo.py) `expire_if_pending` and `consume_if_approved` compare
before they set; the upsert of `save` asks nothing.
-/
import Synthorg.Lib.Mutex
import Synthorg.Lib.Run
import Mathlib.Data.List.Sort
import Mathlib.Data.String.Basic

namespace Synthorg.Approvals

section
open List

inductive ApprovalStatus where
  | pending
  | approved
  | rejected
  | expired
  deriving DecidableEq

inductive ApprovalRiskLevel where
  | low
  | medium
  | high
  | critical
  deriving DecidableEq

/-- Instants are microseconds. -/
structure ApprovalItem (Body : Type) where
  id : String
  actionType : String
  riskLevel : ApprovalRiskLevel
  status : ApprovalStatus
  createdAt : Int
  expiresAt : Option Int
  consumedAt : Option Int
  body : Body

structure ApprovalFilterSpec where
  status : Option ApprovalStatus
  riskLevel : Option ApprovalRiskLevel
  actionTypes : List String
  createdSince : Option Int

variable {Body : Type}

/-- The clauses of `_filter_clauses`. -/
def ApprovalFilterSpec.admits (spec : ApprovalFilterSpec) (item : ApprovalItem Body) : Bool :=
  spec.status.all (· = item.status) && spec.riskLevel.all (· = item.riskLevel) &&
    (spec.actionTypes.isEmpty || item.actionType ∈ spec.actionTypes) &&
    spec.createdSince.all (· ≤ item.createdAt)

structure Table (Body : Type) where
  row : String → Option (ApprovalItem Body)
  ids : List String
  keyed : ∀ id item, row id = some item → item.id = id
  listed : ∀ id, row id ≠ none → id ∈ ids

namespace Table

/-- `UPDATE approvals SET … WHERE …`, which never moves a row. -/
def update (t : Table Body) (f : ApprovalItem Body → ApprovalItem Body)
    (hf : ∀ item, (f item).id = item.id) : Table Body where
  row id := (t.row id).map f
  ids := t.ids
  keyed id item hrow := by
    obtain ⟨before, hb, heq⟩ := Option.map_eq_some_iff.1 hrow
    rw [← heq, hf]
    exact t.keyed id before hb
  listed id hrow := t.listed id (fun hnone => hrow (by rw [hnone]; rfl))

/-- `ON CONFLICT(id) DO UPDATE`. -/
def merged (existing : Option (ApprovalItem Body)) (item : ApprovalItem Body) : ApprovalItem Body :=
  match existing with
  | none => item
  | some row => { item with
      createdAt := row.createdAt
      consumedAt := row.consumedAt <|> item.consumedAt }

@[simp]
theorem merged_id (existing : Option (ApprovalItem Body)) (item : ApprovalItem Body) :
    (merged existing item).id = item.id := by
  cases existing <;> rfl

@[simp]
theorem merged_status (existing : Option (ApprovalItem Body)) (item : ApprovalItem Body) :
    (merged existing item).status = item.status := by
  cases existing <;> rfl

/-- `save`, `_APPROVALS_UPSERT_SQL`. -/
def save (t : Table Body) (item : ApprovalItem Body) : Table Body where
  row := Function.update t.row item.id (some (merged (t.row item.id) item))
  ids := if item.id ∈ t.ids then t.ids else t.ids ++ [item.id]
  keyed id row hrow := by
    by_cases hid : id = item.id
    · rw [hid, Function.update_self, Option.some.injEq] at hrow
      rw [← hrow, merged_id, hid]
    · rw [Function.update_of_ne hid] at hrow
      exact t.keyed id row hrow
  listed id hrow := by
    by_cases hid : id = item.id
    · rw [hid]
      split <;> simp_all
    · rw [Function.update_of_ne hid] at hrow
      have hold := t.listed id hrow
      split <;> simp [hold]

/-- `UPDATE approvals SET status = 'expired' WHERE id IN (…) AND status =
'pending'`, of one row. -/
def expireRow (ids : List String) (item : ApprovalItem Body) : ApprovalItem Body :=
  if item.id ∈ ids ∧ item.status = .pending then { item with status := .expired } else item

theorem expireRow_id (ids : List String) (item : ApprovalItem Body) :
    (expireRow ids item).id = item.id := by
  unfold expireRow
  split <;> rfl

def expireIfPending (t : Table Body) (ids : List String) : Table Body × List String :=
  (t.update (expireRow ids) (expireRow_id ids),
    ids.filter fun id => (t.row id).any (·.status = .pending))

/-- `UPDATE approvals SET consumed_at = ? WHERE id = ? AND status = 'approved'
AND consumed_at IS NULL`, of one row. -/
def consumeRow (id : String) (consumedAt : Int) (item : ApprovalItem Body) : ApprovalItem Body :=
  if item.id = id ∧ item.status = .approved ∧ item.consumedAt = none then
    { item with consumedAt := some consumedAt }
  else item

theorem consumeRow_id (id : String) (consumedAt : Int) (item : ApprovalItem Body) :
    (consumeRow id consumedAt item).id = item.id := by
  unfold consumeRow
  split <;> rfl

def consumeIfApproved (t : Table Body) (id : String) (consumedAt : Int) : Table Body × Bool :=
  (t.update (consumeRow id consumedAt) (consumeRow_id id consumedAt),
    (t.row id).any fun item => item.status = .approved && item.consumedAt = none)

def getMany (t : Table Body) (ids : List String) : List (ApprovalItem Body) :=
  ids.filterMap t.row

def newer (a b : ApprovalItem Body) : Bool :=
  b.createdAt < a.createdAt || (a.createdAt = b.createdAt && b.id ≤ a.id)

def query (t : Table Body) (spec : ApprovalFilterSpec) (limit offset : Nat) :
    List (ApprovalItem Body) :=
  ((((t.ids.filterMap t.row).filter spec.admits).insertionSort fun a b => newer a b).drop
    offset).take limit

variable {t : Table Body} {item : ApprovalItem Body}

theorem row_of_mem_query {spec : ApprovalFilterSpec} {limit offset : Nat}
    (h : item ∈ t.query spec limit offset) : t.row item.id = some item := by
  have hsort := mem_of_mem_drop (mem_of_mem_take h)
  rw [mem_insertionSort, mem_filter, mem_filterMap] at hsort
  obtain ⟨⟨id, -, hrow⟩, -⟩ := hsort
  rw [t.keyed id item hrow]
  exact hrow

theorem row_of_mem_getMany {ids : List String}
    (h : item ∈ t.getMany ids) : item.id ∈ ids ∧ t.row item.id = some item := by
  obtain ⟨id, hid, hrow⟩ := mem_filterMap.1 h
  rw [t.keyed id item hrow]
  exact ⟨hid, hrow⟩

end Table

end

open Lib
open Function (update)

-- ==== the calls

abbrev CallId := Nat

section Stages

variable (Body : Type)

/-- The operations that look into the cache first. -/
inductive Op where
  | get (approvalId : String)
  | saveIfPending (item : ApprovalItem Body)
  | consumeIfApproved (approvalId : String)

/-- A call of `list_items`, between two pages. -/
structure Listing where
  status : Option ApprovalStatus
  riskLevel : Option ApprovalRiskLevel
  actionType : Option String
  createdSince : Option Int
  capturedGeneration : Nat
  offset : Nat
  result : List (ApprovalItem Body)

structure Page where
  size : Nat
  pageResult : List (ApprovalItem Body)
  toPersist : List (ApprovalItem Body)
  pageCache : List (ApprovalItem Body)

/-- Where a call stands. `began` is a ghost. -/
inductive Stage where
  | idle
  /-- `repo.get`, on a cache miss. -/
  | loading (op : Op Body) (began : Option ApprovalStatus)
  /-- `repo.expire_if_pending`, of an item past its time. -/
  | flipping (op : Op Body) (began : Option ApprovalStatus) (item : ApprovalItem Body)
  /-- `repo.get`, after that has changed nothing. -/
  | reloading (op : Op Body) (began : Option ApprovalStatus) (item : ApprovalItem Body)
  /-- `repo.save` of `save_if_pending`. -/
  | writing (item : ApprovalItem Body) (began : Option ApprovalStatus)
  /-- `repo.consume_if_approved`. -/
  | consuming (approvalId : String) (began : Option ApprovalStatus)
      (current : ApprovalItem Body) (consumedAt : Int)
  /-- `repo.get` of `add`. -/
  | adding (item : ApprovalItem Body)
  /-- `repo.save` of `add`. -/
  | inserting (item : ApprovalItem Body)
  /-- `repo.query`. -/
  | listing (l : Listing Body)
  /-- `repo.expire_if_pending` of a page. -/
  | expiring (l : Listing Body) (p : Page Body)
  /-- `repo.get_many` of the rows it did not change. -/
  | refetching (l : Listing Body) (p : Page Body) (actuallyExpired : List String)
  /-- Waiting for the lock, to refresh the cache. -/
  | refreshing (l : Listing Body) (p : Page Body) (actuallyExpired : List String)
      (refetched : List (ApprovalItem Body))
  | answered (op : Op Body) (began : Option ApprovalStatus) (result : Option (ApprovalItem Body))
  | added
  | listed (result : List (ApprovalItem Body))
  | raised

structure State where
  items : String → Option (ApprovalItem Body)
  repo : Table Body
  generation : Nat
  lock : Option CallId
  calls : CallId → Stage Body
  /-- How often `save_if_pending` has returned the approval. -/
  saved : String → Nat
  /-- How often `consume_if_approved` has. -/
  granted : String → Nat

end Stages

variable {Body : Type}

def Op.approvalId : Op Body → String
  | .get approvalId => approvalId
  | .saveIfPending item => item.id
  | .consumeIfApproved approvalId => approvalId

/-- A new store over a repository. -/
def attached (repo : Table Body) : State Body where
  items _ := none
  repo := repo
  generation := 0
  lock := none
  calls _ := .idle
  saved _ := 0
  granted _ := 0

def setCall (s : State Body) (id : CallId) (stage : Stage Body) : State Body :=
  { s with calls := update s.calls id stage }

def release (s : State Body) : State Body := { s with lock := none }

/-- `self._items[str(item.id)] = item`. -/
def cache (s : State Body) (item : ApprovalItem Body) : State Body :=
  { s with items := update s.items item.id (some item) }

/-- `self._items.pop(approval_id, None)`. -/
def evict (s : State Body) (approvalId : String) : State Body :=
  { s with items := update s.items approvalId none }

-- ==== expiry

/-- The condition of `_check_expiration_locked` and `_compute_expiration`. -/
def expired (now : Int) (item : ApprovalItem Body) : Bool :=
  item.status = .pending && item.expiresAt.any (· ≤ now)

def expire (item : ApprovalItem Body) : ApprovalItem Body := { item with status := .expired }

def computeExpiration (now : Int) (item : ApprovalItem Body) : ApprovalItem Body :=
  if expired now item then expire item else item

def settled (s : State Body) (id : CallId) (op : Op Body) (began : Option ApprovalStatus)
    (current : ApprovalItem Body) (now : Int) : State Body :=
  match op with
  | .get _ => setCall (release s) id (.answered op began (some current))
  | .saveIfPending item =>
    if current.status ≠ .pending then setCall (release s) id (.answered op began none)
    else setCall s id (.writing item began)
  | .consumeIfApproved approvalId =>
    if current.status ≠ .approved ∨ current.consumedAt ≠ none then
      setCall (release s) id (.answered op began none)
    else setCall s id (.consuming approvalId began current now)

/-- Up to its statement. -/
def checkExpirationLocked (s : State Body) (id : CallId) (op : Op Body)
    (began : Option ApprovalStatus) (item : ApprovalItem Body) (now stamp : Int) : State Body :=
  if expired now item then setCall s id (.flipping op began item)
  else settled s id op began item stamp

-- ==== in the lock

/-- The operation takes the lock and looks into the cache. -/
def begin (s : State Body) (id : CallId) (op : Op Body) (now stamp : Int) : State Body :=
  match s.calls id, s.lock with
  | .idle, none =>
    let began := (s.repo.row op.approvalId).map ApprovalItem.status
    let s' : State Body := { s with lock := some id }
    match s.items op.approvalId with
    | some item => checkExpirationLocked s' id op began item now stamp
    | none => setCall s' id (.loading op began)
  | _, _ => s

/-- `repo.get`, and the cache filled with what it answers. -/
def load (s : State Body) (id : CallId) (raises : Bool) (now stamp : Int) : State Body :=
  match s.calls id with
  | .loading op began =>
    if raises then setCall (release s) id .raised
    else
      match s.repo.row op.approvalId with
      | none => setCall (release s) id (.answered op began none)
      | some item => checkExpirationLocked (cache s item) id op began item now stamp
  | _ => s

/-- `repo.expire_if_pending`, of one item. -/
def flip (s : State Body) (id : CallId) (raises : Bool) (stamp : Int) : State Body :=
  match s.calls id with
  | .flipping op began item =>
    if raises then setCall (release s) id .raised
    else
      match s.repo.expireIfPending [item.id] with
      | (repo, transitioned) =>
        if item.id ∈ transitioned then
          settled (cache { s with repo := repo } (expire item)) id op began (expire item) stamp
        else setCall { s with repo := repo } id (.reloading op began item)
  | _ => s

/-- `repo.get`, of the state that has won. -/
def reload (s : State Body) (id : CallId) (raises : Bool) (stamp : Int) : State Body :=
  match s.calls id with
  | .reloading op began item =>
    if raises then setCall (release s) id .raised
    else
      match s.repo.row item.id with
      | some current => settled (cache s current) id op began current stamp
      | none => settled (evict s item.id) id op began item stamp
  | _ => s

inductive Upsert where
  | done
  /-- It raises, and nothing is written. -/
  | failed
  | cancelled (committed : Bool)

/-- The decision is written. -/
def write (s : State Body) (id : CallId) (upsert : Upsert) : State Body :=
  match s.calls id with
  | .writing item began =>
    match upsert with
    | .done =>
      let s' : State Body := cache { s with repo := s.repo.save item } item
      setCall (release { s' with saved := update s.saved item.id (s.saved item.id + 1) }) id
        (.answered (.saveIfPending item) began (some item))
    | .failed => setCall (release s) id .raised
    | .cancelled committed =>
      setCall (release (evict { s with
        repo := if committed then s.repo.save item else s.repo } item.id)) id .raised
  | _ => s

/-- The grant is spent, if the row allows it. -/
def consume (s : State Body) (id : CallId) (raises : Bool) : State Body :=
  match s.calls id with
  | .consuming approvalId began current consumedAt =>
    if raises then setCall (release s) id .raised
    else
      match s.repo.consumeIfApproved approvalId consumedAt with
      | (repo, won) =>
        let op : Op Body := .consumeIfApproved approvalId
        if won then
          let consumed := { current with consumedAt := some consumedAt }
          setCall (release { s with
              repo := repo
              items := update s.items approvalId (some consumed)
              granted := update s.granted approvalId (s.granted approvalId + 1) }) id
            (.answered op began (some consumed))
        else
          setCall (release (evict { s with repo := repo } approvalId)) id
            (.answered op began none)
  | _ => s

/-- Up to its `repo.get`. -/
def add (s : State Body) (id : CallId) (item : ApprovalItem Body) : State Body :=
  match s.calls id, s.lock with
  | .idle, none =>
    match s.items item.id with
    | some _ => setCall s id .raised
    | none => setCall { s with lock := some id } id (.adding item)
  | _, _ => s

def addGet (s : State Body) (id : CallId) (raises : Bool) : State Body :=
  match s.calls id with
  | .adding item =>
    if raises then setCall (release s) id .raised
    else
      match s.repo.row item.id with
      | some existing => setCall (release (cache s existing)) id .raised
      | none => setCall s id (.inserting item)
  | _ => s

def addSave (s : State Body) (id : CallId) (upsert : Upsert) : State Body :=
  match s.calls id with
  | .inserting item =>
    match upsert with
    | .done => setCall (release (cache { s with repo := s.repo.save item } item)) id .added
    | .failed => setCall (release s) id .raised
    | .cancelled committed =>
      setCall (release { s with
        repo := if committed then s.repo.save item else s.repo }) id .raised
  | _ => s

def clear (s : State Body) : State Body :=
  match s.lock with
  | none => { s with items := fun _ => none, generation := s.generation + 1 }
  | some _ => s

-- ==== the listing

/-- `DEFAULT_LIST_LIMIT`. -/
def DEFAULT_LIST_LIMIT : Nat := 100

/-- Up to its first page. -/
def listItems (s : State Body) (id : CallId) (status : Option ApprovalStatus)
    (riskLevel : Option ApprovalRiskLevel) (actionType : Option String)
    (createdSince : Option Int) : State Body :=
  match s.calls id, s.lock with
  | .idle, none =>
    setCall s id (.listing ⟨status, riskLevel, actionType, createdSince, s.generation, 0, []⟩)
  | _, _ => s

def Listing.filterSpec (l : Listing Body) : ApprovalFilterSpec where
  status := if l.status ∈ [none, some .pending, some .expired] then none else l.status
  riskLevel := l.riskLevel
  actionTypes := l.actionType.toList
  createdSince := l.createdSince

def computePage (page : List (ApprovalItem Body)) (clock : String → Int)
    (status : Option ApprovalStatus) (riskLevel : Option ApprovalRiskLevel) : Page Body where
  size := page.length
  pageResult := (page.map fun item => computeExpiration (clock item.id) item).filter
    fun checked => status.all (· = checked.status) && riskLevel.all (· = checked.riskLevel)
  toPersist := (page.filter fun item => expired (clock item.id) item).map expire
  pageCache := page.map fun item => computeExpiration (clock item.id) item

def listQuery (s : State Body) (id : CallId) (raises : Bool) (clock : String → Int) : State Body :=
  match s.calls id with
  | .listing l =>
    if raises then setCall s id .raised
    else
      match s.repo.query l.filterSpec DEFAULT_LIST_LIMIT l.offset with
      | [] => setCall s id (.listed l.result)
      | item :: page =>
        setCall s id (.expiring l (computePage (item :: page) clock l.status l.riskLevel))
  | _ => s

/-- Its expired items are flipped, where their rows are still PENDING. -/
def listExpire (s : State Body) (id : CallId) (raises : Bool) : State Body :=
  match s.calls id with
  | .expiring l p =>
    if raises then setCall s id .raised
    else
      match s.repo.expireIfPending (p.toPersist.map ApprovalItem.id) with
      | (repo, actuallyExpired) =>
        setCall { s with repo := repo } id (.refetching l p actuallyExpired)
  | _ => s

def Page.lostRace (p : Page Body) (actuallyExpired : List String) : List String :=
  (p.toPersist.map ApprovalItem.id).filter (· ∉ actuallyExpired)

def Listing.matches (l : Listing Body) (item : ApprovalItem Body) : Bool :=
  l.status.all (· = item.status) && l.riskLevel.all (· = item.riskLevel) &&
    l.actionType.all (· = item.actionType) && l.createdSince.all (· ≤ item.createdAt)

/-- The rows that were not flipped are read again. -/
def listRefetch (s : State Body) (id : CallId) (raises : Bool) : State Body :=
  match s.calls id with
  | .refetching l p actuallyExpired =>
    if raises then setCall s id .raised
    else setCall s id (.refreshing l p actuallyExpired
      ((s.repo.getMany (p.lostRace actuallyExpired)).filter l.matches))
  | _ => s

def refresh (items : String → Option (ApprovalItem Body)) (p : Page Body)
    (actuallyExpired : List String) (refetched : List (ApprovalItem Body)) :
    String → Option (ApprovalItem Body) :=
  refetched.foldl (fun items item => update items item.id (some item))
    (p.pageCache.foldl (fun items cached => update items cached.id
      (if cached.id ∈ p.lostRace actuallyExpired then none else some cached)) items)

/-- The page is done: unless the store was cleared, it goes into the cache; then comes the next
one. -/
def listRefresh (s : State Body) (id : CallId) : State Body :=
  match s.calls id, s.lock with
  | .refreshing l p actuallyExpired refetched, none =>
    let s' : State Body :=
      if s.generation = l.capturedGeneration then
        { s with items := refresh s.items p actuallyExpired refetched }
      else s
    let result := l.result ++
      p.pageResult.filter (fun item => item.id ∉ p.lostRace actuallyExpired) ++ refetched
    if p.size < DEFAULT_LIST_LIMIT then setCall s' id (.listed result)
    else
      setCall s' id (.listing { l with offset := l.offset + DEFAULT_LIST_LIMIT, result := result })
  | _, _ => s

-- ==== the steps

/-- What can happen next. -/
inductive Event (Body : Type) where
  | begin (id : CallId) (op : Op Body) (now stamp : Int)
  | load (id : CallId) (raises : Bool) (now stamp : Int)
  | flip (id : CallId) (raises : Bool) (stamp : Int)
  | reload (id : CallId) (raises : Bool) (stamp : Int)
  | write (id : CallId) (upsert : Upsert)
  | consume (id : CallId) (raises : Bool)
  | add (id : CallId) (item : ApprovalItem Body)
  | addGet (id : CallId) (raises : Bool)
  | addSave (id : CallId) (upsert : Upsert)
  | clear
  | listItems (id : CallId) (status : Option ApprovalStatus)
      (riskLevel : Option ApprovalRiskLevel) (actionType : Option String)
      (createdSince : Option Int)
  | listQuery (id : CallId) (raises : Bool) (clock : String → Int)
  | listExpire (id : CallId) (raises : Bool)
  | listRefetch (id : CallId) (raises : Bool)
  | listRefresh (id : CallId)

def step (s : State Body) : Event Body → State Body
  | .begin id op now stamp => begin s id op now stamp
  | .load id raises now stamp => load s id raises now stamp
  | .flip id raises stamp => flip s id raises stamp
  | .reload id raises stamp => reload s id raises stamp
  | .write id upsert => write s id upsert
  | .consume id raises => consume s id raises
  | .add id item => add s id item
  | .addGet id raises => addGet s id raises
  | .addSave id upsert => addSave s id upsert
  | .clear => clear s
  | .listItems id status riskLevel actionType createdSince =>
    listItems s id status riskLevel actionType createdSince
  | .listQuery id raises clock => listQuery s id raises clock
  | .listExpire id raises => listExpire s id raises
  | .listRefetch id raises => listRefetch s id raises
  | .listRefresh id => listRefresh s id

-- ==== what is promised

/-- AN APPROVAL IS DECIDED ONCE, of a state of the store. -/
structure DecidedOnce (s : State Body) : Prop where
  saved : ∀ approvalId, s.saved approvalId ≤ 1
  granted : ∀ approvalId, s.granted approvalId ≤ 1
  /-- `get` answers PENDING only where the row was, as it took the lock. -/
  got : ∀ id approvalId began item,
    s.calls id = .answered (.get approvalId) began (some item) → item.status = .pending →
      began = some .pending

def StatusKept (s s' : State Body) : Prop :=
  ∀ approvalId row, s.repo.row approvalId = some row → row.status ≠ .pending →
    ∃ row', s'.repo.row approvalId = some row' ∧ row'.status = row.status

end Synthorg.Approvals
