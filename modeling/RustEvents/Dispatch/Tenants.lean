/- module: RustEvents/Dispatch/Tenants
   layer: system
   source: src/outbox.rs (Outbox::dispatch), migrations (dispatch_keys primary key), tests/dispatch_happy_path.rs
   digest: What one tenant gets from a history of transactions, with and without the calls of the others. -/

import RustEvents.Dispatch.Plans

set_option autoImplicit false
set_option relaxedAutoImplicit false

namespace RustEvents.Dispatch.Tenants

open RustEvents.Foundation.IndexedTable
open RustEvents.Model.Text
open RustEvents.Model.Errors
open RustEvents.Model.Schema
open RustEvents.Model.Builder
open RustEvents.Model.Dispatch
open RustEvents.Dispatch.Effects
open RustEvents.Dispatch.Fanout
open RustEvents.Dispatch.Plans

section Renaming

variable (f : Uuid → Uuid)

/-- The same call in a run whose event ids are renamed. -/
def renameCall (c : Call) : Call := { c with eventId := f c.eventId }

def renameEvent (e : EventRow) : EventRow := { e with id := f e.id }

def renameKey (k : DispatchKeyRow) : DispatchKeyRow := { k with eventId := f k.eventId }

/-- A delivery without its identity value, which counts the rows of all tenants. -/
def renameDelivery (d : HandlerDelivery) : HandlerDelivery :=
  { d with id := 0, eventId := f d.eventId }

def renameJob (j : Job) : Job :=
  { j with envelope := { j.envelope with eventId := f j.envelope.eventId } }

def renameOutcome : DispatchOutcome → DispatchOutcome
  | .dispatched eventId n => .dispatched (f eventId) n
  | .duplicate eventId => .duplicate (f eventId)
  | .noHandlers eventId => .noHandlers (f eventId)

abbrev Answer := Except DispatchError DispatchOutcome

def renameAnswer (answer : Answer) : Answer := answer.map (renameOutcome f)

def renamePlan (p : Plan) : Plan where
  result := renameAnswer f p.result
  keys := p.keys.map (renameKey f)
  events := p.events.map (renameEvent f)
  handlers := p.handlers
  jobs := p.jobs.map (renameJob f)

private theorem insertError_rename (c : Call) (payload : Bytes) (handlerIds : List String) :
    insertError (renameCall f c) payload handlerIds = insertError c payload handlerIds := by
  have checks : EventCheck.holds (eventRow (renameCall f c) payload) =
      EventCheck.holds (eventRow c payload) := by
    funext check
    cases check <;> rfl
  have violates : (eventRow (renameCall f c) payload).violated =
      (eventRow c payload).violated := by
    simp only [EventRow.violated, checks]
  simp only [insertError, violates]
  rfl

private theorem keyPlan_rename (c : Call) (known : Option Uuid) :
    keyPlan (renameCall f c) (known.map f) =
      match keyPlan c known with
      | .error result => .error (renameAnswer f result)
      | .ok keys => .ok (keys.map (renameKey f)) := by
  simp only [keyPlan, renameCall]
  cases c.ctx.idempotencyKey with
  | none => rfl
  | some key =>
    cases c.faults.reserve with
    | some e => rfl
    | none =>
      by_cases texts : (storable c.ctx.tenantId && storable key) = true
      · cases known <;> simp only [texts, if_true, Option.map_some, Option.map_none] <;> rfl
      · simp only [texts]
        rfl

private theorem writePlan_rename (c : Call) (payload : Bytes) (handlerIds : List String)
    (keys : List DispatchKeyRow) :
    writePlan (renameCall f c) payload handlerIds (keys.map (renameKey f)) =
      renamePlan f (writePlan c payload handlerIds keys) := by
  have headers : headersText (renameCall f c) = headersText c := rfl
  have faults : (renameCall f c).faults = c.faults := rfl
  simp only [writePlan, insertError_rename, headers, faults]
  split
  · rfl
  cases c.faults.insert with
  | some e => rfl
  | none =>
    simp only
    cases insertError c payload handlerIds with
    | some e => rfl
    | none =>
      simp only
      split
      · rfl
      · cases c.faults.push with
        | some e => rfl
        | none =>
          have jobs : handlerIds.map (jobFor (renameCall f c)) =
              (handlerIds.map (jobFor c)).map (renameJob f) := by
            rw [List.map_map]
            rfl
          simp only [jobs]
          rfl

private theorem plan_rename (c : Call) (known : Option Uuid) :
    plan (renameCall f c) (known.map f) = renamePlan f (plan c known) := by
  have prepared : prepare (renameCall f c) = prepare c := rfl
  simp only [plan, prepared, keyPlan_rename]
  cases prepare c with
  | error e => rfl
  | ok result =>
    cases keyPlan c known with
    | error result => rfl
    | ok keys => exact writePlan_rename f c _ _ keys

end Renaming

/-- The event is stored for this tenant. -/
def ownedBy (tenantId : String) (db : Database) (eventId : Uuid) : Bool :=
  db.events.rows.any fun e => e.id = eventId && e.tenantId = tenantId

/-- The tables `db'` hold exactly what belongs to the tenant in `db`, up to event ids and the
identity values of deliveries. -/
structure Share (tenantId : String) (f : Uuid → Uuid) (db db' : Database) : Prop where
  events : db'.events.rows =
    (db.events.rows.filter fun e => e.tenantId = tenantId).map (renameEvent f)
  keys : db'.dispatchKeys.rows =
    (db.dispatchKeys.rows.filter fun k => k.tenantId = tenantId).map (renameKey f)
  deliveries : db'.handlerDeliveries.rows.map (renameDelivery id) =
    (db.handlerDeliveries.rows.filter fun d => ownedBy tenantId db d.eventId).map
      (renameDelivery f)
  jobs : db'.jobs =
    (db.jobs.filter fun j => ownedBy tenantId db j.envelope.eventId).map (renameJob f)

/-- Keys and jobs go with the event that they name. -/
structure Coherent (db : Database) : Prop where
  keys : ∀ k ∈ db.dispatchKeys.rows, ∀ e ∈ db.events.rows, e.id = k.eventId →
    e.tenantId = k.tenantId
  jobs : ∀ j ∈ db.jobs, ∃ e ∈ db.events.rows, e.id = j.envelope.eventId

/-- All that a call writes carries its own tenant and its own event id. -/
structure Own (c : Call) (p : Plan) : Prop where
  keys : ∀ k ∈ p.keys, k.eventId = c.eventId ∧ k.tenantId = c.ctx.tenantId
  events : ∀ e ∈ p.events, e.id = c.eventId ∧ e.tenantId = c.ctx.tenantId
  jobs : ∀ j ∈ p.jobs, j.envelope.eventId = c.eventId
  parent : p.events = [] → p.handlers = [] ∧ p.jobs = []

private theorem own_stop {c : Call} {keys : List DispatchKeyRow}
    (own : ∀ k ∈ keys, k.eventId = c.eventId ∧ k.tenantId = c.ctx.tenantId) (result : Answer) :
    Own c (.stop keys result) :=
  ⟨own, nofun, nofun, fun _ => ⟨rfl, rfl⟩⟩

private theorem keyPlan_own {c : Call} {known : Option Uuid} {keys : List DispatchKeyRow}
    (planned : keyPlan c known = .ok keys) :
    ∀ k ∈ keys, k.eventId = c.eventId ∧ k.tenantId = c.ctx.tenantId := by
  intro k mem
  simp only [keyPlan] at planned
  split at planned
  · cases planned
    cases mem
  · split at planned
    · cases planned
    · split at planned
      · split at planned
        · cases planned
        · cases planned
          rw [List.mem_singleton.mp mem]
          exact ⟨rfl, rfl⟩
      · cases planned

theorem plan_own (c : Call) (known : Option Uuid) : Own c (plan c known) := by
  simp only [plan]
  cases prepare c with
  | error e => exact own_stop (List.forall_mem_nil _) _
  | ok prepared =>
    cases planned : keyPlan c known with
    | error result => exact own_stop (List.forall_mem_nil _) _
    | ok keys =>
      have own := keyPlan_own planned
      have event : ∀ e ∈ [eventRow c prepared.1], e.id = c.eventId ∧
          e.tenantId = c.ctx.tenantId := by
        intro e mem
        rw [List.mem_singleton.mp mem]
        exact ⟨rfl, rfl⟩
      simp only [writePlan]
      split
      · exact own_stop own _
      split
      · exact own_stop own _
      split
      · exact own_stop own _
      have parent : [eventRow c prepared.1] ≠ [] := List.cons_ne_nil _ _
      split
      · exact ⟨own, event, List.forall_mem_nil _, fun none => absurd none parent⟩
      split
      · exact ⟨own, event, List.forall_mem_nil _, fun none => absurd none parent⟩
      · refine ⟨own, event, ?_, fun none => absurd none parent⟩
        intro j mem
        obtain ⟨h, -, rfl⟩ := List.mem_map.mp mem
        rfl

section Growth

variable {tenantId : String} {f : Uuid → Uuid} {c : Call} {p : Plan} {db db2 db' db2' : Database}

private theorem appended_parent (appended : Appended c p db db2) (own : Own c p) {eventId : Uuid}
    (other : eventId ≠ c.eventId) : ownedBy tenantId db2 eventId = ownedBy tenantId db eventId := by
  have new : p.events.any (fun e => e.id = eventId && e.tenantId = tenantId) = false := by
    rw [List.any_eq_false]
    intro e mem
    simp [(own.events e mem).1, Ne.symm other]
  rw [ownedBy, appended.events, List.any_append, new, Bool.or_false]
  rfl

private theorem appended_own (appended : Appended c p db db2) (own : Own c p)
    (unused : Unused c.eventId db) (written : p.events ≠ []) :
    ownedBy tenantId db2 c.eventId = decide (c.ctx.tenantId = tenantId) := by
  have old : db.events.rows.any (fun e => e.id = c.eventId && e.tenantId = tenantId) = false := by
    rw [List.any_eq_false]
    intro e stored
    simp [unused.events e stored]
  rw [ownedBy, appended.events, List.any_append, old, Bool.false_or]
  obtain ⟨e, mem⟩ := List.exists_mem_of_ne_nil p.events written
  by_cases same : c.ctx.tenantId = tenantId
  · rw [decide_eq_true same, List.any_eq_true]
    exact ⟨e, mem, by simp [own.events e mem, same]⟩
  · rw [decide_eq_false same, List.any_eq_false]
    intro x new
    simp [own.events x new, same]

private theorem filter_all_or_none {ρ : Type} {rows : List ρ} {test : ρ → Bool} {b : Prop}
    [Decidable b]
    (each : ∀ r ∈ rows, test r = decide b) : rows.filter test = if b then rows else [] := by
  rw [List.filter_congr each]
  split
  · next yes => simp [yes]
  · next no => simp [no]

private theorem kept_old {ρ : Type} {old : List ρ} (event : ρ → Uuid)
    (appended : Appended c p db db2) (own : Own c p) (unused : Unused c.eventId db)
    (stored : ∀ r ∈ old, ∃ e ∈ db.events.rows, e.id = event r) :
    (old.filter fun r => ownedBy tenantId db2 (event r)) =
      old.filter fun r => ownedBy tenantId db (event r) := by
  refine List.filter_congr ?_
  intro r mem
  obtain ⟨e, known, names⟩ := stored r mem
  exact appended_parent appended own fun same => unused.events e known (names.trans same)

private theorem kept_new {ρ : Type} {new : List ρ} (event : ρ → Uuid)
    (appended : Appended c p db db2)
    (own : Own c p) (unused : Unused c.eventId db) (mine : ∀ r ∈ new, event r = c.eventId)
    (parent : p.events = [] → new = []) :
    (new.filter fun r => ownedBy tenantId db2 (event r)) =
      if c.ctx.tenantId = tenantId then new else [] := by
  by_cases empty : p.events = []
  · rw [parent empty]
    simp
  · refine filter_all_or_none ?_
    intro r mem
    rw [mine r mem]
    exact appended_own appended own unused empty

private theorem coherent_appended (coherent : Coherent db) (appended : Appended c p db db2)
    (own : Own c p) (unused : Unused c.eventId db) : Coherent db2 where
  keys := by
    intro k mem e stored names
    rw [appended.keys] at mem
    rw [appended.events] at stored
    rcases List.mem_append.mp mem with oldKey | newKey <;>
      rcases List.mem_append.mp stored with oldEvent | newEvent
    · exact coherent.keys k oldKey e oldEvent names
    · exact absurd (names.symm.trans (own.events e newEvent).1) (unused.keys k oldKey)
    · exact absurd (names.trans (own.keys k newKey).1) (unused.events e oldEvent)
    · exact (own.events e newEvent).2.trans (own.keys k newKey).2.symm
  jobs := by
    intro j mem
    rw [appended.jobs] at mem
    rw [appended.events]
    rcases List.mem_append.mp mem with old | new
    · obtain ⟨e, stored, names⟩ := coherent.jobs j old
      exact ⟨e, List.mem_append_left _ stored, names⟩
    · have written : p.events ≠ [] := by
        intro empty
        rw [(own.parent empty).2] at new
        cases new
      obtain ⟨e, inserted⟩ := List.exists_mem_of_ne_nil p.events written
      exact ⟨e, List.mem_append_right _ inserted,
        (own.events e inserted).1.trans (own.jobs j new).symm⟩

/-- The rows of one call that the tenant keeps. -/
structure Kept (tenantId : String) (c : Call) (p : Plan) (db db2 : Database) : Prop where
  events : (db2.events.rows.filter fun e => e.tenantId = tenantId) =
    (db.events.rows.filter fun e => e.tenantId = tenantId) ++
      if c.ctx.tenantId = tenantId then p.events else []
  keys : (db2.dispatchKeys.rows.filter fun k => k.tenantId = tenantId) =
    (db.dispatchKeys.rows.filter fun k => k.tenantId = tenantId) ++
      if c.ctx.tenantId = tenantId then p.keys else []
  deliveries : (db2.handlerDeliveries.rows.filter fun d => ownedBy tenantId db2 d.eventId) =
    (db.handlerDeliveries.rows.filter fun d => ownedBy tenantId db d.eventId) ++
      if c.ctx.tenantId = tenantId then
        Database.queuedRows c.eventId c.now db.nextDeliveryId p.handlers
      else []
  jobs : (db2.jobs.filter fun j => ownedBy tenantId db2 j.envelope.eventId) =
    (db.jobs.filter fun j => ownedBy tenantId db j.envelope.eventId) ++
      if c.ctx.tenantId = tenantId then p.jobs else []

private theorem filter_tenant {ρ : Type} {new : List ρ} {tenant : ρ → String}
    (mine : ∀ r ∈ new, tenant r = c.ctx.tenantId) :
    (new.filter fun r => tenant r = tenantId) = if c.ctx.tenantId = tenantId then new else [] := by
  refine filter_all_or_none ?_
  intro r mem
  rw [mine r mem]

private theorem kept (appended : Appended c p db db2) (own : Own c p) (unused : Unused c.eventId db)
    (coherent : Coherent db) : Kept tenantId c p db db2 where
  events := by
    rw [appended.events, List.filter_append, filter_tenant fun e mem => (own.events e mem).2]
  keys := by
    rw [appended.keys, List.filter_append, filter_tenant fun k mem => (own.keys k mem).2]
  deliveries := by
    rw [appended.deliveries, List.filter_append,
      kept_old HandlerDelivery.eventId appended own unused db.deliveryEvent,
      kept_new HandlerDelivery.eventId appended own unused
        fun d mem => (Database.queuedRows_spec mem).1]
    intro empty
    rw [(own.parent empty).1]
    rfl
  jobs := by
    rw [appended.jobs, List.filter_append,
      kept_old (fun j : Job => j.envelope.eventId) appended own unused coherent.jobs,
      kept_new (fun j : Job => j.envelope.eventId) appended own unused own.jobs]
    exact fun empty => (own.parent empty).2

private theorem share_other (share : Share tenantId f db db') (kept : Kept tenantId c p db db2)
    (other : c.ctx.tenantId ≠ tenantId) : Share tenantId f db2 db' where
  events := by rw [kept.events, if_neg other, List.append_nil, share.events]
  keys := by rw [kept.keys, if_neg other, List.append_nil, share.keys]
  deliveries := by rw [kept.deliveries, if_neg other, List.append_nil, share.deliveries]
  jobs := by rw [kept.jobs, if_neg other, List.append_nil, share.jobs]

private theorem queuedRows_rename (f : Uuid → Uuid) (eventId : Uuid) (now : Timestamp) (n m : ℕ)
    (hs : List String) :
    (Database.queuedRows (f eventId) now n hs).map (renameDelivery id) =
      (Database.queuedRows eventId now m hs).map (renameDelivery f) := by
  induction hs generalizing n m with
  | nil => rfl
  | cons h hs ih =>
    rw [Database.queuedRows, Database.queuedRows, List.map_cons, List.map_cons,
      ih (n + 1) (m + 1)]
    rfl

private theorem share_own (share : Share tenantId f db db') (kept : Kept tenantId c p db db2)
    (same : c.ctx.tenantId = tenantId)
    (appended' : Appended (renameCall f c) (renamePlan f p) db' db2') :
    Share tenantId f db2 db2' where
  events := by
    rw [appended'.events, kept.events, if_pos same, List.map_append, share.events]
    rfl
  keys := by
    rw [appended'.keys, kept.keys, if_pos same, List.map_append, share.keys]
    rfl
  deliveries := by
    rw [appended'.deliveries, kept.deliveries, if_pos same, List.map_append, List.map_append,
      share.deliveries]
    exact congrArg _ (queuedRows_rename f c.eventId c.now _ _ p.handlers)
  jobs := by
    rw [appended'.jobs, kept.jobs, if_pos same, List.map_append, share.jobs]
    rfl

private theorem key?_share (share : Share tenantId f db db') (key : String) :
    db'.key? tenantId key = (db.key? tenantId key).map (renameKey f) := by
  simp only [Database.key?, Table.find, share.keys, List.find?_map, List.find?_filter]
  congr 2
  funext k
  by_cases same : k.tenantId = tenantId
  · simp [same, renameKey, DispatchKeyRow.key]
  · simp [same, DispatchKeyRow.key]

private theorem known_share (share : Share tenantId f db db') (same : c.ctx.tenantId = tenantId) :
    known (renameCall f c) db' = (known c db).map f := by
  simp only [known, renameCall, same, key?_share share]
  cases c.ctx.idempotencyKey with
  | none => rfl
  | some key =>
    simp only [Option.bind_some, Option.map_map]
    rfl

end Growth

section Calls

variable {tenantId : String} {f : Uuid → Uuid} {c : Call} {db db' : Database}

private theorem dispatch_coherent (coherent : Coherent db) (unused : Unused c.eventId db) :
    Coherent (dispatch c db).1 :=
  coherent_appended coherent (dispatch_planned unused).2 (plan_own c (known c db)) unused

private theorem dispatch_kept (coherent : Coherent db) (unused : Unused c.eventId db) :
    Kept tenantId c (plan c (known c db)) db (dispatch c db).1 :=
  kept (dispatch_planned unused).2 (plan_own c (known c db)) unused coherent

private theorem dispatch_own (share : Share tenantId f db db') (coherent : Coherent db)
    (same : c.ctx.tenantId = tenantId) (unused : Unused c.eventId db)
    (unused' : Unused (f c.eventId) db') :
    (dispatch (renameCall f c) db').2 = renameAnswer f (dispatch c db).2 ∧
      Share tenantId f (dispatch c db).1 (dispatch (renameCall f c) db').1 := by
  have planned := (dispatch_planned unused).1
  obtain ⟨planned', appended'⟩ := dispatch_planned (c := renameCall f c) unused'
  rw [known_share share same, plan_rename] at planned' appended'
  refine ⟨?_, share_own share (dispatch_kept coherent unused) same appended'⟩
  rw [planned', planned]
  rfl

private theorem dispatch_other (share : Share tenantId f db db') (coherent : Coherent db)
    (other : c.ctx.tenantId ≠ tenantId) (unused : Unused c.eventId db) :
    Share tenantId f (dispatch c db).1 db' :=
  share_other share (dispatch_kept coherent unused) other

end Calls

/-- The calls of the tenant, with their event ids renamed. -/
def mine (tenantId : String) (f : Uuid → Uuid) (cs : List Call) : List Call :=
  (cs.filter fun c => c.ctx.tenantId = tenantId).map (renameCall f)

/-- What the tenant's calls among `cs` returned. -/
def answersTo (tenantId : String) (cs : List Call) (results : List Answer) : List Answer :=
  ((cs.zip results).filter fun x => x.1.ctx.tenantId = tenantId).map Prod.snd

/-- No statement of another tenant's call fails before a call of this tenant in the same
transaction, which would take the transaction down for both. -/
def undisturbed (tenantId : String) : Session → List Call → Bool
  | _, [] => true
  | s, c :: cs =>
    (s.aborted || decide (c.ctx.tenantId = tenantId) || !aborts (s.dispatch c).2 ||
      cs.all fun d => d.ctx.tenantId ≠ tenantId) && undisturbed tenantId (s.dispatch c).1 cs

/-- A session and the one with the tenant's calls alone. -/
structure Paired (tenantId : String) (f : Uuid → Uuid) (ids ids' : List Uuid) (s s' : Session) :
    Prop where
  share : Share tenantId f s.db s'.db
  coherent : Coherent s.db
  issued : Issued ids s.db
  issued' : Issued ids' s'.db
  aborted : s'.aborted = true → s.aborted = true

section Sessions

variable {tenantId : String} {f : Uuid → Uuid} {ids ids' : List Uuid} {s s' : Session} {c : Call}

private theorem aborts_rename (answer : Answer) : aborts
    (renameAnswer f answer) = aborts answer := by
  cases answer <;> rfl

/-- The call as a session lets it run. -/
def admitted (s : Session) (c : Call) : Call := if s.aborted then c.inAborted else c

private theorem session_dispatch (s : Session) (c : Call) :
    s.dispatch c = (⟨(dispatch (admitted s c) s.db).1,
      s.aborted || aborts (dispatch (admitted s c) s.db).2⟩, (dispatch (admitted s c) s.db).2) :=
  rfl

private theorem admitted_eventId (s : Session) (c : Call) : (admitted s c).eventId = c.eventId := by
  unfold admitted
  split <;> rfl

private theorem admitted_tenantId (s : Session) (c : Call) :
    (admitted s c).ctx.tenantId = c.ctx.tenantId := by
  unfold admitted
  split <;> rfl

private theorem admitted_rename (level : s'.aborted = s.aborted) :
    admitted s' (renameCall f c) = renameCall f (admitted s c) := by
  unfold admitted
  rw [level]
  split <;> rfl

private theorem paired_own (paired : Paired tenantId f ids ids' s s')
    (level : s'.aborted = s.aborted)
    (same : c.ctx.tenantId = tenantId) (fresh : c.eventId ∉ ids) (fresh' : f c.eventId ∉ ids') :
    (s'.dispatch (renameCall f c)).2 = renameAnswer f (s.dispatch c).2 ∧
      Paired tenantId f (ids ++ [c.eventId]) (ids' ++ [f c.eventId]) (s.dispatch c).1
        (s'.dispatch (renameCall f c)).1 ∧
      (s'.dispatch (renameCall f c)).1.aborted = (s.dispatch c).1.aborted := by
  have unused : Unused (admitted s c).eventId s.db := by
    rw [admitted_eventId]
    exact paired.issued.unused fresh
  have unused' : Unused (f (admitted s c).eventId) s'.db := by
    rw [admitted_eventId]
    exact paired.issued'.unused fresh'
  obtain ⟨answer, share⟩ := dispatch_own paired.share paired.coherent
    ((admitted_tenantId s c).trans same) unused unused'
  have issued := issued_dispatch paired.issued (admitted s c)
  have issued' := issued_dispatch paired.issued' (renameCall f (admitted s c))
  have renamed : (renameCall f (admitted s c)).eventId = f c.eventId :=
    congrArg f (admitted_eventId s c)
  rw [admitted_eventId] at issued
  rw [renamed] at issued'
  simp only [session_dispatch, admitted_rename level, answer, aborts_rename, level]
  refine ⟨trivial, ⟨share, dispatch_coherent paired.coherent unused, issued, issued', ?_⟩, trivial⟩
  exact id

private theorem paired_other (paired : Paired tenantId f ids ids' s s')
    (other : c.ctx.tenantId ≠ tenantId) (fresh : c.eventId ∉ ids) :
    Paired tenantId f (ids ++ [c.eventId]) ids' (s.dispatch c).1 s' := by
  have unused : Unused (admitted s c).eventId s.db := by
    rw [admitted_eventId]
    exact paired.issued.unused fresh
  have issued := issued_dispatch paired.issued (admitted s c)
  rw [admitted_eventId] at issued
  rw [session_dispatch]
  refine ⟨dispatch_other paired.share paired.coherent ?_ unused,
    dispatch_coherent paired.coherent unused, issued, paired.issued', ?_⟩
  · rw [admitted_tenantId]
    exact other
  · intro failed
    rw [paired.aborted failed, Bool.true_or]

private theorem fresh_cons {ids : List Uuid} {c : Call} {cs : List Call}
    (fresh : (ids ++ (c :: cs).map Call.eventId).Nodup) :
    c.eventId ∉ ids ∧ ((ids ++ [c.eventId]) ++ cs.map Call.eventId).Nodup := by
  constructor
  · intro mem
    exact (List.nodup_append.mp fresh).2.2 _ mem _ List.mem_cons_self rfl
  · simpa using fresh

private theorem dispatchAll_cons (s : Session) (c : Call) (cs : List Call) :
    s.dispatchAll (c :: cs) = (((s.dispatch c).1.dispatchAll cs).1,
      (s.dispatch c).2 :: ((s.dispatch c).1.dispatchAll cs).2) := rfl

private theorem mine_cons_own (f : Uuid → Uuid) (same : c.ctx.tenantId = tenantId)
    (cs : List Call) : mine tenantId f (c :: cs) = renameCall f c :: mine tenantId f cs := by
  simp [mine, same]

private theorem mine_cons_other (f : Uuid → Uuid) (other : c.ctx.tenantId ≠ tenantId)
    (cs : List Call) : mine tenantId f (c :: cs) = mine tenantId f cs := by
  simp [mine, other]

private theorem answersTo_cons_own (same : c.ctx.tenantId = tenantId) (cs : List Call)
    (answer : Answer) (answers : List Answer) :
    answersTo tenantId (c :: cs) (answer :: answers) = answer :: answersTo tenantId cs answers := by
  simp [answersTo, same]

private theorem answersTo_cons_other (other : c.ctx.tenantId ≠ tenantId) (cs : List Call)
    (answer : Answer) (answers : List Answer) :
    answersTo tenantId (c :: cs) (answer :: answers) = answersTo tenantId cs answers := by
  simp [answersTo, other]

private theorem level_other {cs : List Call}
    (level : s'.aborted = s.aborted ∨ ∀ d ∈ c :: cs, d.ctx.tenantId ≠ tenantId)
    (calm : (s.aborted || !aborts (s.dispatch c).2 ||
      cs.all fun d => d.ctx.tenantId ≠ tenantId) = true) :
    s'.aborted = (s.dispatch c).1.aborted ∨ ∀ d ∈ cs, d.ctx.tenantId ≠ tenantId := by
  -- Both sessions stay equally able to go on, as long as the tenant has calls left.
  have after : (s.dispatch c).1.aborted = (s.aborted || aborts (s.dispatch c).2) := rfl
  rcases level with level | none
  · simp only [Bool.or_eq_true, Bool.not_eq_true', List.all_eq_true, decide_eq_true_eq] at calm
    rcases calm with (down | fine) | none
    · exact .inl (by rw [level, after, down, Bool.true_or])
    · exact .inl (by rw [level, after, fine, Bool.or_false])
    · exact .inr none
  · exact .inr fun d mem => none d (List.mem_cons_of_mem c mem)

private theorem paired_all {cs : List Call} (paired : Paired tenantId f ids ids' s s')
    (level : s'.aborted = s.aborted ∨ ∀ c ∈ cs, c.ctx.tenantId ≠ tenantId)
    (calm : undisturbed tenantId s cs = true) (fresh : (ids ++ cs.map Call.eventId).Nodup)
    (fresh' : (ids' ++ (mine tenantId f cs).map Call.eventId).Nodup) :
    (s'.dispatchAll (mine tenantId f cs)).2 =
        (answersTo tenantId cs (s.dispatchAll cs).2).map (renameAnswer f) ∧
      Paired tenantId f (ids ++ cs.map Call.eventId)
        (ids' ++ (mine tenantId f cs).map Call.eventId) (s.dispatchAll cs).1
        (s'.dispatchAll (mine tenantId f cs)).1 := by
  induction cs generalizing ids ids' s s' with
  | nil =>
    refine ⟨rfl, ?_⟩
    simpa [mine, Session.dispatchAll] using paired
  | cons c cs ih =>
    obtain ⟨new, fresh⟩ := fresh_cons fresh
    simp only [undisturbed, Bool.and_eq_true] at calm
    obtain ⟨here, later⟩ := calm
    by_cases same : c.ctx.tenantId = tenantId
    · have level : s'.aborted = s.aborted := by
        rcases level with level | none
        · exact level
        · exact absurd same (none c List.mem_cons_self)
      rw [mine_cons_own f same] at fresh' ⊢
      obtain ⟨new', fresh'⟩ := fresh_cons fresh'
      obtain ⟨answer, next, level⟩ := paired_own paired level same new new'
      obtain ⟨answers, done⟩ := ih next (.inl level) later fresh fresh'
      rw [dispatchAll_cons, dispatchAll_cons, answersTo_cons_own same, answer, answers]
      refine ⟨rfl, ?_⟩
      simpa [renameCall] using done
    · have calm : (s.aborted || !aborts (s.dispatch c).2 ||
          cs.all fun d => d.ctx.tenantId ≠ tenantId) = true := by
        simpa [same] using here
      rw [mine_cons_other f same] at fresh' ⊢
      have next := paired_other paired same new
      obtain ⟨answers, done⟩ := ih next (level_other level calm) later fresh fresh'
      rw [dispatchAll_cons, answersTo_cons_other same, answers]
      refine ⟨rfl, ?_⟩
      simpa using done

end Sessions

/-- The transactions in order, each with what its calls returned. -/
def history : Database → List Transaction → List (Transaction × List Answer)
  | _, [] => []
  | db, tx :: txs => (tx, tx.results db) :: history (tx.settled db) txs

/-- The committed tables after a list of transactions. -/
def settledAll (db : Database) (txs : List Transaction) : Database :=
  txs.foldl (fun db tx => tx.settled db) db

/-- The same transactions with the tenant's calls alone; each commits if it did before. -/
def alone (tenantId : String) (f : Uuid → Uuid) : Database → List Transaction → List Transaction
  | _, [] => []
  | db, tx :: txs =>
    ⟨mine tenantId f tx.calls, tx.settles db⟩ :: alone tenantId f (tx.settled db) txs

/-- `undisturbed` in every transaction. -/
def calm (tenantId : String) : Database → List Transaction → Bool
  | _, [] => true
  | db, tx :: txs =>
    undisturbed tenantId ⟨db, false⟩ tx.calls && calm tenantId (tx.settled db) txs

section Histories

variable {tenantId : String} {f : Uuid → Uuid} {ids ids' : List Uuid} {db db' : Database}

private theorem keysReferEvents_share (share : Share tenantId f db db') (coherent : Coherent db)
    (refer : db.KeysReferEvents) : db'.KeysReferEvents := by
  intro k' stored'
  rw [share.keys] at stored'
  obtain ⟨k, kept, rfl⟩ := List.mem_map.mp stored'
  obtain ⟨stored, own⟩ := List.mem_filter.mp kept
  obtain ⟨e, known, names⟩ := refer k stored
  refine ⟨renameEvent f e, ?_, congrArg f names⟩
  rw [share.events]
  refine List.mem_map_of_mem (List.mem_filter.mpr ⟨known, ?_⟩)
  rw [coherent.keys k stored e known names]
  exact own

/-- Between two transactions of a history and of its share. -/
structure Level (tenantId : String) (f : Uuid → Uuid) (ids ids' : List Uuid) (db db' : Database) :
    Prop where
  share : Share tenantId f db db'
  coherent : Coherent db
  issued : Issued ids db
  issued' : Issued ids' db'

private theorem level_transaction (level : Level tenantId f ids ids' db db') (tx : Transaction)
    (quiet : undisturbed tenantId ⟨db, false⟩ tx.calls = true)
    (fresh : (ids ++ tx.calls.map Call.eventId).Nodup)
    (fresh' : (ids' ++ (mine tenantId f tx.calls).map Call.eventId).Nodup) :
    Transaction.results ⟨mine tenantId f tx.calls, tx.settles db⟩ db' =
        (answersTo tenantId tx.calls (tx.results db)).map (renameAnswer f) ∧
      Level tenantId f (ids ++ tx.calls.map Call.eventId)
        (ids' ++ (mine tenantId f tx.calls).map Call.eventId) (tx.settled db)
        (Transaction.settled ⟨mine tenantId f tx.calls, tx.settles db⟩ db') := by
  have start : Paired tenantId f ids ids' ⟨db, false⟩ ⟨db', false⟩ :=
    ⟨level.share, level.coherent, level.issued, level.issued', id⟩
  obtain ⟨answers, paired⟩ := paired_all start (.inl rfl) quiet fresh fresh'
  refine ⟨answers, ?_⟩
  cases settles : tx.settles db with
  | false =>
    have stays : tx.settled db = db := by
      rw [Transaction.settled, settles]
      rfl
    rw [stays]
    exact ⟨level.share, level.coherent, level.issued.mono (List.subset_append_left _ _),
      level.issued'.mono (List.subset_append_left _ _)⟩
  | true =>
    have ended := settles
    simp only [Transaction.settles, Bool.and_eq_true, Bool.not_eq_true', decide_eq_true_eq]
      at ended
    obtain ⟨⟨-, healthy⟩, refer⟩ := ended
    have healthy' : (Session.dispatchAll ⟨db', false⟩ (mine tenantId f tx.calls)).1.aborted =
        false := by
      rw [← Bool.not_eq_true]
      intro failed
      rw [paired.aborted failed] at healthy
      cases healthy
    have refer' := keysReferEvents_share paired.share paired.coherent refer
    have settles' : Transaction.settles ⟨mine tenantId f tx.calls, true⟩ db' = true := by
      simp only [Transaction.settles, healthy', refer', decide_true, Bool.not_false, Bool.and_self]
    simp only [Transaction.settled, settles, settles', if_true]
    exact ⟨paired.share, paired.coherent, paired.issued, paired.issued'⟩

private theorem level_history {txs : List Transaction} (level : Level tenantId f ids ids' db db')
    (quiet : calm tenantId db txs = true) (fresh : (ids ++ idsOf txs).Nodup)
    (fresh' : (ids' ++ idsOf (alone tenantId f db txs)).Nodup) :
    (history db' (alone tenantId f db txs)).map Prod.snd =
        (history db txs).map
          (fun x => (answersTo tenantId x.1.calls x.2).map (renameAnswer f)) ∧
      Share tenantId f (settledAll db txs) (settledAll db' (alone tenantId f db txs)) := by
  induction txs generalizing ids ids' db db' with
  | nil => exact ⟨rfl, level.share⟩
  | cons tx txs ih =>
    simp only [calm, Bool.and_eq_true] at quiet
    simp only [idsOf, alone, List.flatMap_cons, List.map_append, ← List.append_assoc]
      at fresh fresh'
    obtain ⟨answers, next⟩ := level_transaction level tx quiet.1 (List.nodup_append.mp fresh).1
      (List.nodup_append.mp fresh').1
    obtain ⟨later, share⟩ := ih next quiet.2 fresh fresh'
    refine ⟨?_, share⟩
    simp only [alone, history, List.map_cons, answers, later]

end Histories

/-- The tenant gets the same answers and keeps the same rows without the other tenants' calls. -/
structure Unaffected (tenantId : String) (f : Uuid → Uuid) (txs : List Transaction) : Prop where
  answers : (history .empty (alone tenantId f .empty txs)).map Prod.snd =
    (history .empty txs).map fun x => (answersTo tenantId x.1.calls x.2).map (renameAnswer f)
  rows : Share tenantId f (settledAll .empty txs) (settledAll .empty (alone tenantId f .empty txs))

/-- Tenants do not interfere, as long as none brings down a transaction that another goes on
to use: `f` takes the event ids of the one run to those of the other. -/
theorem tenants_do_not_interfere (tenantId : String) (f : Uuid → Uuid) (txs : List Transaction)
    (fresh : (idsOf txs).Nodup) (fresh' : (idsOf (alone tenantId f .empty txs)).Nodup)
    (quiet : calm tenantId .empty txs = true) : Unaffected tenantId f txs := by
  have start : Level tenantId f [] [] .empty .empty := by
    refine ⟨⟨rfl, rfl, rfl, rfl⟩, ⟨?_, ?_⟩, ⟨?_, ?_⟩, ⟨?_, ?_⟩⟩ <;>
      simp [Database.empty, Table.empty]
  obtain ⟨answers, rows⟩ := level_history start quiet fresh fresh'
  exact ⟨answers, rows⟩

def tenantCall (tenantId : String) (key : Option String) (eventId : Uuid) : Call :=
  { sampleCall "order.created" key eventId with ctx := ⟨tenantId, "orders", key, none⟩ }

/-- Two tenants use one key string, in transactions of their own and in a common one. -/
def neighbours : List Transaction :=
  [⟨[tenantCall "t2" (some "order:42") 1#128], true⟩,
   ⟨[tenantCall "t1" (some "order:42") 2#128, tenantCall "t2" (some "order:42") 3#128], true⟩,
   ⟨[tenantCall "t1" (some "order:42") 4#128], true⟩]

theorem neighbours_do_not_interfere :
    (history .empty neighbours).map (fun x => answersTo "t1" x.1.calls x.2) =
        [[], [.ok (.dispatched 2#128 2)], [.ok (.duplicate 2#128)]] ∧
      Unaffected "t1" (· + 16#128) neighbours :=
  ⟨by decide, tenants_do_not_interfere "t1" (· + 16#128) neighbours (by decide) (by decide)
    (by decide)⟩

/-- The key of the other tenant cannot be stored, and its failed statement aborts the
transaction that both use. -/
def sharedTransaction : List Transaction :=
  [⟨[tenantCall "t2" (some "order\x00") 1#128, tenantCall "t1" none 2#128], true⟩]

/-- A neighbour is noticed in two ways: its failed statement fails the calls after it, and its
deliveries move the identity values on. -/
theorem neighbour_is_noticed :
    ((idsOf sharedTransaction).Nodup ∧ ¬ Unaffected "t1" id sharedTransaction) ∧
    (((settledAll .empty neighbours).handlerDeliveries.rows.filter fun d =>
        ownedBy "t1" (settledAll .empty neighbours) d.eventId).map HandlerDelivery.id = [2, 3] ∧
      (settledAll .empty (alone "t1" id .empty neighbours)).handlerDeliveries.rows.map
        HandlerDelivery.id = [0, 1]) := by
  refine ⟨⟨by decide, ?_⟩, by decide, by decide⟩
  intro unaffected
  have differ : (history .empty (alone "t1" id .empty sharedTransaction)).map Prod.snd ≠
      (history .empty sharedTransaction).map fun x =>
        (answersTo "t1" x.1.calls x.2).map (renameAnswer id) := by decide
  exact differ unaffected.answers

end RustEvents.Dispatch.Tenants
