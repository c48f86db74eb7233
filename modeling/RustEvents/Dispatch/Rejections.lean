/- module: RustEvents/Dispatch/Rejections
   layer: model facts
   source: src/outbox.rs (validation, key reservation, headers check), src/error.rs (DispatchError)
   digest: Which typed rejections leave the transaction untouched, and the one that leaves its key behind. -/

import RustEvents.Dispatch.Effects

set_option autoImplicit false
set_option relaxedAutoImplicit false

namespace RustEvents.Dispatch.Rejections

open RustEvents.Foundation.IndexedTable
open RustEvents.Model.Text
open RustEvents.Model.Errors
open RustEvents.Model.Schema
open RustEvents.Model.Builder
open RustEvents.Model.Dispatch
open RustEvents.Dispatch.Effects

/-- The call reserves a new key and then meets the headers check with too many bytes. -/
def leavesKey (c : Call) (db : Database) : Bool :=
  (prepare c).isOk && decide (maxHeadersBytes < len (headersText c)) &&
    c.ctx.idempotencyKey.any fun key => c.faults.reserve.isNone && reservable c db key

/-- A typed rejection writes nothing, so that no later call in the transaction is answered
with an event that does not exist. -/
structure RejectsCleanly (c : Call) (db : Database) : Prop where
  unchanged : ∀ e, (dispatch c db).2 = .error e → e.typed = true → (dispatch c db).1 = db
  answerable : ∀ e, (dispatch c db).2 = .error e → e.typed = true → db.KeysReferEvents →
    ∀ c' eventId, (dispatch c' (dispatch c db).1).2 = .ok (.duplicate eventId) →
      ∃ ev ∈ (dispatch c db).1.events.rows, ev.id = eventId

private theorem ofSqlx_untyped (e : SqlxError) : (DispatchError.ofSqlx e).typed = false := by
  simp only [DispatchError.ofSqlx]
  split <;> rfl

private theorem duplicate_stored {c : Call} {db : Database} {eventId : Uuid}
    (answered : (dispatch c db).2 = .ok (.duplicate eventId)) :
    ∃ row ∈ db.dispatchKeys.rows, row.eventId = eventId := by
  have cases := dispatch_cases c db
  generalize dispatch c db = result at cases answered
  cases cases with
  | unreserved result reserving =>
    cases reserving with
    | rejected e => cases answered
    | unreserved e => cases answered
    | duplicate payload handlerIds key row passed keyed reached found =>
      cases answered
      exact ⟨row, (Table.find_mem found).1, rfl⟩
  | uninserted e => cases answered
  | noHandlers payload db1 db2 => cases answered
  | unpushed e => cases answered
  | dispatched payload handlerIds db1 db2 => cases answered

private theorem unchanged_of_clean {c : Call} {db : Database} (clean : leavesKey c db = false)
    {e : DispatchError} (failed : (dispatch c db).2 = .error e) (typed : e.typed = true) :
    (dispatch c db).1 = db := by
  have cases := dispatch_cases c db
  generalize dispatch c db = result at cases failed
  cases cases with
  | unreserved result reserving => rfl
  | uninserted e' payload handlerIds db1 passed reserves inserting =>
    cases failed
    cases inserting with
    | oversized large =>
      cases keyed : c.ctx.idempotencyKey with
      | none =>
        exact Database.ext_tables reserves.events
          (Table.ext (by rw [reserves.keys]; simp [keyRow, keyed])) reserves.deliveries
          reserves.nextId reserves.jobs
      | some key =>
        obtain ⟨reached, free⟩ := reserves.free key keyed
        simp [leavesKey, passed, Except.isOk, Except.toBool, large, keyed, reached, free] at clean
    | uninserted f cause =>
      rw [ofSqlx_untyped] at typed
      cases typed
  | noHandlers payload db1 db2 => cases failed
  | unpushed f =>
    cases failed
    cases typed
  | dispatched payload handlerIds db1 db2 => cases failed

theorem violated_eq_none {κ : Type} {checks : List (String × κ)} {holds : κ → Bool}
    (all : ∀ k, holds k = true) : violated checks holds = none := by
  simp [violated, all]

theorem violated_some {κ : Type} {checks : List (String × κ)} {holds : κ → Bool} {name : String}
    (found : violated checks holds = some name) :
    ∃ check, (name, check) ∈ checks ∧ holds check = false := by
  simp only [violated, Option.map_eq_some_iff] at found
  obtain ⟨⟨label, check⟩, first, rfl⟩ := found
  exact ⟨check, List.mem_of_find?_eq_some first, by simpa using List.find?_some first⟩

theorem keyRow_checks {c : Call} {payload : Bytes} {handlerIds : List String} {key : String}
    (prepared : Prepared c payload handlerIds) (keyed : c.ctx.idempotencyKey = some key)
    (check : KeyCheck) : check.holds ⟨c.ctx.tenantId, key, c.eventId, c.now⟩ = true := by
  cases check with
  | tenantBytes => simpa [KeyCheck.holds] using prepared.tenantId
  | keyBytes => simpa [KeyCheck.holds, keyed] using prepared.idempotencyKey

theorem upsertKey_reservable {c : Call} {db : Database} {payload : Bytes}
    {handlerIds : List String} {key : String} (prepared : Prepared c payload handlerIds)
    (keyed : c.ctx.idempotencyKey = some key) (free : reservable c db key = true) :
    ∃ db', upsertKey c key db = .ok (db', c.eventId, true) := by
  simp only [reservable, Bool.and_eq_true, Option.isNone_iff_eq_none] at free
  obtain ⟨⟨⟨tenant, text⟩, unknown⟩, unused⟩ := free
  have valid : (⟨c.ctx.tenantId, key, c.eventId, c.now⟩ : DispatchKeyRow).violated = none :=
    violated_eq_none (keyRow_checks prepared keyed)
  have apart : ∀ r ∈ db.dispatchKeys.rows,
      r.Apart ⟨c.ctx.tenantId, key, c.eventId, c.now⟩ := by
    intro r stored
    refine ⟨?_, by simpa using List.all_eq_true.mp unused r stored⟩
    exact Table.find_eq_none.mp unknown r stored
  obtain ⟨keys, inserted⟩ : ∃ keys, db.dispatchKeys.insert
      ⟨c.ctx.tenantId, key, c.eventId, c.now⟩ = some keys := by
    simp only [Table.insert, dif_pos apart]
    exact ⟨_, rfl⟩
  refine ⟨{ db with dispatchKeys := keys }, ?_⟩
  simp [upsertKey, tenant, text, valid, unknown, Database.insertKey, inserted, Except.map]

private theorem changed_of_leaves {c : Call} {db : Database} (leaves : leavesKey c db = true) :
    (dispatch c db).2 = .error (.headersTooLarge (len (headersText c)) maxHeadersBytes) ∧
      (dispatch c db).1 ≠ db := by
  simp only [leavesKey, Bool.and_eq_true, decide_eq_true_eq, Option.any_eq_true,
    Option.isNone_iff_eq_none] at leaves
  obtain ⟨⟨ok, large⟩, key, keyed, reached, free⟩ := leaves
  obtain ⟨payload, handlerIds, passed⟩ : ∃ payload handlerIds,
      prepare c = .ok (payload, handlerIds) := by
    cases passed : prepare c with
    | error e => simp [passed, Except.isOk, Except.toBool] at ok
    | ok result => exact ⟨result.1, result.2, rfl⟩
  obtain ⟨db1, upserted⟩ := upsertKey_reservable (prepare_ok passed) keyed free
  have rejects := insertStep_oversized large payload handlerIds db1
  have result : dispatch c db =
      (db1, .error (.headersTooLarge (len (headersText c)) maxHeadersBytes)) := by
    simp only [dispatch, reserveStep, passed, keyed, reached, upserted, rejects]
  rw [result]
  refine ⟨rfl, ?_⟩
  rintro rfl
  rcases upsertKey_ok keyed reached upserted with ⟨wrong, -⟩ | ⟨-, -, reserves⟩
  · cases wrong
  · have rows := congrArg List.length reserves.keys
    simp [keyRow, keyed] at rows

/-- Exactly when typed rejections write nothing: unless the call has reserved a new key
before the headers turn out too large. -/
theorem rejects_cleanly_iff (c : Call) (db : Database) :
    RejectsCleanly c db ↔ leavesKey c db = false := by
  constructor
  · intro clean
    rw [← Bool.not_eq_true]
    intro leaves
    obtain ⟨failed, changed⟩ := changed_of_leaves leaves
    exact changed (clean.unchanged _ failed rfl)
  · intro clean
    refine ⟨fun e => unchanged_of_clean clean, ?_⟩
    intro e failed typed refer c' eventId answered
    have same := unchanged_of_clean clean failed typed
    rw [same] at answered ⊢
    obtain ⟨row, stored, rfl⟩ := duplicate_stored answered
    exact refer row stored

/-- A header of `n` letters. -/
def longHeader (n : ℕ) : JsonMap := [("trace", .string (String.ofList (List.replicate n 'a')))]

private theorem letters_plain (n : ℕ) :
    (List.replicate n 'a').flatMap escape = List.replicate n 'a' := by
  induction n with
  | zero => rfl
  | succ n ih =>
    rw [List.replicate_succ, List.flatMap_cons, ih]
    rfl

theorem longHeader_bytes (n : ℕ) : len (compactText (.object (longHeader n))) = n + 12 := by
  have body : bytes (quoted (String.ofList (List.replicate n 'a'))) = n + 2 := by
    have quote : ('\x22' : Char).utf8Size = 1 := rfl
    simp only [quoted, String.toList_ofList, letters_plain, List.cons_append, bytes_cons,
      bytes_append, letters_bytes, bytes_nil, quote]
    omega
  have head : bytes ('\x7b' :: quoted "trace" ++ [':']) = 9 := by decide
  have tail : bytes ['\x7d'] = 1 := by decide
  calc len (compactText (.object (longHeader n)))
      = bytes ('\x7b' :: quoted "trace" ++ [':']) +
          bytes (quoted (String.ofList (List.replicate n 'a'))) + bytes ['\x7d'] := by
        rw [← bytes_append, ← bytes_append]
        rfl
    _ = n + 12 := by omega

def strictOutbox : Outbox where
  config := OutboxConfig.default
  registry := Registry.new.add
    ⟨"order.created", "mailer", ⟨fun _ _ _ => .returned .ok⟩, none, none⟩
  allowNoHandlers := false

def oversizedCall : Call where
  outbox := strictOutbox
  ctx := ⟨"t1", "orders", some "order:42", some (longHeader 16385)⟩
  event := ⟨"order.created", none, .ok [123, 125]⟩
  eventId := 9#128
  now := 0
  faults := .none

/-- The rejected call leaves its key reserved for an event that does not exist. -/
theorem oversized_headers_leave_key : ¬ RejectsCleanly oversizedCall Database.empty := by
  have large : maxHeadersBytes < len (headersText oversizedCall) := by
    have size : len (headersText oversizedCall) = 16385 + 12 := longHeader_bytes 16385
    rw [size]
    decide
  have leaves : leavesKey oversizedCall Database.empty = true := by
    simp only [leavesKey, Bool.and_eq_true, decide_eq_true_eq]
    exact ⟨⟨by decide, large⟩, by decide⟩
  intro clean
  obtain ⟨failed, changed⟩ := changed_of_leaves leaves
  exact changed (clean.unchanged _ failed rfl)

end RustEvents.Dispatch.Rejections
