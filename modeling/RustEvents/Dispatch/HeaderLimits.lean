/- module: RustEvents/Dispatch/HeaderLimits
   layer: model facts
   source: src/outbox.rs (step 6 of dispatch), src/limits.rs, migrations (events_headers_size)
   digest: How far the two renderings of a header map differ, and the maps that fall between the two limits. -/

import RustEvents.Dispatch.Rejections

set_option autoImplicit false
set_option relaxedAutoImplicit false

namespace RustEvents.Dispatch.HeaderLimits

open RustEvents.Model.Text
open RustEvents.Model.Errors
open RustEvents.Model.Schema
open RustEvents.Model.Builder
open RustEvents.Model.Dispatch
open RustEvents.Dispatch.Effects
open RustEvents.Dispatch.Rejections

mutual

/-- The commas and colons of a value, each of which `jsonb::text` follows with a space. -/
def separators : Json → ℕ
  | .array items => itemSeparators items
  | .object fields => fieldSeparators fields
  | _ => 0

def itemSeparators : List Json → ℕ
  | [] => 0
  | [v] => separators v
  | v :: vs => separators v + 1 + itemSeparators vs

def fieldSeparators : List (String × Json) → ℕ
  | [] => 0
  | [(_, v)] => 1 + separators v
  | (_, v) :: rest => 1 + separators v + 1 + fieldSeparators rest

end

mutual

/-- The bytes that the numbers of a value take when `print` prints them. -/
def numberBytes (print : String → String) : Json → ℕ
  | .number literal => len (print literal)
  | .array items => itemNumberBytes print items
  | .object fields => fieldNumberBytes print fields
  | _ => 0

def itemNumberBytes (print : String → String) : List Json → ℕ
  | [] => 0
  | v :: vs => numberBytes print v + itemNumberBytes print vs

def fieldNumberBytes (print : String → String) : List (String × Json) → ℕ
  | [] => 0
  | (_, v) :: rest => numberBytes print v + fieldNumberBytes print rest

end

private theorem space_size : (' ' : Char).utf8Size = 1 := rfl

private theorem bytes_toList (s : String) : bytes s.toList = len s := by
  rw [bytes, String.ofList_toList]

mutual

/-- The two renderings differ by one byte per separator, and in their numbers. -/
private theorem render_spaced (v : Json) :
    bytes (render numericText [',', ' '] [':', ' '] v) + numberBytes id v =
      bytes (render id [','] [':'] v) + separators v + numberBytes numericText v := by
  match v with
  | .null => rfl
  | .bool true => rfl
  | .bool false => rfl
  | .number literal =>
    simp only [render, separators, numberBytes, bytes_toList, id]
    omega
  | .string s => rfl
  | .array items =>
    have inner := renderItems_spaced items
    simp only [render, separators, numberBytes, List.cons_append, bytes_cons, bytes_append]
    omega
  | .object fields =>
    have inner := renderFields_spaced fields
    simp only [render, separators, numberBytes, List.cons_append, bytes_cons, bytes_append]
    omega

private theorem renderItems_spaced (items : List Json) :
    bytes (renderItems numericText [',', ' '] [':', ' '] items) + itemNumberBytes id items =
      bytes (renderItems id [','] [':'] items) + itemSeparators items +
        itemNumberBytes numericText items := by
  match items with
  | [] => rfl
  | [v] =>
    simp only [renderItems, itemSeparators, itemNumberBytes]
    exact render_spaced v
  | v :: w :: vs =>
    have first := render_spaced v
    have rest := renderItems_spaced (w :: vs)
    have numbers : ∀ print, itemNumberBytes print (v :: w :: vs) =
        numberBytes print v + itemNumberBytes print (w :: vs) := fun _ => rfl
    rw [numbers, numbers]
    simp only [renderItems, itemSeparators, bytes_append, bytes_cons, bytes_nil, space_size]
    omega

private theorem renderFields_spaced (fields : List (String × Json)) :
    bytes (renderFields numericText [',', ' '] [':', ' '] fields) + fieldNumberBytes id fields =
      bytes (renderFields id [','] [':'] fields) + fieldSeparators fields +
        fieldNumberBytes numericText fields := by
  match fields with
  | [] => rfl
  | [(k, v)] =>
    have only := render_spaced v
    simp only [renderFields, fieldSeparators, fieldNumberBytes, bytes_append, bytes_cons,
      bytes_nil, space_size]
    omega
  | (k, v) :: w :: rest =>
    have first := render_spaced v
    have later := renderFields_spaced (w :: rest)
    have numbers : ∀ print, fieldNumberBytes print ((k, v) :: w :: rest) =
        numberBytes print v + fieldNumberBytes print (w :: rest) := fun _ => rfl
    rw [numbers, numbers]
    simp only [renderFields, fieldSeparators, bytes_append, bytes_cons, bytes_nil, space_size]
    omega

end

private theorem jsonbText_len (v : Json) : len (jsonbText v) + numberBytes id v =
    len (compactText v) + separators v + numberBytes numericText v :=
  render_spaced v

/-- A map that the Rust check accepts, and whose spaces and numbers written in full take it over
the CHECK. -/
def InGap (headers : JsonMap) : Prop :=
  len (compactText (.object headers)) ≤ maxHeadersBytes ∧
    maxHeadersBytes + numberBytes id (.object headers) <
      len (compactText (.object headers)) + separators (.object headers) +
        numberBytes numericText (.object headers)

theorem inGap_of_alike {headers : JsonMap}
    (alike : numberBytes numericText (.object headers) = numberBytes id (.object headers)) :
    InGap headers ↔ len (compactText (.object headers)) ≤ maxHeadersBytes ∧
      maxHeadersBytes < len (compactText (.object headers)) + separators (.object headers) := by
  rw [InGap, alike]
  omega

/-- What Postgres reports when the CHECK on the headers refuses a row. -/
def headersViolation : SqlxError := checkViolation "events_headers_size"

/-- No failure from outside imitates the CHECK. -/
def Foreign (c : Call) : Prop :=
  c.faults.reserve ≠ some headersViolation ∧ c.faults.insert ≠ some headersViolation

/-- Both limits draw the same line for the calls with these headers. -/
structure HeaderLimitsAgree (headers : JsonMap) : Prop where
  accepted : len (compactText (.object headers)) ≤ maxHeadersBytes →
    ∀ (c : Call) (payload : Bytes), c.ctx.headers.getD [] = headers →
      EventCheck.headersSize.holds (eventRow c payload) = true
  typed : ∀ (c : Call) (payload : Bytes), c.ctx.headers.getD [] = headers →
    EventCheck.headersSize.holds (eventRow c payload) = false →
      ∀ handlerIds db, insertStep c payload handlerIds db =
        (db, .returned (.error (.headersTooLarge (len (headersText c)) maxHeadersBytes)))
  opaqueFree : ∀ (c : Call) (db : Database), c.ctx.headers.getD [] = headers → Foreign c →
    (dispatch c db).2 ≠ .error (.constraint headersViolation)

private theorem headersViolation_code {α : Type} {code text : String}
    (same : (.error (.database (some code) text) : Except SqlxError α) = .error headersViolation) :
    code = "23514" := by
  injection same with same
  injection same with codes
  exact Option.some.inj codes

private theorem ofSqlx_constraint {e f : SqlxError}
    (same : DispatchError.ofSqlx e = .constraint f) : e = f := by
  simp only [DispatchError.ofSqlx] at same
  split at same
  · cases same
    rfl
  · cases same

private theorem upsertKey_headers {c : Call} {key : String} {db : Database} {payload : Bytes}
    {handlerIds : List String} (prepared : Prepared c payload handlerIds)
    (keyed : c.ctx.idempotencyKey = some key) :
    upsertKey c key db ≠ .error headersViolation := by
  have valid : (⟨c.ctx.tenantId, key, c.eventId, c.now⟩ : DispatchKeyRow).violated = none :=
    violated_eq_none (keyRow_checks prepared keyed)
  intro failed
  simp only [upsertKey, valid] at failed
  split at failed
  · split at failed
    · cases failed
    · simp only [Database.insertKey, valid] at failed
      split at failed
      · exact absurd (headersViolation_code failed) (by decide)
      · cases failed
  · exact absurd (headersViolation_code failed) (by decide)

private theorem insertEvent_headers {db : Database} {r : EventRow}
    (failed : db.insertEvent r = .error headersViolation) :
    EventCheck.headersSize.holds r = false := by
  simp only [Database.insertEvent] at failed
  split at failed
  · next name found =>
    cases failed
    obtain ⟨check, listed, refused⟩ := violated_some found
    have only : ∀ entry ∈ eventChecks, entry.1 = "events_headers_size" →
        entry.2 = .headersSize := by decide
    rw [← only _ listed rfl]
    exact refused
  · split at failed
    · exact absurd (headersViolation_code failed) (by decide)
    · cases failed

private theorem insertDeliveries_headers {db : Database} {eventId : Uuid} {handlerIds : List String}
    {now : Timestamp} : db.insertDeliveries eventId handlerIds now ≠ .error headersViolation := by
  intro failed
  simp only [Database.insertDeliveries] at failed
  split at failed
  · next name found =>
    cases failed
    obtain ⟨row, -, found⟩ := List.exists_of_findSome?_eq_some found
    obtain ⟨check, listed, -⟩ := violated_some found
    have absent : ∀ entry ∈ deliveryChecks, entry.1 ≠ "events_headers_size" := by decide
    exact absent _ listed rfl
  · split at failed
    · exact absurd (headersViolation_code failed) (by decide)
    · split at failed
      · cases failed
      · exact absurd (headersViolation_code failed) (by decide)

private theorem insertStatement_headers {c : Call} {payload : Bytes} {handlerIds : List String}
    {db : Database} (failed : insertStatement c payload handlerIds db = .error headersViolation) :
    EventCheck.headersSize.holds (eventRow c payload) = false := by
  simp only [insertStatement] at failed
  split at failed
  · split at failed
    · next e cause =>
      cases failed
      exact insertEvent_headers cause
    · split at failed
      · cases failed
      · exact absurd failed insertDeliveries_headers
  · rw [Except.error.injEq] at failed
    rcases textError_cases _ with text | text
    · exact absurd (text.symm.trans failed) (by decide)
    · exact absurd (text.symm.trans failed) (by decide)

private theorem headersSize_holds {c : Call} {headers : JsonMap}
    (given : c.ctx.headers.getD [] = headers)
    (payload : Bytes) : EventCheck.headersSize.holds (eventRow c payload) = true ↔
      len (jsonbText (.object headers)) ≤ maxHeadersBytes := by
  simp only [EventCheck.holds, eventRow, given, decide_eq_true_eq]
  rfl

private theorem InGap.jsonb {headers : JsonMap} (gap : InGap headers) :
    maxHeadersBytes < len (jsonbText (.object headers)) := by
  have lengths := jsonbText_len (.object headers)
  have large := gap.2
  omega

private theorem oversized_of_refused {c : Call} {headers : JsonMap} (clear : ¬ InGap headers)
    (given : c.ctx.headers.getD [] = headers) {payload : Bytes}
    (refused : EventCheck.headersSize.holds (eventRow c payload) = false) :
    maxHeadersBytes < len (headersText c) := by
  have large : maxHeadersBytes < len (jsonbText (.object headers)) := by
    rw [← Nat.not_le, ← headersSize_holds given payload, refused]
    exact Bool.false_ne_true
  have lengths := jsonbText_len (.object headers)
  rw [headersText, given]
  by_contra small
  apply clear
  refine ⟨Nat.le_of_not_lt small, ?_⟩
  omega

private theorem reserveStep_headers {c : Call} {db db1 : Database} (foreign : Foreign c) :
    reserveStep c db ≠ (db1, .returned (.error (.constraint headersViolation))) := by
  have cases := reserve_cases c db
  intro stopped
  rw [stopped] at cases
  generalize reached : (DispatchError.constraint headersViolation) = e at cases
  cases cases with
  | rejected e rejected =>
    have typed := prepare_error rejected
    rw [← reached] at typed
    cases typed
  | unreserved f payload handlerIds key prepared keyed cause =>
    cases ofSqlx_constraint reached.symm
    rcases cause with injected | failed
    · exact foreign.1 injected
    · exact upsertKey_headers prepared keyed failed

private theorem insertStep_headers {c : Call} {headers : JsonMap} {payload : Bytes}
    {handlerIds : List String} {db db2 : Database} (clear : ¬ InGap headers)
    (given : c.ctx.headers.getD [] = headers) (foreign : Foreign c) :
    insertStep c payload handlerIds db ≠
      (db2, .returned (.error (.constraint headersViolation))) := by
  intro stopped
  by_cases large : maxHeadersBytes < len (headersText c)
  · rw [insertStep_oversized large] at stopped
    cases stopped
  have cases := insert_cases c payload handlerIds db
  rw [stopped] at cases
  generalize reached : (DispatchError.constraint headersViolation) = e at cases
  cases cases with
  | oversized large' => exact large large'
  | uninserted f cause =>
    cases ofSqlx_constraint reached.symm
    rcases cause with injected | failed
    · exact foreign.2 injected
    · exact large (oversized_of_refused clear given (insertStatement_headers failed))

private theorem dispatch_headers {c : Call} {headers : JsonMap} {db : Database}
    (clear : ¬ InGap headers) (given : c.ctx.headers.getD [] = headers) (foreign : Foreign c) :
    (dispatch c db).2 ≠ .error (.constraint headersViolation) := by
  simp only [dispatch]
  cases reserved : reserveStep c db with
  | mk db1 stage =>
  cases stage with
  | returned result =>
    rintro rfl
    exact reserveStep_headers foreign reserved
  | inserting payload handlerIds =>
  simp only
  cases inserted : insertStep c payload handlerIds db1 with
  | mk db2 stage =>
  cases stage with
  | returned result =>
    rintro rfl
    exact insertStep_headers clear given foreign inserted
  | pushing handlerIds =>
    simp only [pushStep]
    split <;> intro wrong <;> cases wrong

/-- A call with the given headers, all else as in the strict outbox's example. -/
def callWith (headers : JsonMap) : Call where
  outbox := strictOutbox
  ctx := ⟨"t1", "orders", none, some headers⟩
  event := ⟨"order.created", none, .ok [123, 125]⟩
  eventId := 9#128
  now := 0
  faults := .none

private theorem disagree_of_gap {headers : JsonMap} (gap : InGap headers) :
    ¬ HeaderLimitsAgree headers := by
  intro agree
  have passes := agree.accepted gap.1 (callWith headers) [] rfl
  rw [headersSize_holds rfl] at passes
  exact Nat.not_le_of_lt gap.jsonb passes

/-- Exactly when the two limits agree: unless the spaces that `jsonb::text` puts after the
separators, and the numbers that it prints in full, carry an accepted map over the limit. -/
theorem header_limits_agree_iff (headers : JsonMap) :
    HeaderLimitsAgree headers ↔ ¬ InGap headers := by
  constructor
  · intro agree gap
    exact disagree_of_gap gap agree
  · intro clear
    refine ⟨?_, ?_, fun c db => dispatch_headers clear⟩
    · intro small c payload given
      by_contra refused
      have large := oversized_of_refused clear given (Bool.eq_false_iff.mpr refused)
      rw [headersText, given] at large
      omega
    · intro c payload given refused handlerIds db
      exact insertStep_oversized (oversized_of_refused clear given refused) payload handlerIds db

private theorem longHeader_castable (n : ℕ) : castable (.object (longHeader n)) = true := by
  have letters : storable (String.ofList (List.replicate n 'a')) = true := by
    simp only [storable, String.toList_ofList, Bool.not_eq_true', List.contains_eq_mem,
      List.mem_replicate, decide_eq_false_iff_not, not_and]
    exact fun _ => by decide
  simp only [longHeader, castable, castableFields, letters, Bool.and_true]
  decide

private theorem longHeader_gap {n : ℕ} (limit : n + 12 = maxHeadersBytes) : InGap
    (longHeader n) := by
  have colon : separators (.object (longHeader n)) = 1 := rfl
  rw [inGap_of_alike rfl, longHeader_bytes, colon]
  omega

private theorem gap_dispatch {headers : JsonMap} (gap : InGap headers)
    (cast : castable (.object headers) = true) :
    (dispatch (callWith headers) Database.empty).2 = .error (.constraint headersViolation) := by
  have refused :
      EventCheck.headersSize.holds (eventRow (callWith headers) [123, 125]) = false := by
    rw [← Bool.not_eq_true, headersSize_holds rfl]
    exact Nat.not_le_of_lt gap.jsonb
  have violates : (eventRow (callWith headers) [123, 125]).violated =
      some "events_headers_size" := by
    simp only [EventRow.violated, violated, eventChecks, List.find?_cons, refused]
    rfl
  have stored : Database.empty.insertEvent (eventRow (callWith headers) [123, 125]) =
      .error headersViolation := by
    simp only [Database.insertEvent, violates]
    rfl
  have statement : insertStatement (callWith headers) [123, 125] ["mailer"] Database.empty =
      .error headersViolation := by
    have texts : ["order.created", "orders", "t1", "mailer"].all storable = true := by decide
    have bound : (["order.created", "orders", "t1", "mailer"].all storable &&
        castable (.object headers)) = true := by rw [texts, cast]; rfl
    exact (if_pos bound).trans (by rw [stored])
  have stops : insertStep (callWith headers) [123, 125] ["mailer"] Database.empty =
      (Database.empty, .returned (.error (.ofSqlx headersViolation))) := by
    have small : ¬ maxHeadersBytes < len (compactText (.object headers)) :=
      Nat.not_lt_of_le gap.1
    exact (if_neg small).trans (by simp only [callWith, Faults.none] at statement ⊢; rw [statement])
  have reserved : reserveStep (callWith headers) Database.empty =
      (Database.empty, .inserting [123, 125] ["mailer"]) := rfl
  simp only [dispatch, reserved, stops]
  rfl

/-- A header of 16384 bytes passes step 6 and is refused by the CHECK. -/
theorem limit_header_violates_check : ¬ HeaderLimitsAgree (longHeader 16372) ∧
    (dispatch (callWith (longHeader 16372)) Database.empty).2 =
      .error (.constraint headersViolation) := by
  have gap : InGap (longHeader 16372) := longHeader_gap rfl
  exact ⟨disagree_of_gap gap, gap_dispatch gap (longHeader_castable 16372)⟩

end RustEvents.Dispatch.HeaderLimits
