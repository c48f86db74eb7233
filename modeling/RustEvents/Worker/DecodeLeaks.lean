/- module: RustEvents/Worker/DecodeLeaks
   layer: model facts
   source: src/registry.rs (HandlerOutcome::DecodeFailed), src/runtime.rs (steps 6 and 7)
   digest: A decode failure reports the value it found: two failures read alike only as far as their values print alike. -/

import RustEvents.Model.Serde
import RustEvents.Worker.Rows
import RustEvents.Worker.Verdicts

set_option autoImplicit false
set_option relaxedAutoImplicit false

namespace RustEvents.Worker.DecodeLeaks

open RustEvents.Model.Text
open RustEvents.Model.Errors
open RustEvents.Model.Serde
open RustEvents.Model.Schema
open RustEvents.Model.Builder
open RustEvents.Model.Runtime
open RustEvents.Worker.Statements
open RustEvents.Worker.Reasons
open RustEvents.Worker.Rows
open RustEvents.Worker.Superseded (sampleEnv sampleEvent sampleDatabase sampleContext)
open RustEvents.Worker.Verdicts

/-- What a call reports of its failure: the `last_error` of the row and the verdict. -/
def report (env : HandlerEnvelope) (result : Database × Verdict) : Option String × Verdict :=
  ((result.1.delivery? env).bind HandlerDelivery.lastError, result.2)

/-- The text in front of the found value, and the room that it leaves. -/
def mismatchHead (eventType : String) : String := "decode " ++ eventType ++ ": " ++ "invalid type: "

def roomFor (eventType : String) : ℕ :=
  maxLastErrorBytes - len (sanitizeReason (mismatchHead eventType))

section Texts

variable {d e : String}

private theorem eq_of_fits (free : ∀ x y, d.toList ++ x = e.toList ++ y → d = e) {room : ℕ}
    (fits : len d ≤ room) {tail : String}
    (same : truncateUtf8 (d ++ tail) room = truncateUtf8 (e ++ tail) room) : d = e := by
  obtain ⟨rest, whole, -, -⟩ := truncateUtf8_split (e ++ tail) room
  rw [← same, truncateUtf8_append_short fits, String.append_assoc] at whole
  have texts := congrArg String.toList whole
  rw [String.toList_append, String.toList_append] at texts
  exact free _ _ texts.symm

private theorem truncated_agree_iff (free : ∀ x y, d.toList ++ x = e.toList ++ y → d = e)
    (tail : String) (room : ℕ) : truncateUtf8 (d ++ tail) room = truncateUtf8 (e ++ tail) room ↔
      truncateUtf8 d room = truncateUtf8 e room := by
  -- A common tail cannot make two texts agree that differ within the room.
  have back : ∀ x y, e.toList ++ x = d.toList ++ y → e = d :=
    fun x y same => (free y x same.symm).symm
  by_cases fits : len d ≤ room
  · constructor
    · intro same
      rw [eq_of_fits free fits same]
    · intro same
      have bare : truncateUtf8 (d ++ "") room = truncateUtf8 (e ++ "") room := by
        simpa only [String.append_empty] using same
      rw [eq_of_fits free fits bare]
  by_cases fits' : len e ≤ room
  · constructor
    · intro same
      rw [eq_of_fits back fits' same.symm]
    · intro same
      have bare : truncateUtf8 (e ++ "") room = truncateUtf8 (d ++ "") room := by
        simpa only [String.append_empty] using same.symm
      rw [eq_of_fits back fits' bare]
  rw [truncateUtf8_append_long (Nat.lt_of_not_le fits),
    truncateUtf8_append_long (Nat.lt_of_not_le fits')]

private theorem trimmed_agree_iff (free : ∀ x y, d.toList ++ x = e.toList ++ y → d = e)
    (plain : clean d = true) (plain' : clean e = true) (head tail : String) :
    trimmedReason (head ++ (d ++ tail)) = trimmedReason (head ++ (e ++ tail)) ↔
      truncateUtf8 d (maxLastErrorBytes - len (sanitizeReason head)) =
        truncateUtf8 e (maxLastErrorBytes - len (sanitizeReason head)) := by
  simp only [trimmedReason, sanitizeReason_append, sanitizeReason_of_clean plain,
    sanitizeReason_of_clean plain']
  by_cases fits : len (sanitizeReason head) ≤ maxLastErrorBytes
  · rw [truncateUtf8_append_short fits, truncateUtf8_append_short fits, String.append_right_inj,
      truncated_agree_iff free]
  · have full : maxLastErrorBytes - len (sanitizeReason head) = 0 := by omega
    rw [truncateUtf8_append_long (Nat.lt_of_not_le fits),
      truncateUtf8_append_long (Nat.lt_of_not_le fits), full, truncateUtf8_zero, truncateUtf8_zero]
    exact iff_of_true rfl rfl

end Texts

private theorem display_free (table : PrintTable) (a b : Unexpected) (x y : List Char)
    (same : (a.display table).toList ++ x = (b.display table).toList ++ y) :
    a.display table = b.display table := by
  simp only [Unexpected.display, String.toList_ofList] at same
  exact congrArg String.ofList (chars_prefixFree table a b x y same)

private theorem display_clean (table : PrintTable) (found : Unexpected) :
    clean (found.display table) = true := by
  simp only [clean, Unexpected.display, String.toList_ofList, List.all_eq_true, Bool.not_eq_true']
  exact fun c mem => chars_plain mem

/-- The verdict on a decode failure, by strategy. -/
def decodeVerdict (strategy : DecodeStrategy) (text : String) : JobError :=
  match strategy with
  | .retry => .retry text none
  | .abort => .abort text

private theorem report_decode {others : Database → Database} {rt : OutboxRuntime}
    {env : HandlerEnvelope}
    {ctx : JobContext} {out : Surroundings} {db db' : Database} {row : ClaimRow} {reason : String}
    (claims : Claims env ctx out db db' row)
    (fails : ending rt env ctx out.world row = some (.returned (.decodeFailed reason)))
    (marks : Marks env ctx out (others db')
      (decided rt ctx (ending rt env ctx out.world row)).1) :
    report env (handleEnvelopeAmid others rt env ctx out db) = (some (trimmedReason reason),
      some (decodeVerdict rt.config.decodeErrorStrategy (trimmedReason reason))) := by
  obtain ⟨r, -, stored, verdict⟩ := finishMark_marks marks
    (decided rt ctx (ending rt env ctx out.world row)).2
  have parts : markText (decided rt ctx (ending rt env ctx out.world row)).1 =
      some (trimmedReason reason) ∧ (decided rt ctx (ending rt env ctx out.world row)).2 =
      some (decodeVerdict rt.config.decodeErrorStrategy (trimmedReason reason)) := by
    rw [fails]
    simp only [decided, afterHandler, caughtOutcome]
    cases rt.config.decodeErrorStrategy with
    | retry =>
      refine ⟨?_, rfl⟩
      simp only [translated, terminalTransition]
      split <;> rfl
    | abort => exact ⟨rfl, rfl⟩
  rw [report, handle_claimed claims, stored, verdict, Option.bind_some, set_lastError, parts.1,
    parts.2]

private theorem ending_mismatch {E : Type} {h : TypedHandler E} {rt : OutboxRuntime}
    {env : HandlerEnvelope} {registered : RegisteredHandler} {table : PrintTable}
    {found : Unexpected} {expected : String} {line column : ℕ} {row : ClaimRow}
    (lookup : rt.registry.lookup env.handlerId = some registered)
    (typed : registered.handler = h.erase)
    (fails : h.fromSlice row.payload = .error (typeMismatch table found expected line column))
    (ctx : JobContext) (world : World) :
    ending rt env ctx world row = some (.returned (.decodeFailed (mismatchHead h.eventType ++
      (found.display table ++ mismatchTail expected line column)))) := by
  simp only [ending, lookup, Option.map_some, typed, TypedHandler.erase, fails, typeMismatch,
    mismatchHead, String.append_assoc]

/-- Two calls that fail to decode at the same place report the same exactly when the values
they found print alike within the room that the text in front leaves. -/
theorem decode_reports_agree_iff {E : Type} {h : TypedHandler E} {rt : OutboxRuntime}
    {env : HandlerEnvelope} {registered : RegisteredHandler} {table : PrintTable}
    {found found' : Unexpected} {expected : String} {line column : ℕ} {ctx : JobContext}
    {out : Surroundings} {others others' : Database → Database} {db db' next next' : Database}
    {row row' : ClaimRow} (lookup : rt.registry.lookup env.handlerId = some registered)
    (typed : registered.handler = h.erase)
    (claims : Claims env ctx out db next row) (claims' : Claims env ctx out db' next' row')
    (fails : h.fromSlice row.payload = .error (typeMismatch table found expected line column))
    (fails' : h.fromSlice row'.payload = .error (typeMismatch table found' expected line column))
    (marks : Marks env ctx out (others next)
      (decided rt ctx (ending rt env ctx out.world row)).1)
    (marks' : Marks env ctx out (others' next')
      (decided rt ctx (ending rt env ctx out.world row')).1) :
    report env (handleEnvelopeAmid others rt env ctx out db) =
        report env (handleEnvelopeAmid others' rt env ctx out db') ↔
      truncateUtf8 (found.display table) (roomFor h.eventType) =
        truncateUtf8 (found'.display table) (roomFor h.eventType) := by
  have ends := ending_mismatch lookup typed fails ctx out.world
  have ends' := ending_mismatch lookup typed fails' ctx out.world
  rw [report_decode claims ends marks, report_decode claims' ends' marks', roomFor,
    ← trimmed_agree_iff (display_free table found found') (display_clean table found)
      (display_clean table found')]
  constructor
  · intro same
    exact Option.some.inj (congrArg Prod.fst same)
  · intro same
    rw [same]

/-- `serde_json::from_slice` for an event that is a number, as far as the samples below need
it: a string of two letters is a type mismatch behind its closing quote. -/
def numberFromSlice : Bytes → Except SerdeError ℤ
  | [0x22, a, b, 0x22] => .error (typeMismatch asciiTable
      (.string (String.ofList [Char.ofNat a.toNat, Char.ofNat b.toNat])) "i32" 1 4)
  | _ => .ok 0

def numberHandler : TypedHandler ℤ where
  eventType := "order.created"
  fromSlice := numberFromSlice
  handle _ _ _ := .returned (.ok ())

def numberRuntime : OutboxRuntime where
  config := OutboxConfig.default
  registry := Registry.new.add ⟨"order.created", "mailer", numberHandler.erase, none, none⟩

private theorem event_of_payload (payload : Bytes) :
    ∀ d ∈ [Database.queuedRow 0 1#128 0 "mailer"],
      ∃ e ∈ [{ sampleEvent with payload := payload }], e.id = d.eventId := by
  intro d stored
  exact ⟨_, List.mem_singleton_self _, by rw [List.mem_singleton.mp stored]; rfl⟩

/-- One queued delivery of an event with the given payload. -/
def payloadDatabase (payload : Bytes) : Database where
  events := ⟨[{ sampleEvent with payload := payload }], by simp⟩
  dispatchKeys := .empty
  handlerDeliveries := sampleDatabase.handlerDeliveries
  nextDeliveryId := 1
  jobs := [⟨sampleEnv, none⟩]
  deliveryEvent := event_of_payload payload
  deliveryIds := sampleDatabase.deliveryIds

/-- The payloads `"ab"` and `"xy"`. -/
def firstPayload : Bytes := [0x22, 97, 98, 0x22]

def secondPayload : Bytes := [0x22, 120, 121, 0x22]

def numberCall (payload : Bytes) : Database × Verdict :=
  handleEnvelopeAmid id numberRuntime sampleEnv (sampleContext 1 101#128) sampleSurroundings
    (payloadDatabase payload)

private theorem number_call_reaches (payload : Bytes) :
    ∃ next row, row.payload = payload ∧
      Claims sampleEnv (sampleContext 1 101#128) sampleSurroundings (payloadDatabase payload) next
        row ∧
      Marks sampleEnv (sampleContext 1 101#128) sampleSurroundings (id next)
        (decided numberRuntime (sampleContext 1 101#128)
          (ending numberRuntime sampleEnv (sampleContext 1 101#128) 0 row)).1 := by
  have rows : SoundRows (payloadDatabase payload) := by
    intro r mem
    rw [List.mem_singleton.mp mem]
    exact sound_queued (by decide) (by decide)
  have found : (payloadDatabase payload).delivery? sampleEnv =
      some (Database.queuedRow 0 1#128 0 "mailer") := rfl
  have onTime : (0 : Timestamp) ≤ 1 ∧ (1 : Timestamp) ≤ 2 := by decide
  obtain ⟨next, row, done, -, updated, sound⟩ :=
    claim_succeeds rows found onTime.1 (sampleContext 1 101#128)
  have stamped : next.delivery? sampleEnv =
      some ((claimSet 1 101#128 1).apply (Database.queuedRow 0 1#128 0 "mailer")) := by
    rw [claim_delivery done, if_pos rfl, found]
    rfl
  have own : row.payload = payload := by
    rcases claim_cases done with ⟨missing, -⟩ | ⟨r, -, -, -, selected⟩ | ⟨r, -, -, -, selected⟩
    · cases found.symm.trans missing
    · cases Option.some.inj selected
      rfl
    · cases Option.some.inj selected
      rfl
  obtain ⟨after, n, marked, -⟩ := mark_succeeds sound stamped onTime.2
    (decided numberRuntime (sampleContext 1 101#128)
      (ending numberRuntime sampleEnv (sampleContext 1 101#128) 0 row)).1 101#128
  exact ⟨next, row, own, ⟨rfl, done, updated⟩,
    ⟨rfl, ⟨after, n, marked⟩, by rw [id, stamped]; rfl⟩⟩

/-- The text that a payload of two letters leaves. -/
def lettersText (letters : String) : String :=
  trimmedReason (mismatchHead "order.created" ++
    ((Unexpected.string letters).display asciiTable ++ mismatchTail "i32" 1 4))

private theorem number_report {payload : Bytes} {letters : String}
    (fails : numberFromSlice payload =
      .error (typeMismatch asciiTable (.string letters) "i32" 1 4)) :
    report sampleEnv (numberCall payload) =
      (some (lettersText letters), some (.retry (lettersText letters) none)) := by
  obtain ⟨next, row, own, claims, marks⟩ := number_call_reaches payload
  have fails' : numberHandler.fromSlice row.payload =
      .error (typeMismatch asciiTable (.string letters) "i32" 1 4) := by
    rw [own]
    exact fails
  have lookup : numberRuntime.registry.lookup sampleEnv.handlerId =
      some ⟨numberHandler.erase, none, none⟩ := rfl
  exact report_decode claims (ending_mismatch lookup rfl fails' _ _) marks

theorem decode_reports_agree_iff_letters :
    report sampleEnv (numberCall firstPayload) ≠ report sampleEnv (numberCall secondPayload) := by
  obtain ⟨next, row, own, claims, marks⟩ := number_call_reaches firstPayload
  obtain ⟨next', row', own', claims', marks'⟩ := number_call_reaches secondPayload
  have fails : numberHandler.fromSlice row.payload =
      .error (typeMismatch asciiTable (.string "ab") "i32" 1 4) := by
    rw [own]
    rfl
  have fails' : numberHandler.fromSlice row'.payload =
      .error (typeMismatch asciiTable (.string "xy") "i32" 1 4) := by
    rw [own']
    rfl
  have differ : truncateUtf8 ((Unexpected.string "ab").display asciiTable)
        (roomFor numberHandler.eventType) ≠
      truncateUtf8 ((Unexpected.string "xy").display asciiTable)
        (roomFor numberHandler.eventType) := by decide
  exact (decode_reports_agree_iff rfl rfl claims claims' fails fails' marks marks').not.mpr differ

/-- Two payloads that fail at the same place for the same expected type, reported apart. -/
theorem decode_failure_leaks_value :
    (∃ found, numberFromSlice firstPayload = .error (typeMismatch asciiTable found "i32" 1 4)) ∧
    (∃ found, numberFromSlice secondPayload = .error (typeMismatch asciiTable found "i32" 1 4)) ∧
    (report sampleEnv (numberCall firstPayload)).1 = some
      "decode order.created: invalid type: string \"ab\", expected i32 at line 1 column 4" ∧
    report sampleEnv (numberCall firstPayload) ≠ report sampleEnv (numberCall secondPayload) := by
  have first : lettersText "ab" =
      "decode order.created: invalid type: string \"ab\", expected i32 at line 1 column 4" := by
    decide +kernel
  have second : lettersText "xy" =
      "decode order.created: invalid type: string \"xy\", expected i32 at line 1 column 4" := by
    decide +kernel
  have fails : numberFromSlice firstPayload =
      .error (typeMismatch asciiTable (.string "ab") "i32" 1 4) := rfl
  have fails' : numberFromSlice secondPayload =
      .error (typeMismatch asciiTable (.string "xy") "i32" 1 4) := rfl
  rw [number_report fails, number_report fails', first, second]
  exact ⟨⟨_, fails⟩, ⟨_, fails'⟩, rfl, by decide⟩

end RustEvents.Worker.DecodeLeaks
