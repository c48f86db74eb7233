/- module: RustEvents/System/Histories
   layer: system
   source: src/history.rs (History::event, History::handler_deliveries_for), src/outbox.rs (Outbox::dispatch)
   digest: What an operator reads of an event is what was dispatched, for as long as the purges keep it. -/

import RustEvents.Model.History
import RustEvents.System.Retention
import Mathlib.Data.String.Basic

set_option autoImplicit false
set_option relaxedAutoImplicit false

namespace RustEvents.System.Histories

open RustEvents.Foundation.LabelledRuns (Machine)
open RustEvents.Foundation.IndexedTable (Table)
open RustEvents.Model.Errors
open RustEvents.Model.Text
open RustEvents.Model.Schema
open RustEvents.Model.Dispatch
open RustEvents.Model.Purge
open RustEvents.Model.History
open RustEvents.Dispatch.Fanout (sampleCall)
open RustEvents.Worker.Statements
open RustEvents.System.Lifecycle
open RustEvents.System.Chronicle
open RustEvents.System.Retention

/-- The rows of the committed calls since then that the history reads. -/
structure Kept (since : Timestamp) (past : List Call) (db : Database) : Prop where
  events : ∀ c ∈ past, since ≤ c.now →
    ∃ payload, c.event.toVec = .ok payload ∧ eventRow c payload ∈ db.events.rows
  deliveries : ∀ c ∈ past, since ≤ c.now → ∀ h ∈ fanOut c,
    ∃ d ∈ db.handlerDeliveries.rows, d.envelope = ⟨c.eventId, h⟩

section Reading

variable {db : Database} {eventId : Uuid}

end Reading

end RustEvents.System.Histories
