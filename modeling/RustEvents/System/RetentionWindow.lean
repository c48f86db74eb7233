/- module: RustEvents/System/RetentionWindow
   layer: system
   source: src/outbox.rs (dispatch step 5), src/purge.rs (purge_dispatch_keys, purge_events)
   digest: As long as no purge reaches back to a dispatch, its key stands for one event. -/

import RustEvents.System.KeyRetention
import RustEvents.System.Retention

set_option autoImplicit false
set_option relaxedAutoImplicit false

namespace RustEvents.System.RetentionWindow

open RustEvents.Foundation.LabelledRuns (Machine)
open RustEvents.Model.Schema
open RustEvents.Model.Dispatch
open RustEvents.Model.Purge
open RustEvents.Dispatch.Effects
open RustEvents.Dispatch.Fanout (sampleCall)
open RustEvents.System.Lifecycle
open RustEvents.System.Chronicle
open RustEvents.System.Retention
open RustEvents.System.KeyRetention
  (Holds dispatch_held dispatch_reserves keyedEvents_held)

/-- The purges that remove key rows; those of events take them along. -/
def takesKeys : PurgeKind → Bool
  | .terminalDeliveries => false
  | .dispatchKeys | .events => true

/-- Every key of a call since then stands for the event of that call alone: also when a
transaction first makes the calls `before`, and with the keys that these gave out. -/
structure OncePerKey (since : Timestamp) (past : List Call) (s : SystemState) : Prop where
  once : past.Pairwise fun c c' => ∀ key, c.key = some key → c'.key = some key → c.now < since
  answered : ∀ before, ∀ c ∈ past ++ creations before s.db, ∀ key, c.key = some key →
    since ≤ c.now → ∀ (d : Call) (outcome : DispatchOutcome), d.key = some key →
      (dispatch d (dispatchAll before s.db).1).2 = .ok outcome → outcome = .duplicate c.eventId

/-- The same facts of the tables: the key rows of these calls are in place. -/
structure Window (since : Timestamp) (past : List Call) (db : Database) : Prop where
  held : ∀ c ∈ past, since ≤ c.now → ∀ k, keyRow c = some k → k ∈ db.dispatchKeys.rows
  once : past.Pairwise fun c c' => ∀ key, c.key = some key → c'.key = some key → c.now < since

private theorem creations_keyed {cs : List Call} {db : Database} {c : Call} {key : String × String}
    (mem : c ∈ creations cs db) (keyed : c.key = some key) :
    (c.eventId, key) ∈ keyedEvents cs db := by
  induction cs generalizing db with
  | nil => cases mem
  | cons c' cs ih =>
    rcases List.mem_append.mp mem with here | later
    · cases result : (dispatch c' db).2 with
      | error e =>
        rw [result] at here
        cases here
      | ok outcome =>
        rw [result] at here
        dsimp only at here
        split at here
        · next creates =>
          cases List.mem_singleton.mp here
          refine List.mem_append_left _ ?_
          rw [result, keyed]
          dsimp only
          rw [if_pos creates, (dispatch_reserves keyed result creates).1]
          exact List.mem_singleton_self _
        · cases here
    · exact List.mem_append_right _ (ih later)

private theorem keyRow_of_key {c : Call} {key : String × String} (keyed : c.key = some key) :
    ∃ k, keyRow c = some k ∧ k.key = key ∧ k.eventId = c.eventId := by
  obtain ⟨text, given, rfl⟩ := Option.map_eq_some_iff.mp keyed
  exact ⟨⟨c.ctx.tenantId, text, c.eventId, c.now⟩, by rw [keyRow, given]; rfl, rfl, rfl⟩

namespace Window

variable {since : Timestamp} {past : List Call} {db db' : Database}

private theorem holds (window : Window since past db) {c : Call} (mem : c ∈ past)
    (recent : since ≤ c.now) {key : String × String} (keyed : c.key = some key) :
    Holds db c.eventId key := by
  obtain ⟨k, row, same, ids⟩ := keyRow_of_key keyed
  exact ⟨k, window.held c mem recent k row, same, ids⟩

private theorem persists (window : Window since past db) {c : Call} {payload : Bytes}
    {outcome : DispatchOutcome} (ok : (dispatch c db).2 = .ok outcome)
    (creates : outcome.creates = true) (adds : Persists c payload db db') :
    Window since (past ++ [c]) db' := by
  -- A call that persists its event found its key free, and leaves its row behind.
  constructor
  · intro c' mem recent k row
    rw [adds.keys]
    rcases List.mem_append.mp mem with old | new
    · exact List.mem_append_left _ (window.held c' old recent k row)
    · cases List.mem_singleton.mp new
      exact List.mem_append_right _ (Option.mem_toList.mpr row)
  · rw [List.pairwise_append]
    refine ⟨window.once, List.pairwise_singleton _ c, ?_⟩
    intro c' old last new key keyed keyed'
    cases List.mem_singleton.mp new
    by_contra late
    have duplicate := dispatch_held (window.holds old (Int.not_lt.mp late) keyed) keyed' ok
    rw [duplicate] at creates
    cases creates

private theorem dispatchAll {cs : List Call} (window : Window since past db)
    (ok : (dispatchAll cs db).2.all Except.isOk = true) :
    Window since (past ++ creations cs db) (dispatchAll cs db).1 :=
  creations_tracked (fun _ _ _ _ _ window ok creates adds => window.persists ok creates adds)
    window ok

end Window

private theorem window_step {since : Timestamp} {past : List Call} {s t : SystemState}
    {a : SystemLabel} (inv : Observes since takesKeys past s) (window : Window since past s.db)
    (taken : system.step s a = some t) : Window since (past ++ persisted s a t) t.db := by
  -- One step of the system: the purges leave the keys of the past, a commit adds its own.
  have quiet : Window since (past ++ []) t.db := by
    rw [List.append_nil]
    refine ⟨?_, window.once⟩
    intro c mem recent k row
    exact key_stays inv rfl rfl taken mem recent row (window.held c mem recent k row)
  cases systemStep_sound taken with
  | transact tx nodup fresh =>
    change Window since (past ++ if commitsOn tx s.db then creations tx.calls s.db else [])
      (tx.execute s.db)
    by_cases commits : commitsOn tx s.db = true
    · rw [execute_eq, if_pos commits, if_pos commits]
      exact window.dispatchAll (commitsOn_ok commits)
    · rw [if_neg commits]
      exact quiet
  | work a w step => exact quiet
  | purge kind cutoff => exact quiet
  | select p victims call found kind chosen => exact quiet
  | delete p reply call victims found phase => exact quiet

/-- Within the retention a key stands for one event: in every run whose purges of keys and
events never reach past `since`, two committed calls under one key create two events only if
the first was made before `since`; and whoever calls again with the key of a later one is
answered with the event of that one, in whatever place of a transaction the call stands. -/
theorem key_stands_for_one_event {since : Timestamp} {as : List SystemLabel} {s : SystemState}
    (reached : system.run SystemState.start as = some s)
    (retained : as.all (keepsSince since takesKeys) = true) :
    OncePerKey since (chronicle as) s := by
  have keeps : Observes since takesKeys (chronicle as) s ∧ Window since (chronicle as) s.db := by
    refine Machine.record_invariant_all
      (I := fun past s => Observes since takesKeys past s ∧ Window since past s.db)
      (keepsSince since takesKeys) ?_ ⟨observes_start since takesKeys, ?_⟩ retained reached
    · rintro past s a t ⟨inv, window⟩ allowed taken
      exact ⟨observes_step inv allowed taken, window_step inv window taken⟩
    · refine ⟨?_, List.Pairwise.nil⟩
      intro c mem
      cases mem
  refine ⟨keeps.2.once, ?_⟩
  intro before c mem key keyed recent d outcome same ok
  have held : Holds (dispatchAll before s.db).1 c.eventId key := by
    rcases List.mem_append.mp mem with earlier | here
    · exact (keeps.2.holds earlier recent keyed).grows (grows_dispatchAll before s.db)
    · exact (keyedEvents_held (creations_keyed here keyed)).2
  exact dispatch_held held same ok

/-- A key is purged around: the purge selects nothing, and the second call is a duplicate. -/
def purgedAround : List SystemLabel :=
  [.transact ⟨[sampleCall "order.created" (some "order:42") 1#128], true⟩,
   .purge .dispatchKeys 0, .select 0 (.dispatchKeys []), .delete 0 .answered,
   .transact ⟨[sampleCall "order.created" (some "order:42") 2#128], true⟩]

theorem key_stands_for_one_event_purged :
    ∃ s, system.run SystemState.start purgedAround = some s ∧
      OncePerKey 0 (chronicle purgedAround) s ∧
      (chronicle purgedAround).map Call.eventId = [1#128] := by
  have runs : (system.run SystemState.start purgedAround).isSome = true := by decide
  obtain ⟨s, reached⟩ := Option.isSome_iff_exists.mp runs
  exact ⟨s, reached, key_stands_for_one_event reached (by decide), by decide⟩

end RustEvents.System.RetentionWindow
