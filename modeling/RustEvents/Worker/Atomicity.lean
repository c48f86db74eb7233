/- module: RustEvents/Worker/Atomicity
   layer: refinement
   source: src/runtime.rs (handle_envelope), README.md (Fencing tokens)
   digest: Calls of handle_envelope whose attempts do not overlap are atomic: rows and verdicts are those of whole calls, one after another. -/

import RustEvents.Foundation.Records
import RustEvents.Worker.Independence

set_option autoImplicit false
set_option relaxedAutoImplicit false

namespace RustEvents.Worker.Atomicity

open RustEvents.Foundation.LabelledRuns
open RustEvents.Model.Errors
open RustEvents.Model.Schema
open RustEvents.Model.Builder
open RustEvents.Model.Runtime
open RustEvents.Worker.Statements
open RustEvents.Worker.Steps
open RustEvents.Worker.Superseded (sampleEnv sampleRuntime sampleContext)
open RustEvents.Worker.Independence

/-- A call between its claim and its mark, in a process that has not crashed. -/
def inFlight (inv : Invocation) : Bool :=
  inv.alive &&
    match inv.phase with
    | .claimed (.invoking _ _ _) => true
    | .claimed (.marking _ _) => true
    | _ => false

def occupied (s : WorkerState) (env : HandlerEnvelope) : Bool :=
  s.invocations.any fun inv => inv.env = env && inFlight inv

/-- Attempts of one delivery do not overlap: none claims while another is in flight. -/
def oneAtATime (s : WorkerState) : WorkerLabel → Bool
  | .claim i _ _ => (s.invocations[i]?).all fun inv => !occupied s inv.env
  | _ => true

def orderlyWorker : Machine WorkerState WorkerLabel := worker.restrict oneAtATime

/-- A call that has ended, with all that its surroundings answered. A call that is not `whole`
crashed after its claim. -/
structure Attempt where
  number : ℕ
  runtime : OutboxRuntime
  env : HandlerEnvelope
  ctx : JobContext
  out : Surroundings
  whole : Bool

/-- The tables after the claim of a call that runs alone. -/
def Attempt.claim (a : Attempt) (db : Database) : Database :=
  a.out.claimReply.after db (claimStatement a.env a.ctx a.out.claimNow)

/-- One call alone on the tables: all of `handle_envelope`, or what a crash leaves of it. -/
def Attempt.execute (a : Attempt) (db : Database) : Database × Option Verdict :=
  if a.whole then
    let done := handleEnvelope a.runtime a.env a.ctx a.out db
    (done.1, some done.2)
  else (a.claim db, none)

/-- Calls one after another, and what each of them returned. -/
def serially : List Attempt → Database → Database × List (ℕ × Option Verdict)
  | [], db => (db, [])
  | a :: rest, db =>
    let done := a.execute db
    let later := serially rest done.1
    (later.1, (a.number, done.2) :: later.2)

/-- What the surroundings answer to invocation `i` in a run. -/
def noted (i : ℕ) : List WorkerLabel → Surroundings
  | [] => ⟨0, .answered, 0, 0, .answered⟩
  | .claim j now reply :: as =>
    if j = i then { noted i as with claimNow := now, claimReply := reply } else noted i as
  | .handler j world :: as => if j = i then { noted i as with world := world } else noted i as
  | .mark j now reply :: as =>
    if j = i then { noted i as with markNow := now, markReply := reply } else noted i as
  | .handOut _ _ _ :: as => noted i as
  | .crash _ :: as => noted i as

def attempt (out : ℕ → Surroundings) (i : ℕ) (inv : Invocation) (whole : Bool) : Attempt :=
  ⟨i, inv.runtime, inv.env, inv.ctx, out i, whole⟩

/-- The whole call that invocation `i` is once it has returned. -/
def returnedCall (out : ℕ → Surroundings) (i : ℕ) (inv : Invocation) : List Attempt :=
  match inv.phase with
  | .claimed (.returned _) => [attempt out i inv true]
  | _ => []

/-- The call that a step ends. -/
def ends (out : ℕ → Surroundings) (s : WorkerState) : WorkerLabel → WorkerState → List Attempt
  | .claim i _ _, t => (t.invocations[i]?).elim [] (returnedCall out i)
  | .mark i _ _, t => (t.invocations[i]?).elim [] (returnedCall out i)
  | .crash i, _ => (s.invocations[i]?).elim [] fun inv =>
      if inFlight inv then [attempt out i inv false] else []
  | _, _ => []

/-- The ended calls of a run, in the order in which they ended. -/
def finished (db : Database) (as : List WorkerLabel) : List Attempt :=
  orderlyWorker.record (ends fun i => noted i as) (.start db) as

/-- The run and its ended calls, executed alone in the order of their ends, agree: on every
row without a call in flight, on the row of a call in flight up to its claim, and on what every
call returned. -/
structure Atomic (db : Database) (as : List WorkerLabel) (s : WorkerState) : Prop where
  once : ((finished db as).map Attempt.number).Nodup
  order : ∀ front back, as = front ++ back →
    (finished db front).map Attempt.number <+: (finished db as).map Attempt.number
  frame : SameFrame (serially (finished db as) db).1 s.db
  rows : ∀ env, occupied s env = false →
    (serially (finished db as) db).1.delivery? env = s.db.delivery? env
  claimed : ∀ i inv, s.invocations[i]? = some inv → inFlight inv = true →
    ((attempt (fun i => noted i as) i inv false).execute
      (serially (finished db as) db).1).1.delivery? inv.env = s.db.delivery? inv.env
  verdicts : ∀ i verdict, (i, some verdict) ∈ (serially (finished db as) db).2 ↔
    ∃ inv, s.invocations[i]? = some inv ∧ inv.phase = .claimed (.returned verdict)

section Alone

variable {db db' : Database} {env : HandlerEnvelope}

private theorem sameFrame_trans {db'' : Database} (first : SameFrame db db')
    (second : SameFrame db' db'') : SameFrame db db'' where
  events := second.events.trans first.events
  dispatchKeys := second.dispatchKeys.trans first.dispatchKeys
  jobs := second.jobs.trans first.jobs
  nextDeliveryId := second.nextDeliveryId.trans first.nextDeliveryId

/-- What one call may do to the tables: rewrite its own delivery row. -/
structure Within (env : HandlerEnvelope) (db db' : Database) : Prop where
  frame : SameFrame db db'
  rows : ∀ other, other ≠ env → db'.delivery? other = db.delivery? other

private theorem within_refl (env : HandlerEnvelope) (db : Database) : Within env db db :=
  ⟨.refl db, fun _ _ => rfl⟩

private theorem within_trans {db'' : Database} (first : Within env db db')
    (second : Within env db' db'') : Within env db db'' where
  frame := sameFrame_trans first.frame second.frame
  rows other differs := (second.rows other differs).trans (first.rows other differs)

private theorem within_alike (within : Within env db db') {other : HandlerEnvelope}
    (differs : other ≠ env) : Alike other db db' :=
  ⟨within.rows other differs, within.frame.events, within.frame.dispatchKeys⟩

private theorem claim_within (env : HandlerEnvelope) (ctx : JobContext) (now : Timestamp)
    (reply : Reply)
    (db : Database) : Within env db (reply.after db (claimStatement env ctx now)) := by
  cases done : reply.effect db (claimStatement env ctx now) with
  | none =>
    rw [after_of_none done]
    exact within_refl env db
  | some result =>
    have executed := effect_some done
    rw [after_of_effect done]
    refine ⟨claim_frame executed, ?_⟩
    intro other differs
    rw [claim_delivery executed, if_neg differs]

private theorem mark_within (env : HandlerEnvelope) (token : Uuid) (now : Timestamp) (mark : Mark)
    (reply : Reply) (db : Database) :
    Within env db (reply.after db (mark.statement env token now)) := by
  cases done : reply.effect db (mark.statement env token now) with
  | none =>
    rw [after_of_none done]
    exact within_refl env db
  | some result =>
    have executed := effect_some done
    rw [after_of_effect done]
    refine ⟨mark_frame executed, ?_⟩
    intro other differs
    rw [mark_delivery executed, if_neg differs]

/-- Where a call stands after its claim, alone on the tables. -/
def Attempt.progress (a : Attempt) (db : Database) : Progress :=
  afterClaim a.runtime a.env a.ctx
    (a.out.claimReply.answer db (claimStatement a.env a.ctx a.out.claimNow))

/-- The same once its handler, if it has one to call, has ended. -/
def Attempt.resolved (a : Attempt) (db : Database) : Progress :=
  match a.progress db with
  | .invoking handler payload hctx =>
    let decided := afterHandler a.runtime a.ctx (handler.handleErased a.out.world payload hctx)
    .marking decided.1 decided.2
  | progress => progress

variable {a : Attempt}

private theorem execute_returned {verdict : Verdict} (whole : a.whole = true)
    (returned : a.progress db = .returned verdict) :
    a.execute db = (a.claim db, some verdict) := by
  simp only [Attempt.progress] at returned
  simp only [Attempt.execute, whole, if_true, handleEnvelope, returned, Attempt.claim]

private theorem execute_marking {mark : Mark} {verdict : Verdict} (whole : a.whole = true)
    (marking : a.resolved db = .marking mark verdict) :
    a.execute db =
      let done := finishMark a.env a.ctx a.out (mark, verdict) (a.claim db)
      (done.1, some done.2) := by
  simp only [Attempt.resolved, Attempt.progress] at marking
  simp only [Attempt.execute, whole, if_true, handleEnvelope, Attempt.claim]
  generalize afterClaim a.runtime a.env a.ctx _ = progress at marking ⊢
  cases progress with
  | invoking handler payload hctx =>
    cases marking
    rfl
  | marking mark' verdict' =>
    cases marking
    rfl
  | returned verdict' => cases marking

private theorem resolved_cases (a : Attempt) (db : Database) :
    (∃ verdict, a.progress db = .returned verdict) ∨
      ∃ mark verdict, a.resolved db = .marking mark verdict := by
  unfold Attempt.resolved
  cases a.progress db with
  | invoking handler payload hctx => exact .inr ⟨_, _, rfl⟩
  | marking mark verdict => exact .inr ⟨mark, verdict, rfl⟩
  | returned verdict => exact .inl ⟨verdict, rfl⟩

private theorem execute_within (a : Attempt) (db : Database) : Within a.env db
    (a.execute db).1 := by
  have claim : Within a.env db (a.claim db) := claim_within a.env a.ctx _ _ db
  by_cases whole : a.whole = true
  · rcases resolved_cases a db with ⟨verdict, returned⟩ | ⟨mark, verdict, marking⟩
    · rw [execute_returned whole returned]
      exact claim
    · rw [execute_marking whole marking]
      exact within_trans claim (mark_within a.env a.ctx.leaseToken _ mark _ _)
  · simp only [Attempt.execute, whole]
    exact claim

private theorem execute_alike (alike : Alike a.env db db') :
    a.progress db' = a.progress db ∧
      (a.claim db').delivery? a.env = (a.claim db).delivery? a.env := by
  have same := claim_alike alike a.ctx a.out.claimNow
  refine ⟨?_, after_of_shown same alike.row a.out.claimReply⟩
  simp only [Attempt.progress, answer_of_shown same]

private theorem serially_append (l l' : List Attempt) (db : Database) :
    serially (l ++ l') db =
      ((serially l' (serially l db).1).1, (serially l db).2 ++ (serially l' (serially l db).1).2) := by
  induction l generalizing db with
  | nil => rfl
  | cons a l ih =>
    have rest := ih (a.execute db).1
    simp only [List.cons_append, serially, rest]

end Alone

section Labels

variable {s t : WorkerState} {a : WorkerLabel} {i j : ℕ} {inv : Invocation}

/-- How far a call has come. -/
def stage : Phase → ℕ
  | .claiming => 0
  | .claimed (.invoking _ _ _) => 1
  | .claimed (.marking _ _) => 2
  | .claimed (.returned _) => 3

/-- How far a call is when it takes a step of this kind. -/
def stageOf : WorkerLabel → ℕ
  | .claim _ _ _ => 0
  | .handler _ _ => 1
  | .mark _ _ _ => 2
  | _ => 0

/-- A step replaces one invocation at most, and adds one at most. -/
structure Moves (s : WorkerState) (i : ℕ) (inv inv' : Invocation) (t : WorkerState) : Prop where
  found : s.invocations[i]? = some inv
  moved : t.invocations = s.invocations.set i inv'
  same : inv'.runtime = inv.runtime ∧ inv'.env = inv.env ∧ inv'.ctx = inv.ctx

private theorem moves_get {inv' : Invocation} (moves : Moves s i inv inv' t) (j : ℕ) :
    t.invocations[j]? = if i = j then some inv' else s.invocations[j]? := by
  rw [moves.moved, List.getElem?_set]
  simp only [lt_of_found moves.found, if_true]

private theorem acts (step : Step s a t) (actor_ : actor a = some i) :
    ∃ inv inv', Moves s i inv inv' t ∧ stage inv.phase = stageOf a ∧
      stageOf a < stage inv'.phase := by
  have after : ∀ {inv : Invocation} {answer}, 0 < stage (.claimed
      (afterClaim inv.runtime inv.env inv.ctx answer)) := by
    intro inv answer
    cases afterClaim inv.runtime inv.env inv.ctx answer <;> simp [stage]
  cases step with
  | handOut => cases actor_
  | claim i inv now reply found alive phase =>
    cases actor_
    exact ⟨inv, _, ⟨found, rfl, rfl, rfl, rfl⟩, by rw [phase]; rfl, after⟩
  | handler i inv world handler payload hctx found alive phase =>
    cases actor_
    exact ⟨inv, _, ⟨found, rfl, rfl, rfl, rfl⟩, by rw [phase]; rfl, by simp [stage, stageOf]⟩
  | mark i inv now reply mark verdict found alive phase =>
    cases actor_
    exact ⟨inv, _, ⟨found, rfl, rfl, rfl, rfl⟩, by rw [phase]; rfl, by simp [stage, stageOf]⟩
  | crash => cases actor_

private theorem stage_grows (step : Step s a t) (found : s.invocations[i]? = some inv) :
    ∃ inv', t.invocations[i]? = some inv' ∧ stage inv.phase ≤ stage inv'.phase := by
  by_cases own : actor a = some i
  · obtain ⟨inv₁, inv', moves, before, after⟩ := acts step own
    have same : inv₁ = inv := Option.some.inj (moves.found.symm.trans found)
    subst same
    refine ⟨inv', by rw [moves_get moves, if_pos rfl], ?_⟩
    omega
  · obtain ⟨alive, kept⟩ := bystander step found own
    exact ⟨_, kept, le_rfl⟩

private theorem later_labels {as : List WorkerLabel} (run : orderlyWorker.run s as = some t)
    (found : s.invocations[i]? = some inv) (mem : a ∈ as) (own : actor a = some i) :
    stage inv.phase ≤ stageOf a := by
  induction as generalizing s inv with
  | nil => cases mem
  | cons b as ih =>
    obtain ⟨u, step, rest⟩ := Machine.run_cons.mp run
    have taken := step_sound (Machine.restrict_step.mp step).2
    rcases List.mem_cons.mp mem with rfl | later
    · obtain ⟨inv₁, inv', moves, before, -⟩ := acts taken own
      have same : inv₁ = inv := Option.some.inj (moves.found.symm.trans found)
      rw [← before, same]
    · obtain ⟨inv', kept, grows⟩ := stage_grows taken found
      exact grows.trans (ih rest kept later)

/-- The label answers its invocation as `out` says. -/
def foretold (out : ℕ → Surroundings) : WorkerLabel → Bool
  | .claim i now reply => now = (out i).claimNow && reply = (out i).claimReply
  | .handler i world => world = (out i).world
  | .mark i now reply => now = (out i).markNow && reply = (out i).markReply
  | _ => true

private theorem foretold_cons {b : WorkerLabel} {as : List WorkerLabel}
    (told : foretold (fun i => noted i as) a = true)
    (apart : ∀ i, actor a = some i → actor b = some i → stageOf b ≠ stageOf a) :
    foretold (fun i => noted i (b :: as)) a = true := by
  -- Another step before it does not change what is noted of a label, unless it is a step of the
  -- same kind for the same invocation.
  cases a with
  | handOut rt env ctx => rfl
  | crash i => rfl
  | claim i now reply =>
    cases b <;> simp only [foretold, noted] at told ⊢ <;> try exact told
    all_goals
      split
      · next same => first | exact told | exact absurd rfl (apart i rfl (by rw [actor, same]))
      · exact told
  | handler i world =>
    cases b <;> simp only [foretold, noted] at told ⊢ <;> try exact told
    all_goals
      split
      · next same => first | exact told | exact absurd rfl (apart i rfl (by rw [actor, same]))
      · exact told
  | mark i now reply =>
    cases b <;> simp only [foretold, noted] at told ⊢ <;> try exact told
    all_goals
      split
      · next same => first | exact told | exact absurd rfl (apart i rfl (by rw [actor, same]))
      · exact told

/-- A run takes every kind of step once for every invocation, so that the notes are exact. -/
theorem run_foretold {as : List WorkerLabel} (run : orderlyWorker.run s as = some t) :
    as.all (foretold fun i => noted i as) = true := by
  induction as generalizing s with
  | nil => rfl
  | cons b as ih =>
    obtain ⟨u, step, rest⟩ := Machine.run_cons.mp run
    have taken := step_sound (Machine.restrict_step.mp step).2
    rw [List.all_cons, Bool.and_eq_true]
    constructor
    · cases b <;> simp [foretold, noted]
    · refine List.all_eq_true.mpr ?_
      intro a mem
      refine foretold_cons (List.all_eq_true.mp (ih rest) a mem) ?_
      intro i own first same
      obtain ⟨inv, inv', moves, -, passed⟩ := acts taken first
      have reached := later_labels rest (by rw [moves_get moves, if_pos rfl]) mem own
      omega

end Labels

/-- The call takes no step any more, its crash apart. -/
def Over (inv : Invocation) : Prop :=
  inv.alive = false ∨ ∃ verdict, inv.phase = .claimed (.returned verdict)

/-- A call in flight against the tables `serial` of the calls that have ended: its claim would
have left the row as it is, and told it what it knows. -/
structure Flight (out : ℕ → Surroundings) (serial : Database) (i : ℕ) (s : WorkerState)
    (inv : Invocation) : Prop where
  row : ((attempt out i inv false).claim serial).delivery? inv.env = s.db.delivery? inv.env
  phase : inv.phase = .claimed ((attempt out i inv false).progress serial) ∨
    inv.phase = .claimed ((attempt out i inv false).resolved serial)

/-- The invariant: the ended calls, executed alone, account for everything but the calls in
flight, of which there is at most one for each delivery. -/
structure Serial (out : ℕ → Surroundings) (db : Database) (past : List Attempt)
    (s : WorkerState) : Prop where
  frame : SameFrame (serially past db).1 s.db
  rows : ∀ env, occupied s env = false →
    (serially past db).1.delivery? env = s.db.delivery? env
  flights : ∀ i inv, s.invocations[i]? = some inv → inFlight inv = true →
    Flight out (serially past db).1 i s inv
  alone : ∀ (i j : ℕ) (inv inv' : Invocation), s.invocations[i]? = some inv → s.invocations[j]? = some inv' →
    inFlight inv = true → inFlight inv' = true → inv.env = inv'.env → i = j
  ended : ∀ a ∈ past, ∃ inv, s.invocations[a.number]? = some inv ∧ Over inv
  once : (past.map Attempt.number).Nodup
  verdicts : ∀ i verdict, (i, some verdict) ∈ (serially past db).2 ↔
    ∃ inv, s.invocations[i]? = some inv ∧ inv.phase = .claimed (.returned verdict)

/-- One invocation moves on, and `more` are the calls that end by it. -/
structure Advance (out : ℕ → Surroundings) (serial : Database) (s : WorkerState) (i : ℕ)
    (inv inv' : Invocation) (t : WorkerState) (more : List Attempt) : Prop where
  moves : Moves s i inv inv' t
  within : Within inv.env s.db t.db
  new : ∀ a ∈ more, a.number = i ∧ a.env = inv.env ∧ Over inv'
  once : (more.map Attempt.number).Nodup
  fresh : more ≠ [] → ¬ Over inv
  stays : Over inv → Over inv'
  clear : (inFlight inv = true ∨ occupied s inv.env = false) ∨
    (more = [] ∧ t.db = s.db ∧ inFlight inv' = false)
  flight : inFlight inv' = true → Flight out (serially more serial).1 i t inv'
  row : occupied t inv.env = false →
    (serially more serial).1.delivery? inv.env = t.db.delivery? inv.env
  verdict : ∀ verdict, ((i, some verdict) ∈ (serially more serial).2 ∨
      inv.phase = .claimed (.returned verdict)) ↔ inv'.phase = .claimed (.returned verdict)

section Invariant

variable {out : ℕ → Surroundings} {db serial : Database} {past more : List Attempt}
  {s t : WorkerState} {i : ℕ} {inv inv' : Invocation} {env : HandlerEnvelope}

theorem occupied_iff : occupied s env = true ↔
    ∃ (j : ℕ) (inv : Invocation), s.invocations[j]? = some inv ∧ inv.env = env ∧
      inFlight inv = true := by
  simp only [occupied, List.any_eq_true, Bool.and_eq_true, decide_eq_true_eq,
    List.mem_iff_getElem?]
  constructor
  · rintro ⟨inv, ⟨j, found⟩, own, flying⟩
    exact ⟨j, inv, found, own, flying⟩
  · rintro ⟨j, inv, found, own, flying⟩
    exact ⟨inv, ⟨j, found⟩, own, flying⟩

theorem not_occupied (free : occupied s env = false) {j : ℕ}
    (found : s.invocations[j]? = some inv) (own : inv.env = env) : inFlight inv = false := by
  by_contra flying
  have taken := occupied_iff.mpr ⟨j, inv, found, own, by simpa using flying⟩
  rw [free] at taken
  cases taken

private theorem serially_within {l : List Attempt} (own : ∀ a ∈ l, a.env = env) (db : Database) :
    Within env db (serially l db).1 := by
  induction l generalizing db with
  | nil => exact within_refl env db
  | cons a l ih =>
    have first := execute_within a db
    rw [own a List.mem_cons_self] at first
    exact within_trans first (ih (fun b mem => own b (List.mem_cons_of_mem a mem)) _)

private theorem serially_numbers (l : List Attempt) (db : Database) :
    (serially l db).2.map Prod.fst = l.map Attempt.number := by
  induction l generalizing db with
  | nil => rfl
  | cons a l ih =>
    have rest := ih (a.execute db).1
    simp only [serially, List.map_cons, rest]

private theorem flight_kept {serial' : Database} (flight : Flight out serial i s inv)
    (apart : inv.env ≠ env) (ended : Within env serial serial') (within : Within env s.db t.db) :
    Flight out serial' i t inv := by
  have same : Alike (attempt out i inv false).env serial serial' := within_alike ended apart
  obtain ⟨progress, row⟩ := execute_alike same
  refine ⟨?_, ?_⟩
  · rw [within.rows inv.env apart, ← flight.row]
    exact row
  · unfold Attempt.resolved
    rw [progress]
    exact flight.phase

private theorem moves_other {j : ℕ} {found : Invocation} (moves : Moves s i inv inv' t)
    (other : i ≠ j) : t.invocations[j]? = some found ↔ s.invocations[j]? = some found := by
  rw [moves_get moves, if_neg other]

private theorem advance_alone (ser : Serial out db past s)
    (advance : Advance out serial s i inv inv' t more) {j : ℕ} {other : Invocation}
    (differ : i ≠ j) (found : s.invocations[j]? = some other) (flying : inFlight other = true)
    (own : other.env = inv.env) : more = [] ∧ t.db = s.db ∧ inFlight inv' = false := by
  -- A call that moves is alone with its delivery, unless it changes nothing.
  rcases advance.clear with (mine | free) | quiet
  · exact absurd (ser.alone i j inv other advance.moves.found found mine flying own.symm) differ
  · rw [not_occupied free found own] at flying
    cases flying
  · exact quiet

private theorem occupied_advance (moves : Moves s i inv inv' t) (other : env ≠ inv.env)
    (free : occupied t env = false) : occupied s env = false := by
  by_contra taken
  obtain ⟨j, found, present, own, flying⟩ := occupied_iff.mp (by simpa using taken)
  have differ : i ≠ j := by
    rintro rfl
    have same : inv = found := Option.some.inj (moves.found.symm.trans present)
    exact other (same ▸ own.symm)
  rw [not_occupied free ((moves_other moves differ).mpr present) own] at flying
  cases flying

private theorem get_advance (advance : Advance out serial s i inv inv' t more) :
    t.invocations[i]? = some inv' := by
  rw [moves_get advance.moves, if_pos rfl]

private theorem within_advance (advance : Advance out serial s i inv inv' t more) :
    Within inv.env serial (serially more serial).1 :=
  serially_within (fun a mem => (advance.new a mem).2.1) _

private theorem flights_advance (ser : Serial out db past s)
    (advance : Advance out (serially past db).1 s i inv inv' t more) {j : ℕ} {found : Invocation}
    (present : t.invocations[j]? = some found) (flying : inFlight found = true) :
    Flight out (serially more (serially past db).1).1 j t found := by
  by_cases same : i = j
  · subst same
    have eqn : inv' = found := Option.some.inj ((get_advance advance).symm.trans present)
    subst eqn
    exact advance.flight flying
  · have before := (moves_other advance.moves same).mp present
    have flight := ser.flights j found before flying
    by_cases own : found.env = inv.env
    · obtain ⟨none, kept, -⟩ := advance_alone ser advance same before flying own
      rw [none]
      exact ⟨by rw [kept]; exact flight.row, flight.phase⟩
    · exact flight_kept flight own (within_advance advance) advance.within

private theorem alone_advance (ser : Serial out db past s)
    (advance : Advance out (serially past db).1 s i inv inv' t more) {j k : ℕ}
    {first second : Invocation} (present : t.invocations[j]? = some first)
    (present' : t.invocations[k]? = some second) (flying : inFlight first = true)
    (flying' : inFlight second = true) (own : first.env = second.env) : j = k := by
  have moves := advance.moves
  have here := get_advance advance
  by_cases left : i = j <;> by_cases right : i = k
  · rw [← left, ← right]
  · subst left
    have eqn : inv' = first := Option.some.inj (here.symm.trans present)
    subst eqn
    have quiet := advance_alone ser advance right ((moves_other moves right).mp present')
      flying' (own.symm.trans moves.same.2.1)
    rw [quiet.2.2] at flying
    cases flying
  · subst right
    have eqn : inv' = second := Option.some.inj (here.symm.trans present')
    subst eqn
    have quiet := advance_alone ser advance left ((moves_other moves left).mp present)
      flying (own.trans moves.same.2.1)
    rw [quiet.2.2] at flying'
    cases flying'
  · exact ser.alone j k first second ((moves_other moves left).mp present)
      ((moves_other moves right).mp present') flying flying' own

private theorem ended_advance (ser : Serial out db past s)
    (advance : Advance out (serially past db).1 s i inv inv' t more) {a : Attempt}
    (mem : a ∈ past ++ more) : ∃ inv, t.invocations[a.number]? = some inv ∧ Over inv := by
  have here := get_advance advance
  rcases List.mem_append.mp mem with old | new
  · obtain ⟨found, present, final⟩ := ser.ended a old
    by_cases same : i = a.number
    · have eqn : inv = found :=
        Option.some.inj (advance.moves.found.symm.trans (by rw [same]; exact present))
      exact ⟨inv', by rw [← same]; exact here, advance.stays (eqn ▸ final)⟩
    · exact ⟨found, (moves_other advance.moves same).mpr present, final⟩
  · obtain ⟨number, -, final⟩ := advance.new a new
    exact ⟨inv', by rw [number]; exact here, final⟩

private theorem verdicts_advance (ser : Serial out db past s)
    (advance : Advance out (serially past db).1 s i inv inv' t more) (j : ℕ) (verdict : Verdict) :
    (j, some verdict) ∈ (serially past db).2 ++ (serially more (serially past db).1).2 ↔
      ∃ inv, t.invocations[j]? = some inv ∧ inv.phase = .claimed (.returned verdict) := by
  rw [List.mem_append, ser.verdicts]
  by_cases same : i = j
  · subst same
    rw [get_advance advance, advance.moves.found]
    simp only [Option.some.injEq, exists_eq_left']
    rw [← advance.verdict verdict]
    exact or_comm
  · have foreign : (j, some verdict) ∉ (serially more (serially past db).1).2 := by
      intro mem
      have number := List.mem_map_of_mem (f := Prod.fst) mem
      rw [serially_numbers] at number
      obtain ⟨a, new, eqn⟩ := List.mem_map.mp number
      exact same ((advance.new a new).1.symm.trans eqn)
    simp only [foreign, or_false, moves_other advance.moves same]

private theorem serial_advance (ser : Serial out db past s)
    (advance : Advance out (serially past db).1 s i inv inv' t more) :
    Serial out db (past ++ more) t := by
  have moves := advance.moves
  have ended := within_advance advance
  have split := serially_append past more db
  refine ⟨?_, ?_, ?_, ?_, ?_, ?_, ?_⟩
  · rw [split]
    have before := ser.frame
    have after := advance.within.frame
    exact ⟨after.events.trans (before.events.trans ended.frame.events.symm),
      after.dispatchKeys.trans (before.dispatchKeys.trans ended.frame.dispatchKeys.symm),
      after.jobs.trans (before.jobs.trans ended.frame.jobs.symm),
      after.nextDeliveryId.trans (before.nextDeliveryId.trans ended.frame.nextDeliveryId.symm)⟩
  · intro env free
    rw [split]
    by_cases own : env = inv.env
    · subst own
      exact advance.row free
    · rw [ended.rows env own, advance.within.rows env own]
      exact ser.rows env (occupied_advance moves own free)
  · intro j found present flying
    rw [split]
    exact flights_advance ser advance present flying
  · intro j k first second present present' flying flying' own
    exact alone_advance ser advance present present' flying flying' own
  · intro a mem
    exact ended_advance ser advance mem
  · rw [List.map_append, List.nodup_append]
    refine ⟨ser.once, advance.once, ?_⟩
    intro n old m new same
    obtain ⟨a, mem, number⟩ := List.mem_map.mp old
    obtain ⟨b, mem', number'⟩ := List.mem_map.mp new
    obtain ⟨found, present, final⟩ := ser.ended a mem
    have index : a.number = i := by rw [number, same, ← number', (advance.new b mem').1]
    rw [index, moves.found] at present
    exact advance.fresh (List.ne_nil_of_mem mem') (Option.some.inj present ▸ final)
  · intro j verdict
    rw [split]
    exact verdicts_advance ser advance j verdict

end Invariant

section Steps

variable {out : ℕ → Surroundings} {db : Database} {past : List Attempt} {s t : WorkerState}
  {a : WorkerLabel} {i : ℕ} {inv : Invocation}

private theorem serial_start (out : ℕ → Surroundings) (db : Database) :
    Serial out db [] (.start db) where
  frame := .refl db
  rows _ _ := rfl
  flights _ _ found := by simp [WorkerState.start] at found
  alone _ _ _ _ found := by simp [WorkerState.start] at found
  ended _ mem := by cases mem
  once := List.nodup_nil
  verdicts _ _ := by simp [serially, WorkerState.start]

private theorem serial_handOut (ser : Serial out db past s) (rt : OutboxRuntime)
    (env : HandlerEnvelope) (ctx : JobContext) :
    Serial out db past
      { s with invocations := s.invocations ++ [⟨rt, env, ctx, .claiming, true⟩] } where
  frame := ser.frame
  rows e free := by
    refine ser.rows e ?_
    by_contra taken
    obtain ⟨j, found, present, own, flying⟩ := occupied_iff.mp (by simpa using taken)
    rw [not_occupied free (handOut_keeps present) own] at flying
    cases flying
  flights j found present flying := by
    rcases handOut_get present with old | ⟨-, rfl⟩
    · exact ⟨(ser.flights j found old flying).row, (ser.flights j found old flying).phase⟩
    · cases flying
  alone j k first second present present' flying flying' own := by
    rcases handOut_get present with old | ⟨-, rfl⟩
    · rcases handOut_get present' with old' | ⟨-, rfl⟩
      · exact ser.alone j k first second old old' flying flying' own
      · cases flying'
    · cases flying
  ended a mem := by
    obtain ⟨found, present, final⟩ := ser.ended a mem
    exact ⟨found, handOut_keeps present, final⟩
  once := ser.once
  verdicts j verdict := by
    rw [ser.verdicts]
    constructor
    · rintro ⟨found, present, returned⟩
      exact ⟨found, handOut_keeps present, returned⟩
    · rintro ⟨found, present, returned⟩
      rcases handOut_get present with old | ⟨-, rfl⟩
      · exact ⟨found, old, returned⟩
      · cases returned

private theorem serial_alike (ser : Serial out db past s) {env : HandlerEnvelope}
    (row : (serially past db).1.delivery? env = s.db.delivery? env) :
    Alike env s.db (serially past db).1 :=
  ⟨row, ser.frame.events.symm, ser.frame.dispatchKeys.symm⟩

theorem not_over (alive : inv.alive = true) (phase : ∀ v, inv.phase ≠ .claimed (.returned v)) :
    ¬ Over inv := by
  -- On its own row an ended or starting call finds what the whole run left there.
  rintro (dead | ⟨verdict, returned⟩)
  · rw [alive] at dead
    cases dead
  · exact phase verdict returned

theorem rests_of_over (final : Over inv) : inFlight inv = false := by
  rcases final with dead | ⟨verdict, returned⟩
  · simp only [inFlight, dead, Bool.false_and]
  · simp only [inFlight, returned, Bool.and_false]

private theorem advance_flying {serial : Database} {inv' : Invocation}
    (moves : Moves s i inv inv' t) (within : Within inv.env s.db t.db) (fresh : ¬ Over inv)
    (clear : inFlight inv = true ∨ occupied s inv.env = false) (flying : inFlight inv' = true)
    (flight : Flight out serial i t inv') : Advance out serial s i inv inv' t [] where
  moves := moves
  within := within
  new _ mem := by cases mem
  once := List.nodup_nil
  fresh wrong := absurd rfl wrong
  stays final := absurd final fresh
  clear := .inl clear
  flight _ := flight
  row free := by
    have here : t.invocations[i]? = some inv' := by rw [moves_get moves, if_pos rfl]
    rw [not_occupied free here moves.same.2.1] at flying
    cases flying
  verdict v := by
    have going : inv'.phase ≠ .claimed (.returned v) := by
      intro returned
      rw [rests_of_over (.inr ⟨v, returned⟩)] at flying
      cases flying
    have before : inv.phase ≠ .claimed (.returned v) := fun returned => fresh (.inr ⟨v, returned⟩)
    simp only [serially, List.not_mem_nil, false_or, before, going]

private theorem advance_ending {serial : Database} {inv' : Invocation} (call : Attempt)
    (moves : Moves s i inv inv' t) (within : Within inv.env s.db t.db) (fresh : ¬ Over inv)
    (clear : inFlight inv = true ∨ occupied s inv.env = false) (number : call.number = i)
    (env : call.env = inv.env) (final : Over inv')
    (row : (call.execute serial).1.delivery? inv.env = t.db.delivery? inv.env)
    (verdict : ∀ v, (call.execute serial).2 = some v ↔ inv'.phase = .claimed (.returned v)) :
    Advance out serial s i inv inv' t [call] where
  moves := moves
  within := within
  new a mem := by
    cases List.mem_singleton.mp mem
    exact ⟨number, env, final⟩
  once := List.nodup_singleton _
  fresh _ := fresh
  stays before := absurd before fresh
  clear := .inl clear
  flight flying := by
    rw [rests_of_over final] at flying
    cases flying
  row _ := row
  verdict v := by
    have before : inv.phase ≠ .claimed (.returned v) := fun returned => fresh (.inr ⟨v, returned⟩)
    rw [← verdict v]
    simp only [serially, List.mem_singleton, Prod.mk.injEq, number, true_and, before, or_false]
    exact eq_comm

private theorem returnedCall_going (out : ℕ → Surroundings) (i : ℕ) {inv : Invocation}
    (going : ∀ v, inv.phase ≠ .claimed (.returned v)) : returnedCall out i inv = [] := by
  unfold returnedCall
  split
  · next v returned => exact absurd returned (going v)
  · rfl

private theorem advance_claim (ser : Serial out db past s) (now : Timestamp) (reply : Reply)
    (found : s.invocations[i]? = some inv) (alive : inv.alive = true)
    (phase : inv.phase = .claiming) (free : occupied s inv.env = false)
    (told : foretold out (.claim i now reply) = true) :
    ∃ inv', Advance out (serially past db).1 s i inv inv' (s.claimed i inv now reply)
      (ends out s (.claim i now reply) (s.claimed i inv now reply)) := by
  simp only [foretold, Bool.and_eq_true, decide_eq_true_eq] at told
  obtain ⟨rfl, rfl⟩ := told
  let call := attempt out i inv false
  let inv' : Invocation := { inv with phase := .claimed (call.progress s.db) }
  let t := s.claimed i inv (out i).claimNow (out i).claimReply
  have moves : Moves s i inv inv' t := ⟨found, rfl, rfl, rfl, rfl⟩
  have within : Within inv.env s.db t.db := claim_within inv.env inv.ctx _ _ s.db
  have fresh : ¬ Over inv := not_over alive (by simp [phase])
  have alike : Alike call.env s.db (serially past db).1 :=
    serial_alike ser (ser.rows inv.env free)
  obtain ⟨progress, row⟩ := execute_alike alike
  have list : ends out s (.claim i (out i).claimNow (out i).claimReply) t =
      returnedCall out i inv' := by
    simp only [ends, moves_get moves, if_true, Option.elim_some]
  refine ⟨inv', ?_⟩
  rw [list]
  rcases resolved_cases call s.db with ⟨verdict, returned⟩ | ⟨mark, verdict, marking⟩
  · have phase' : inv'.phase = .claimed (.returned verdict) := congrArg Phase.claimed returned
    have alone : (attempt out i inv true).execute (serially past db).1 =
        (call.claim (serially past db).1, some verdict) :=
      execute_returned rfl (progress.trans returned)
    have single : returnedCall out i inv' = [attempt out i inv true] := by
      simp only [returnedCall, phase']
      rfl
    rw [single]
    refine advance_ending _ moves within fresh (.inr free) rfl rfl (.inr ⟨verdict, phase'⟩) ?_ ?_
    · rw [alone]
      exact row
    · intro v
      rw [alone, phase']
      simp
  · have flying : inFlight inv' = true := by
      simp only [inFlight, inv', alive, Bool.true_and]
      cases stage : call.progress s.db with
      | invoking handler payload hctx => rfl
      | marking mark' verdict' => rfl
      | returned v =>
        simp only [Attempt.resolved, stage] at marking
        cases marking
    have going : ∀ v, inv'.phase ≠ .claimed (.returned v) := by
      intro v returned
      rw [rests_of_over (.inr ⟨v, returned⟩)] at flying
      cases flying
    rw [returnedCall_going out i going]
    exact advance_flying moves within fresh (.inr free) flying
      ⟨row, .inl (congrArg Phase.claimed progress.symm)⟩

private theorem flying_claimed {progress : Progress} (alive : inv.alive = true)
    (phase : inv.phase = .claimed progress) (going : ∀ v, progress ≠ .returned v) :
    inFlight inv = true := by
  simp only [inFlight, alive, Bool.true_and, phase]
  cases progress with
  | invoking handler payload hctx => rfl
  | marking mark verdict => rfl
  | returned v => exact absurd rfl (going v)

private theorem advance_handler (ser : Serial out db past s) (world : World)
    (handler : ErasedHandler)
    (payload : Bytes) (hctx : HandlerContext) (found : s.invocations[i]? = some inv)
    (alive : inv.alive = true) (phase : inv.phase = .claimed (.invoking handler payload hctx))
    (told : foretold out (.handler i world) = true) :
    ∃ inv', Advance out (serially past db).1 s i inv inv'
      (s.handled i inv (afterHandler inv.runtime inv.ctx (handler.handleErased world payload hctx)))
      [] := by
  simp only [foretold, decide_eq_true_eq] at told
  subst told
  let decided := afterHandler inv.runtime inv.ctx (handler.handleErased (out i).world payload hctx)
  have flying : inFlight inv = true := flying_claimed alive phase (by simp)
  have flight := ser.flights i inv found flying
  -- a resolved call has no handler left to call
  have invoking : (attempt out i inv false).progress (serially past db).1 =
      .invoking handler payload hctx := by
    rcases flight.phase with claimed | resolved
    · exact Phase.claimed.inj (claimed.symm.trans phase)
    · have wrong := Phase.claimed.inj (resolved.symm.trans phase)
      unfold Attempt.resolved at wrong
      cases stage : (attempt out i inv false).progress (serially past db).1 <;>
        simp [stage] at wrong
  refine ⟨{ inv with phase := .claimed (.marking decided.1 decided.2) },
    advance_flying ⟨found, rfl, rfl, rfl, rfl⟩ (within_refl _ _) ?_ (.inl flying) ?_ ?_⟩
  · exact not_over alive (by simp [phase])
  · simp [inFlight, alive]
  · refine ⟨flight.row, .inr ?_⟩
    have resolved : (attempt out i inv false).resolved (serially past db).1 =
        .marking decided.1 decided.2 := by
      simp only [Attempt.resolved, invoking]
      rfl
    exact congrArg Phase.claimed resolved.symm

private theorem advance_mark (ser : Serial out db past s) (now : Timestamp) (reply : Reply)
    (mark : Mark)
    (verdict : Verdict) (found : s.invocations[i]? = some inv) (alive : inv.alive = true)
    (phase : inv.phase = .claimed (.marking mark verdict))
    (told : foretold out (.mark i now reply) = true) :
    ∃ inv', Advance out (serially past db).1 s i inv inv' (s.marked i inv mark verdict now reply)
      (ends out s (.mark i now reply) (s.marked i inv mark verdict now reply)) := by
  simp only [foretold, Bool.and_eq_true, decide_eq_true_eq] at told
  obtain ⟨rfl, rfl⟩ := told
  have flying : inFlight inv = true := flying_claimed alive phase (by simp)
  have flight := ser.flights i inv found flying
  have marking : (attempt out i inv true).resolved (serially past db).1 = .marking mark verdict := by
    rcases flight.phase with claimed | resolved
    · have stage := Phase.claimed.inj (claimed.symm.trans phase)
      unfold Attempt.resolved
      rw [show (attempt out i inv true).progress (serially past db).1 = .marking mark verdict
        from stage]
    · exact Phase.claimed.inj (resolved.symm.trans phase)
  have same := mark_alike flight.row inv.ctx.leaseToken (out i).markNow mark
  have alone := execute_marking rfl marking
  let answer := (out i).markReply.answer s.db (mark.statement inv.env inv.ctx.leaseToken (out i).markNow)
  let inv' : Invocation := { inv with phase := .claimed (.returned (afterMark mark verdict answer)) }
  have moves : Moves s i inv inv' (s.marked i inv mark verdict (out i).markNow (out i).markReply) :=
    ⟨found, rfl, rfl, rfl, rfl⟩
  have list : ends out s (.mark i (out i).markNow (out i).markReply)
      (s.marked i inv mark verdict (out i).markNow (out i).markReply) =
      [attempt out i inv true] := by
    simp only [ends, moves_get moves, if_true, Option.elim_some]
    rfl
  refine ⟨inv', ?_⟩
  rw [list]
  refine advance_ending _ moves (mark_within inv.env _ _ mark _ s.db)
    (not_over alive (by simp [phase])) (.inl flying) rfl rfl (.inr ⟨_, rfl⟩) ?_ ?_
  · rw [alone]
    exact after_of_shown same flight.row (out i).markReply
  · intro v
    rw [alone]
    have answers : ((attempt out i inv true).out.markReply.answer
        ((attempt out i inv true).claim (serially past db).1)
        (mark.statement inv.env inv.ctx.leaseToken (out i).markNow)) = answer :=
      answer_of_shown same (out i).markReply
    simp only [finishMark]
    rw [show (attempt out i inv true).env = inv.env from rfl,
      show (attempt out i inv true).ctx = inv.ctx from rfl,
      show (attempt out i inv true).out = out i from rfl] at *
    rw [answers]
    simp [inv']

private theorem advance_crash (ser : Serial out db past s) (found : s.invocations[i]? = some inv) :
    ∃ inv', Advance out (serially past db).1 s i inv inv' (s.crashed i inv)
      (ends out s (.crash i) (s.crashed i inv)) := by
  have moves : Moves s i inv { inv with alive := false } (s.crashed i inv) :=
    ⟨found, rfl, rfl, rfl, rfl⟩
  refine ⟨{ inv with alive := false }, ?_⟩
  by_cases flying : inFlight inv = true
  · have flight := ser.flights i inv found flying
    have list : ends out s (.crash i) (s.crashed i inv) = [attempt out i inv false] := by
      simp only [ends, found, Option.elim_some, flying, if_true]
    have fresh : ¬ Over inv := by
      intro final
      rw [rests_of_over final] at flying
      cases flying
    rw [list]
    refine advance_ending _ moves (within_refl _ _) fresh (.inl flying) rfl rfl (.inl rfl) ?_ ?_
    · exact flight.row
    · intro v
      refine iff_of_false ?_ fun returned => fresh (.inr ⟨v, returned⟩)
      intro wrong
      cases wrong
  · have none : ends out s (.crash i) (s.crashed i inv) = [] := by
      simp only [ends, found, Option.elim_some, flying]
      rfl
    rw [none]
    refine ⟨moves, within_refl _ _, ?_, List.nodup_nil, fun wrong => absurd rfl wrong,
      fun _ => .inl rfl, .inr ⟨rfl, rfl, rfl⟩, ?_, ?_, ?_⟩
    · intro a mem
      cases mem
    · intro wrong
      cases wrong
    · intro free
      refine ser.rows inv.env ?_
      by_contra taken
      obtain ⟨j, other, present, own, busy⟩ := occupied_iff.mp (by simpa using taken)
      have differ : i ≠ j := by
        rintro rfl
        rw [found] at present
        cases Option.some.inj present
        exact flying busy
      rw [not_occupied free ((moves_other moves differ).mpr present) own] at busy
      cases busy
    · intro v
      simp [serially]

/-- Every step keeps the invariant, with the call that it ends added to the past. -/
private theorem serial_step (ser : Serial out db past s) (told : foretold out a = true)
    (step : orderlyWorker.step s a = some t) : Serial out db (past ++ ends out s a t) t := by
  obtain ⟨orderly, taken⟩ := Machine.restrict_step.mp step
  cases step_sound taken with
  | handOut rt env ctx =>
    rw [show ends out s (.handOut rt env ctx) _ = [] from rfl, List.append_nil]
    exact serial_handOut ser rt env ctx
  | claim i inv now reply found alive phase =>
    have free : occupied s inv.env = false := by simpa [oneAtATime, found] using orderly
    obtain ⟨inv', advance⟩ := advance_claim ser now reply found alive phase free told
    exact serial_advance ser advance
  | handler i inv world handler payload hctx found alive phase =>
    obtain ⟨inv', advance⟩ := advance_handler ser world handler payload hctx found alive phase told
    exact serial_advance ser advance
  | mark i inv now reply mark verdict found alive phase =>
    obtain ⟨inv', advance⟩ := advance_mark ser now reply mark verdict found alive phase told
    exact serial_advance ser advance
  | crash i inv found alive =>
    obtain ⟨inv', advance⟩ := advance_crash ser found
    exact serial_advance ser advance

theorem serial_run {as : List WorkerLabel} (told : as.all (foretold out) = true)
    (run : orderlyWorker.run (.start db) as = some s) :
    Serial out db (orderlyWorker.record (ends out) (.start db) as) s :=
  Machine.record_invariant_all (foretold out)
    (fun _ _ _ _ ser told step => serial_step ser told step) (serial_start out db) told run

private theorem ends_number (out out' : ℕ → Surroundings) (s : WorkerState) (a : WorkerLabel)
    (t : WorkerState) :
    (ends out s a t).map Attempt.number = (ends out' s a t).map Attempt.number := by
  have call : ∀ (i : ℕ) (found : Option Invocation),
      (found.elim [] (returnedCall out i)).map Attempt.number =
        (found.elim [] (returnedCall out' i)).map Attempt.number := by
    intro i found
    cases found with
    | none => rfl
    | some inv =>
      simp only [Option.elim_some, returnedCall]
      split <;> rfl
  cases a with
  | handOut => rfl
  | handler => rfl
  | claim i now reply => exact call i _
  | mark i now reply => exact call i _
  | crash i =>
    simp only [ends]
    cases s.invocations[i]? with
    | none => rfl
    | some inv =>
      simp only [Option.elim_some]
      split <;> rfl

end Steps

theorem atomic_of_serial {db : Database} {as : List WorkerLabel} {s : WorkerState}
    (run : orderlyWorker.run (.start db) as = some s)
    (ser : Serial (fun i => noted i as) db (finished db as) s) : Atomic db as s := by
  refine ⟨ser.once, ?_, ser.frame, ser.rows, ?_, ser.verdicts⟩
  · rintro front back rfl
    rw [Machine.run_append] at run
    obtain ⟨u, first, -⟩ := Option.bind_eq_some_iff.mp run
    have numbers : ∀ out out' : ℕ → Surroundings,
        (orderlyWorker.record (ends out) (.start db) front).map Attempt.number =
          (orderlyWorker.record (ends out') (.start db) front).map Attempt.number := by
      intro out out'
      simp only [Machine.map_record, ends_number out out']
    unfold finished
    rw [Machine.record_append first, List.map_append, numbers (fun i => noted i front)]
    exact List.prefix_append _ _
  · intro i inv found flying
    exact (ser.flights i inv found flying).row

/-- Attempts of different deliveries may interleave in any way, fail, lose answers and crash:
if no two attempts of one delivery overlap, every call is one atomic step. -/
theorem calls_are_atomic (db : Database) (as : List WorkerLabel) (s : WorkerState)
    (run : orderlyWorker.run (.start db) as = some s) : Atomic db as s :=
  atomic_of_serial run (serial_run (run_foretold run) run)

/-- A crashed attempt, its repetition, and another delivery between their steps. -/
def mingledRun : List WorkerLabel :=
  [.handOut sampleRuntime sampleEnv (sampleContext 1 101#128),
   .handOut sampleRuntime orphanEnv (sampleContext 1 102#128),
   .claim 0 1 .answered, .claim 1 2 .answered, .crash 0,
   .handOut sampleRuntime sampleEnv (sampleContext 2 103#128),
   .claim 2 3 .answered, .handler 2 0, .mark 1 4 .answered, .mark 2 5 .answered]

theorem mingled_calls_are_atomic :
    ∃ s, orderlyWorker.run (.start splitDatabase) mingledRun = some s ∧
      (finished splitDatabase mingledRun).map Attempt.number = [0, 1, 2] ∧
      (s.db.delivery? sampleEnv).map (·.status) = some .sent ∧
      Atomic splitDatabase mingledRun s := by
  have ends : ((orderlyWorker.run (.start splitDatabase) mingledRun).map fun s =>
      (s.db.delivery? sampleEnv).map (·.status)) = some (some .sent) := by decide
  obtain ⟨s, run, status⟩ := Option.map_eq_some_iff.mp ends
  exact ⟨s, run, by decide, status, calls_are_atomic splitDatabase mingledRun s run⟩

end RustEvents.Worker.Atomicity
