/- module: RustEvents/Queue/LostAnswers
   layer: system
   source: src/runtime.rs (mark_sent_fenced, map_sql, map_mark_err), README.md (Known limitation 4)
   digest: A dead job beside a sent row: how a lost answer produces it, and the runs in which it cannot happen. -/

import RustEvents.Queue.Agreement

set_option autoImplicit false
set_option relaxedAutoImplicit false

namespace RustEvents.Queue.LostAnswers

open RustEvents.Foundation.LabelledRuns
open RustEvents.Foundation.FencedCell
open RustEvents.Model.Errors
open RustEvents.Model.Schema
open RustEvents.Model.Runtime
open RustEvents.Worker.Statements
open RustEvents.Worker.Steps
open RustEvents.Worker.Fencing
open RustEvents.Worker.Superseded
open RustEvents.Queue.Jobs
open RustEvents.Queue.Agreement

/-- Every claim of the job, and of any other job, carries a token of its own. -/
def freshTokens (q : QueueState) : QueueLabel → Bool
  | .deliver rt ctx => freshToken q.processes (.handOut rt q.env ctx)
  | .work a => freshToken q.processes a
  | _ => true

/-- The queue under lease expiry at any moment, failing statements and lost answers. -/
def leasedQueue : Machine QueueState QueueLabel := queue.restrict freshTokens

def endsWith {β : Type} (ctx : JobContext) : Except SqlxError β → Bool
  | .ok _ => false
  | .error e => endsJob ctx e

/-- The lease holder's claim ends in an error that ends the job, and did not stamp the row. -/
def fatalClaim (q : QueueState) (i : ℕ) (now : Timestamp) (reply : Reply) : Bool :=
  q.job = .running i && (q.processes.invocations[i]?).any fun inv =>
    endsWith inv.ctx (reply.answer q.processes.db (claimStatement inv.env inv.ctx now)) &&
      !(inv.claimExecutes q.processes.db now reply &&
        (q.processes.db.delivery? inv.env).any fun r => !r.status.isTerminal)

/-- The lease holder's `mark_sent_fenced` is applied, and answered by an error that ends
the job. -/
def fatalSent (q : QueueState) (i : ℕ) (now : Timestamp) (reply : Reply) : Bool :=
  q.job = .running i && (q.processes.invocations[i]?).any fun inv =>
    match inv.phase with
    | .claimed (.marking .sent _) =>
      endsWith inv.ctx (reply.answer q.processes.db
          (Mark.sent.statement inv.env inv.ctx.leaseToken now)) &&
        inv.markExecutes .sent q.processes.db now reply &&
        (q.processes.db.delivery? inv.env).any (holds inv.ctx.leaseToken)
    | _ => false

/-- The steps that cannot lead to a dead job beside a sent row. -/
def harmless (q : QueueState) : QueueLabel → Bool
  | .work a => claimsInOrder q.env q.processes a &&
    match a with
    | .claim i now reply => !fatalClaim q i now reply
    | .mark i now reply => !fatalSent q i now reply
    | _ => true
  | _ => true

def notSent (row : Option HandlerDelivery) : Bool := row.all fun r => r.status ≠ .sent

/-- The newest invocation of the job is over and its claim was executed. -/
structure Settled (q : QueueState) (i : ℕ) (inv : Invocation) : Prop where
  found : q.processes.invocations[i]? = some inv
  ended : Phase.ended inv.phase = true
  newest : ∀ k other, q.processes.invocations[k]? = some other → other.env = q.env → k ≤ i
  executed : ∃ did, Executed.claim i q.env did ∈ q.processes.history

/-- What the verdict to come, or the one to be settled, says about the row. -/
def Prospect (q : QueueState) (i : ℕ) (inv : Invocation) : Prop :=
  match inv.phase with
  | .claimed (.marking mark verdict) => Matched inv.ctx mark verdict
  | .claimed (.returned verdict) => settled inv.ctx verdict = .dead →
    (∃ did, Executed.claim i q.env did ∈ q.processes.history) ∧
      notSent (q.processes.db.delivery? q.env) = true
  | _ => True

structure Sound (q : QueueState) : Prop where
  guarded : Guarded q.processes
  newest : NewestLast (view q.env q.processes)
  latest : ∀ i, q.job = .running i → ∀ k inv, q.processes.invocations[k]? = some inv →
    inv.env = q.env → k ≤ i
  current : ∀ i, q.job = .running i → ∃ inv, q.processes.invocations[i]? = some inv ∧
    inv.env = q.env ∧ Prospect q i inv
  buried : q.job = .dead → (∃ i inv, Settled q i inv) ∧
    notSent (q.processes.db.delivery? q.env) = true

private theorem sound_start (db : Database) (env : HandlerEnvelope) : Sound (.start db env) where
  guarded := guarded_start db
  newest := by
    intro i head
    simp [view, QueueState.start, WorkerState.start] at head
  latest := by simp [QueueState.start]
  current := by simp [QueueState.start]
  buried := by simp [QueueState.start]

private theorem settled_row {q : QueueState} {i : ℕ} {inv : Invocation} {a : WorkerLabel}
    {w : WorkerState} (guarded : Guarded q.processes) (newest : NewestLast (view q.env q.processes))
    (settled : Settled q i inv) (ordered : claimsInOrder q.env q.processes a = true)
    (step : Step q.processes a w) :
    w.db.delivery? q.env = q.processes.db.delivery? q.env := by
  -- Once the newest invocation is over, nobody changes the row any more: every other one is
  -- superseded.
  obtain ⟨did, claim⟩ := settled.executed
  cases did with
  | false => exact closed_row step (guarded.tracked.refusals i q.env claim)
  | true =>
    have older : ∀ k other, q.processes.invocations[k]? = some other → other.env = q.env →
        Phase.ended other.phase = false → k < i := by
      intro k other found own acting
      have bound := settled.newest k other found own
      have differ : k ≠ i := by
        rintro rfl
        rw [settled.found] at found
        rw [← Option.some.inj found, settled.ended] at acting
        cases acting
      omega
    rcases row_cases step q.env with same |
      ⟨k, other, now, reply, r, rfl, found, phase, own, done, stored, live, -⟩ |
      ⟨k, other, now, reply, mark, verdict, r, rfl, found, phase, own, stored, held, row⟩
    · exact same
    · have below := older k other found own (by rw [phase]; rfl)
      have closed := claimsInOrder_claim.mp ordered
        (overtaken_iff.mpr ⟨i, true, below, claim⟩) (by simp [executes, found, own, done])
      simp [stored, live] at closed
    · have below := older k other found own (by rw [phase]; rfl)
      have last : lastStamper q.env q.processes = some k :=
        own ▸ marker_is_last guarded step (own.symm ▸ stored) held (own.symm ▸ row)
      have above := newest k last i (mem_stamped.mpr claim)
      omega

private theorem not_actor_of_ended {s t : WorkerState} {a : WorkerLabel} (step : Step s a t) {j : ℕ}
    {inv : Invocation} (found : s.invocations[j]? = some inv)
    (ended : Phase.ended inv.phase = true) : actor a ≠ some j := by
  intro acts
  have acting : ∀ inv', s.invocations[j]? = some inv' → Phase.ended inv'.phase = true := by
    intro inv' found'
    rw [found] at found'
    exact Option.some.inj found' ▸ ended
  cases step with
  | handOut => cases acts
  | claim i inv' now reply found' alive phase =>
    cases Option.some.inj acts
    simpa [phase, Phase.ended] using acting inv' found'
  | handler i inv' world handler payload hctx found' alive phase =>
    cases Option.some.inj acts
    simpa [phase, Phase.ended] using acting inv' found'
  | mark i inv' now reply mark verdict found' alive phase =>
    cases Option.some.inj acts
    simpa [phase, Phase.ended] using acting inv' found'
  | crash => cases acts

private theorem current_holds {q : QueueState} (sound : Sound q) {i : ℕ} {inv : Invocation}
    (running : q.job = .running i) (found : q.processes.invocations[i]? = some inv)
    (own : inv.env = q.env) (pending : Phase.pending inv.phase = true) :
    (q.processes.db.delivery? q.env).any (holds inv.ctx.leaseToken) = true ∧
      Executed.claim i q.env true ∈ q.processes.history := by
  have stamp : Executed.claim i q.env true ∈ q.processes.history :=
    own ▸ sound.guarded.tracked.stampers i inv found pending
  refine ⟨newest_holds sound.guarded sound.newest found own stamp ?_ ?_, stamp⟩
  · intro marked
    obtain ⟨inv', found', ended⟩ := sound.guarded.tracked.markers i q.env marked
    rw [found] at found'
    cases Option.some.inj found'
    cases phase : inv.phase with
    | claiming => simp [phase, Phase.ended] at ended
    | claimed progress =>
      cases progress <;> simp [phase, Phase.ended, Phase.pending] at ended pending
  · rw [← Bool.not_eq_true, overtaken_iff]
    rintro ⟨j, did, newer, claim⟩
    obtain ⟨inv', found', own', -⟩ := sound.guarded.tracked.claimers j q.env did claim
    have bound := sound.latest i running j inv' found' own'
    omega

private theorem prospect_claim {q : QueueState} {i : ℕ} {inv : Invocation} {now : Timestamp}
    {reply : Reply} (running : q.job = .running i)
    (found : q.processes.invocations[i]? = some inv) (own : inv.env = q.env)
    (spared : fatalClaim q i now reply = false) :
    Prospect ⟨q.env, q.job, q.processes.claimed i inv now reply⟩ i { inv with
      phase := .claimed (afterClaim inv.runtime inv.env inv.ctx
        (reply.answer q.processes.db (claimStatement inv.env inv.ctx now))) } := by
  have survives : ∀ e, reply.answer q.processes.db (claimStatement inv.env inv.ctx now) = .error e →
      (inv.claimExecutes q.processes.db now reply &&
        (q.processes.db.delivery? inv.env).any fun r => !r.status.isTerminal) = false →
      settled inv.ctx (some (mapSql e "fetch delivery")) ≠ .dead := by
    intro e failed unstamped
    have left : endsJob inv.ctx e = false := by
      simp only [fatalClaim, running, found, failed, endsWith, unstamped, Option.any_some,
        decide_true, Bool.true_and, Bool.not_false, Bool.and_true] at spared
      exact spared
    simp [settled_mapSql, left]
  cases claimed_effect q.processes i inv now reply with
  | quiet e none failed =>
    rw [failed]
    intro dead
    exact absurd dead (survives e failed (by simp [none]))
  | refused done closed heard db history =>
    have executed : ∃ did, Executed.claim i q.env did ∈
        (q.processes.claimed i inv now reply).history :=
      ⟨false, by rw [history, own]; exact List.mem_cons_self⟩
    rcases heard with ok | ⟨e, failed⟩
    · rw [ok]
      cases row : q.processes.db.delivery? inv.env with
      | none =>
        have gone : notSent ((q.processes.claimed i inv now reply).db.delivery? q.env) = true := by
          rw [db, ← own, row]
          rfl
        cases event : q.processes.db.event? inv.env.eventId with
        | none =>
          simp only [Option.map_none, claimSelect, event, afterClaim]
          exact fun _ => ⟨executed, gone⟩
        | some e =>
          simp only [Option.map_none, Option.map_some, claimSelect, event, afterClaim]
          exact fun _ => ⟨executed, gone⟩
      | some r =>
        have terminal : r.status.isTerminal = true := by simpa [row] using closed
        rw [Option.map_some, afterClaim_terminal row terminal]
        intro dead
        cases dead
    · rw [failed]
      intro dead
      refine absurd dead (survives e failed ?_)
      cases row : q.processes.db.delivery? inv.env with
      | none => simp
      | some r => simpa [row, done] using closed
  | stamped r done stored live heard rows history =>
    have executed : ∃ did, Executed.claim i q.env did ∈
        (q.processes.claimed i inv now reply).history :=
      ⟨true, by rw [history, own]; exact List.mem_cons_self⟩
    have running' : notSent ((q.processes.claimed i inv now reply).db.delivery? q.env) = true := by
      rw [rows, if_pos own.symm]
      rfl
    simp only [Prospect]
    split
    · next mark verdict decided => exact matched_afterClaim (Phase.claimed.inj decided)
    · exact fun _ => ⟨executed, running'⟩
    · trivial

private theorem prospect_mark {q : QueueState} (sound : Sound q) {i : ℕ} {inv : Invocation}
    {now : Timestamp} {reply : Reply} {mark : Mark} {verdict : Verdict}
    (running : q.job = .running i) (found : q.processes.invocations[i]? = some inv)
    (own : inv.env = q.env) (phase : inv.phase = .claimed (.marking mark verdict))
    (matched : Matched inv.ctx mark verdict) (spared : fatalSent q i now reply = false)
    (step : Step q.processes (.mark i now reply)
      (q.processes.marked i inv mark verdict now reply)) :
    Prospect ⟨q.env, q.job, q.processes.marked i inv mark verdict now reply⟩ i { inv with
      phase := .claimed (.returned (afterMark mark verdict (reply.answer q.processes.db
        (mark.statement inv.env inv.ctx.leaseToken now)))) } := by
  obtain ⟨held, stamp⟩ := current_holds sound running found own (by rw [phase]; rfl)
  intro dead
  refine ⟨⟨true, history_grows step stamp⟩, ?_⟩
  change notSent ((q.processes.marked i inv mark verdict now reply).db.delivery? q.env) = true
  cases marked_effect q.processes i inv mark verdict now reply with
  | quiet e none failed db =>
    obtain ⟨r, row, mine⟩ := (Option.any_eq_true _ _).mp held
    rw [db, row]
    simp [notSent, (holds_running mine).1]
  | fencedOut done free =>
    rw [own, held] at free
    cases free
  | effective r n done stored mine heard rows =>
    rw [rows, if_pos own.symm]
    have unsent : mark.status ≠ .sent := by
      rcases heard with ok | ⟨e, failed⟩
      · rw [ok] at dead
        rcases matched.dead dead with eqn | eqn <;> simp [eqn]
      · intro sent
        have eqn : mark = .sent := by cases mark <;> simp_all [Mark.status]
        subst eqn
        rw [failed] at dead
        simp only [afterMark, mapMarkErr, settled_mapSql] at dead
        have fatal : endsJob inv.ctx e = true := by
          by_contra transient
          simp [transient] at dead
        simp [fatalSent, running, found, phase, failed, endsWith, fatal, done, stored, mine]
          at spared
    simp [notSent, set_status, unsent]

private theorem prospect_bystander {q : QueueState} (sound : Sound q) {i : ℕ} {inv : Invocation}
    {a : WorkerLabel} {w : WorkerState} {alive : Bool} (running : q.job = .running i)
    (found : q.processes.invocations[i]? = some inv) (prospect : Prospect q i inv)
    (ordered : claimsInOrder q.env q.processes a = true) (step : Step q.processes a w) :
    Prospect ⟨q.env, q.job, w⟩ i { inv with alive := alive } := by
  -- An invocation that does not act keeps its prospect, since a settled row is frozen.
  simp only [Prospect] at prospect ⊢
  cases phase : inv.phase with
  | claiming => trivial
  | claimed progress =>
    cases progress with
    | invoking handler payload hctx => trivial
    | marking mark verdict => simpa [phase] using prospect
    | returned verdict =>
      intro dead
      simp only [phase] at prospect
      obtain ⟨executed, unsent⟩ := prospect dead
      have ended : Settled q i inv :=
        ⟨found, by rw [phase]; rfl, sound.latest i running, executed⟩
      obtain ⟨did, claim⟩ := executed
      refine ⟨⟨did, history_grows step claim⟩, ?_⟩
      rw [settled_row sound.guarded sound.newest ended ordered step]
      exact unsent

private theorem newest_kept {s t : WorkerState} {env : HandlerEnvelope} {a : WorkerLabel} {i : ℕ}
    (other : handsOut env a = false) (step : Step s a t)
    (newest : ∀ k inv, s.invocations[k]? = some inv → inv.env = env → k ≤ i) :
    ∀ k inv, t.invocations[k]? = some inv → inv.env = env → k ≤ i := by
  intro k inv found own
  rcases origin step found with ⟨inv', before, same⟩ | ⟨rt, ctx, rfl⟩
  · exact newest k inv' before (same.trans own)
  · simp [handsOut, own] at other

private theorem sound_work {q : QueueState} (sound : Sound q) {a : WorkerLabel} {w : WorkerState}
    (fresh : freshToken q.processes a = true) (other : handsOut q.env a = false)
    (allowed : harmless q (.work a) = true) (step : Step q.processes a w) :
    Sound ⟨q.env, q.job, w⟩ := by
  simp only [harmless, Bool.and_eq_true] at allowed
  obtain ⟨ordered, spared⟩ := allowed
  refine ⟨sound.guarded.step fresh step,
    newestLast_step sound.guarded sound.newest fresh step ordered, ?_, ?_, ?_⟩
  · intro i running
    exact newest_kept other step (sound.latest i running)
  · intro i running
    obtain ⟨inv, found, own, prospect⟩ := sound.current i running
    by_cases acts : actor a = some i
    · -- the lease holder itself moves: one case per kind of step
      cases step with
      | handOut => cases acts
      | claim k inv' now reply found' alive phase =>
        cases Option.some.inj acts
        rw [found] at found'
        cases Option.some.inj found'
        exact ⟨_, (setPhase_get found _ _).trans (if_pos rfl), own,
          prospect_claim running found own (by simpa using spared)⟩
      | handler k inv' world handler payload hctx found' alive phase =>
        cases Option.some.inj acts
        rw [found] at found'
        cases Option.some.inj found'
        exact ⟨_, (setPhase_get found _ _).trans (if_pos rfl), own, matched_afterHandler _ _ _⟩
      | mark k inv' now reply mark verdict found' alive phase =>
        cases Option.some.inj acts
        rw [found] at found'
        cases Option.some.inj found'
        have matched : Matched inv.ctx mark verdict := by simpa [Prospect, phase] using prospect
        exact ⟨_, (setPhase_get found _ _).trans (if_pos rfl), own,
          prospect_mark sound running found own phase matched (by simpa using spared)
            (.mark i inv now reply mark verdict found alive phase)⟩
      | crash => cases acts
    · obtain ⟨alive, kept⟩ := bystander step found acts
      exact ⟨_, kept, own, prospect_bystander sound running found prospect ordered step⟩
  · intro dead
    obtain ⟨⟨i, inv, ended⟩, unsent⟩ := sound.buried dead
    obtain ⟨alive, kept⟩ :=
      bystander step ended.found (not_actor_of_ended step ended.found ended.ended)
    obtain ⟨did, claim⟩ := ended.executed
    refine ⟨⟨i, _, kept, ended.ended, newest_kept other step ended.newest,
      ⟨did, history_grows step claim⟩⟩, ?_⟩
    change notSent (w.db.delivery? q.env) = true
    rw [settled_row sound.guarded sound.newest ended ordered step]
    exact unsent

private theorem Sound.step {q q' : QueueState} {a : QueueLabel} (sound : Sound q)
    (fresh : freshTokens q a = true) (allowed : harmless q a = true) (step : QueueStep q a q') :
    Sound q' := by
  cases step with
  | deliver rt ctx pending w step =>
    have fresh : freshToken q.processes (.handOut rt q.env ctx) = true := fresh
    refine ⟨sound.guarded.step fresh step,
      newestLast_step sound.guarded sound.newest fresh step rfl, ?_, ?_, by simp⟩
    · intro i running k inv found own
      cases JobStatus.running.inj running
      cases step
      rcases handOut_get found with before | ⟨rfl, -⟩
      · exact Nat.le_of_lt (lt_of_found before)
      · exact Nat.le_refl _
    · intro i running
      cases JobStatus.running.inj running
      cases step
      exact ⟨⟨rt, q.env, ctx, .claiming, true⟩, by simp, rfl, trivial⟩
  | work a other w step => exact sound_work sound fresh other allowed step
  | settle i inv verdict running found alive phase =>
    obtain ⟨inv', found', own, prospect⟩ := sound.current i running
    rw [found] at found'
    cases Option.some.inj found'
    refine ⟨sound.guarded, sound.newest, ?_, ?_, ?_⟩
    · intro k current
      exact absurd current (settled_ne_running _ _ _)
    · intro k current
      exact absurd current (settled_ne_running _ _ _)
    · intro dead
      simp only [Prospect, phase] at prospect
      obtain ⟨executed, unsent⟩ := prospect dead
      exact ⟨⟨i, inv, found, by rw [phase]; rfl, sound.latest i running, executed⟩, unsent⟩
  | reap i running => exact ⟨sound.guarded, sound.newest, by simp, by simp, by simp⟩

/-- The state that must not occur: the queue gave the job up although the row says sent. -/
def deadButSent (q : QueueState) : Bool :=
  q.job = .dead && (q.processes.db.delivery? q.env).any fun r => r.status = .sent

/-- In every run of harmless steps no dead job stands beside a sent row. -/
theorem never_dead_but_sent {db : Database} {env : HandlerEnvelope} {as : List QueueLabel}
    (meets : leasedQueue.Along (fun q a _ => harmless q a = true) (.start db env) as)
    {q : QueueState} (reached : leasedQueue.run (.start db env) as = some q) :
    deadButSent q = false := by
  have sound : Sound q := by
    refine Machine.run_invariant_along ?_ (sound_start db env) meets reached
    intro p a p' sound allowed taken
    obtain ⟨fresh, step⟩ := Machine.restrict_step.mp taken
    exact sound.step fresh allowed (queueStep_sound step)
  by_contra bad
  simp only [deadButSent, Bool.not_eq_false, Bool.and_eq_true, decide_eq_true_eq] at bad
  obtain ⟨r, row, sent⟩ := (Option.any_eq_true _ _).mp bad.2
  have unsent := (sound.buried bad.1).2
  rw [row] at unsent
  simp only [notSent, Option.all_some, decide_eq_true_eq] at unsent sent
  exact unsent sent

/-- The first claim's `mark_sent_fenced` is applied but its answer is lost. -/
def lostAnswerRun (attempt : UInt32) : List QueueLabel :=
  [.deliver sampleRuntime (sampleContext attempt 101#128), .work (.claim 0 1 .answered),
   .work (.handler 0 0), .work (.mark 0 2 (.lost (.io "connection reset"))), .settle]

theorem lost_answer_first_attempt :
    ∃ q, leasedQueue.run (.start sampleDatabase sampleEnv) (lostAnswerRun 1) = some q ∧
      q.job = .pending ∧ deadButSent q = false := by
  have seen : (leasedQueue.run (.start sampleDatabase sampleEnv) (lostAnswerRun 1)).map
      QueueState.job = some .pending := by
    decide
  have meets : leasedQueue.Along (fun q a _ => harmless q a = true)
      (.start sampleDatabase sampleEnv) (lostAnswerRun 1) :=
    Machine.along_of_check (by decide)
  obtain ⟨q, reached, pending⟩ := Option.map_eq_some_iff.mp seen
  exact ⟨q, reached, pending, never_dead_but_sent meets reached⟩

/-- On the last attempt the same answer makes the job dead. -/
theorem lost_answer_last_attempt :
    (leasedQueue.run (.start sampleDatabase sampleEnv) (lostAnswerRun 5)).map deadButSent =
      some true := by
  decide

end RustEvents.Queue.LostAnswers
