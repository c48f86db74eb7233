/- module: RustEvents/System/SingleStart
   layer: system
   source: src/outbox.rs (Outbox::start, StartedGuard), tests/start_retry_after_failure.rs
   digest: The started flag has one owner at a time, over every interleaving of start calls. -/

import RustEvents.Model.Start

set_option autoImplicit false
set_option relaxedAutoImplicit false

namespace RustEvents.System.SingleStart

open RustEvents.Foundation.LabelledRuns
open RustEvents.Model.Errors
open RustEvents.Model.Builder
open RustEvents.Model.Start

variable {config : OutboxConfig} {maxConnections : UInt32}

/-- A call that the flag is set for: it is in progress, or it has returned `Ok`. -/
def owns (phase : Phase) : Bool := phase.inProgress || phase.succeeded

/-- A call whose swap read `true`. -/
def lost : Phase → Bool
  | .rejected => true
  | .returned (.error .alreadyStarted) => true
  | _ => false

/-- The guard of a call is armed up to `disarm` and not after it. -/
def wellGuarded : Phase → Bool
  | .guarded .disarmed guard => !guard.armed
  | .guarded _ guard => guard.armed
  | _ => true

/-- What one statement of a call does to the flag and to the call's standing. -/
structure Acts (phase next : Phase) (dropped : Option StartedGuard) : Prop where
  guarded : wellGuarded next = true
  owned : owns next = true → owns phase = true
  flag : ∀ started, afterDrop dropped started = if owns phase && !owns next then false else started
  lostness : lost next = lost phase
  harmless : lost phase = true → dropped = none

private theorem acts_stays {stage later : Stage} {guard next : StartedGuard}
    (guarded : wellGuarded (.guarded later next) = true) :
    Acts (.guarded stage guard) (.guarded later next) none where
  guarded := guarded
  owned _ := rfl
  flag _ := rfl
  lostness := rfl
  harmless _ := rfl

private theorem acts_leaves {stage : Stage} {guard : StartedGuard} {next : Phase}
    (armed : guard.armed = true) (left : owns next = false) (unlost : lost next = false)
    (guarded : wellGuarded next = true) :
    Acts (.guarded stage guard) next (some guard) where
  guarded := guarded
  owned owning := by rw [left] at owning; cases owning
  flag started := by
    simp only [afterDrop, Option.elim_some, StartedGuard.drop, armed, left, ↓reduceIte]
    rfl
  lostness := unlost
  harmless losing := by cases losing

private theorem acts_finishes {guard : StartedGuard} (disarmed : guard.armed = false) :
    Acts (.guarded .disarmed guard) (.returned (.ok ())) (some guard) where
  guarded := rfl
  owned _ := rfl
  flag started := by
    simp only [afterDrop, Option.elim_some, StartedGuard.drop, disarmed, Bool.false_eq_true,
      ↓reduceIte]
    rfl
  lostness := rfl
  harmless losing := by cases losing

private theorem act_cases {phase next : Phase} {action : Action} {dropped : Option StartedGuard}
    (guarded : wellGuarded phase = true)
    (acts : act config maxConnections phase action = some (next, dropped)) :
    Acts phase next dropped := by
  unfold act at acts
  split at acts
  · cases acts
    exact ⟨rfl, nofun, fun _ => rfl, rfl, fun _ => rfl⟩
  · cases acts
    exact ⟨rfl, fun _ => rfl, fun _ => rfl, rfl, nofun⟩
  · split at acts
    · cases acts
      exact acts_leaves guarded rfl rfl rfl
    · cases acts
      exact acts_stays guarded
  · split at acts
    · cases acts
      exact acts_leaves guarded rfl rfl rfl
    · cases acts
      exact acts_stays guarded
  · cases acts
    exact acts_leaves guarded rfl rfl rfl
  · cases acts
    exact acts_stays guarded
  · cases acts
    exact acts_leaves guarded rfl rfl rfl
  · cases acts
    exact acts_stays guarded
  · cases acts
    exact acts_stays rfl
  · cases acts
    exact acts_finishes (by simpa [wellGuarded] using guarded)
  -- the five stages that a dropped or unwound future can be in
  iterate 5
    · cases acts
      exact acts_leaves guarded rfl rfl rfl
  · cases acts

/-- The flag tells whether it has an owner, and no two calls own it. -/
structure Owned (s : StartState) (owner : Option ℕ) : Prop where
  guarded : ∀ phase ∈ s.calls, wellGuarded phase = true
  flag : s.started = owner.isSome
  owners : ∀ i, (∃ phase, s.calls[i]? = some phase ∧ owns phase = true) ↔ owner = some i

/-- What one step of the machine is. -/
inductive Steps (s : StartState) : StartLabel → StartState → Prop where
  | refused (taken : s.started = true) : Steps s .swap ⟨true, s.calls ++ [.rejected]⟩
  | admitted (free : s.started = false) : Steps s .swap ⟨true, s.calls ++ [.admitted]⟩
  | acted (call : ℕ) (action : Action) (phase next : Phase) (dropped : Option StartedGuard)
      (found : s.calls[call]? = some phase) (acts : Acts phase next dropped) :
      Steps s (.act call action) ⟨afterDrop dropped s.started, s.calls.set call next⟩

private theorem step_cases {s t : StartState} {a : StartLabel}
    (guarded : ∀ phase ∈ s.calls, wellGuarded phase = true)
    (step : (starts config maxConnections).step s a = some t) : Steps s a t := by
  cases a with
  | swap =>
    cases Option.some.inj step
    cases read : s.started with
    | true => exact .refused read
    | false => exact .admitted read
  | act call action =>
    simp only [starts, StartState.step] at step
    split at step
    · cases step
    · next phase found =>
      obtain ⟨⟨next, dropped⟩, acts, rfl⟩ := Option.map_eq_some_iff.mp step
      exact .acted call action phase next dropped found
        (act_cases (guarded phase (List.mem_of_getElem? found)) acts)

private theorem owner_iff {s : StartState} {owner : Option ℕ} {call : ℕ} {phase : Phase}
    (owned : Owned s owner) (found : s.calls[call]? = some phase) :
    owner = some call ↔ owns phase = true := by
  rw [← owned.owners call]
  constructor
  · rintro ⟨other, again, owning⟩
    rw [found] at again
    cases again
    exact owning
  · exact fun owning => ⟨phase, found, owning⟩

private theorem owned_acted {s : StartState} {owner : Option ℕ} {call : ℕ} {phase next : Phase}
    {dropped : Option StartedGuard} (owned : Owned s owner) (found : s.calls[call]? = some phase)
    (acts : Acts phase next dropped) :
    Owned ⟨afterDrop dropped s.started, s.calls.set call next⟩
      (if owns phase && !owns next then none else owner) := by
  have mine := owner_iff owned found
  have bound : call < s.calls.length := (List.getElem?_eq_some_iff.mp found).1
  refine ⟨?_, ?_, ?_⟩
  · intro other stored
    rcases List.mem_or_eq_of_mem_set stored with old | rfl
    · exact owned.guarded other old
    · exact acts.guarded
  · rw [acts.flag, owned.flag]
    split <;> rfl
  · intro i
    by_cases same : i = call
    · subst same
      have here : (∃ other, (s.calls.set i next)[i]? = some other ∧ owns other = true) ↔
          owns next = true := by
        simp [List.getElem?_set_self bound]
      rw [here]
      cases standing : owns phase with
      | false =>
        have free : owns next ≠ true := fun owning => by
          rw [acts.owned owning] at standing
          cases standing
        simp [free, mine, standing]
      | true => cases kept : owns next <;> simp [mine.mpr standing]
    · rw [List.getElem?_set_ne (Ne.symm same), owned.owners i]
      split
      · next released =>
        rw [mine.mpr (Bool.and_eq_true_iff.mp released).1]
        simp [Ne.symm same]
      · rfl

private theorem owned_entered {s : StartState} {owner : Option ℕ} (owned : Owned s owner)
    {phase : Phase} (guarded : wellGuarded phase = true) (won : owns phase = !s.started) :
    Owned ⟨true, s.calls ++ [phase]⟩ (if s.started then owner else some s.calls.length) := by
  -- A call that enters without winning owns nothing; one that wins owns the flag alone.
  refine ⟨?_, ?_, ?_⟩
  · intro other stored
    rcases List.mem_append.mp stored with old | new
    · exact owned.guarded other old
    · exact List.mem_singleton.mp new ▸ guarded
  · cases taken : s.started with
    | true => exact (taken.symm.trans owned.flag)
    | false => rfl
  · intro i
    rcases Nat.lt_trichotomy i s.calls.length with earlier | rfl | later
    · rw [List.getElem?_append_left earlier, owned.owners i]
      cases taken : s.started with
      | true => rfl
      | false =>
        have empty : owner = none := by simpa [taken] using owned.flag
        simp [empty, Nat.ne_of_gt earlier]
    · have here : (∃ other, (s.calls ++ [phase])[s.calls.length]? = some other ∧
          owns other = true) ↔ owns phase = true := by simp
      rw [here, won]
      cases taken : s.started with
      | true =>
        have absent : owner ≠ some s.calls.length := by
          rw [Ne, ← owned.owners]
          simp
        simp [absent]
      | false => simp
    · have beyond : (s.calls ++ [phase])[i]? = none := by
        rw [List.getElem?_eq_none_iff, List.length_append, List.length_singleton]
        omega
      rw [beyond]
      have absent : owner ≠ some i := by
        rw [Ne, ← owned.owners, List.getElem?_eq_none (Nat.le_of_lt later)]
        simp
      cases s.started <;> simp [absent, Nat.ne_of_lt later]

private theorem owned_step {s t : StartState} {a : StartLabel} (owned : ∃ owner, Owned s owner)
    (step : (starts config maxConnections).step s a = some t) : ∃ owner, Owned t owner := by
  obtain ⟨owner, owned⟩ := owned
  cases step_cases owned.guarded step with
  | refused taken => exact ⟨_, owned_entered owned rfl (by rw [taken]; rfl)⟩
  | admitted free => exact ⟨_, owned_entered owned rfl (by rw [free]; rfl)⟩
  | acted call action phase next dropped found acts => exact ⟨_, owned_acted owned found acts⟩

private theorem owned_initial : Owned .initial none := ⟨nofun, rfl, by simp [StartState.initial]⟩

private theorem owned_run {labels : List StartLabel} {s : StartState}
    (run : (starts config maxConnections).run .initial labels = some s) : ∃ owner, Owned s owner :=
  Machine.run_invariant (fun _ _ _ owned step => owned_step owned step) ⟨none, owned_initial⟩ run

private theorem lost_step {s t : StartState} {a : StartLabel} {call : ℕ} {phase : Phase}
    (owned : ∃ owner, Owned s owner) (step : (starts config maxConnections).step s a = some t)
    (found : s.calls[call]? = some phase) :
    ∃ next, t.calls[call]? = some next ∧ lost next = lost phase := by
  obtain ⟨owner, owned⟩ := owned
  have bound : call < s.calls.length := (List.getElem?_eq_some_iff.mp found).1
  cases step_cases owned.guarded step with
  | refused taken => exact ⟨phase, (List.getElem?_append_left bound).trans found, rfl⟩
  | admitted free => exact ⟨phase, (List.getElem?_append_left bound).trans found, rfl⟩
  | acted other action old next dropped met acts =>
    by_cases same : other = call
    · subst same
      rw [found] at met
      cases met
      exact ⟨next, List.getElem?_set_self bound, acts.lostness⟩
    · exact ⟨phase, (List.getElem?_set_ne same).trans found, rfl⟩

private theorem lost_run {s t : StartState} {labels : List StartLabel} {call : ℕ} {phase : Phase}
    (owned : ∃ owner, Owned s owner) (run : (starts config maxConnections).run s labels = some t)
    (found : s.calls[call]? = some phase) :
    ∃ next, t.calls[call]? = some next ∧ lost next = lost phase := by
  refine (Machine.run_invariant (I := fun u => (∃ owner, Owned u owner) ∧
    ∃ next, u.calls[call]? = some next ∧ lost next = lost phase) ?_
    ⟨owned, phase, found, rfl⟩ run).2
  rintro u a v ⟨kept, next, here, same⟩ step
  obtain ⟨later, there, again⟩ := lost_step kept step here
  exact ⟨owned_step kept step, later, there, again.trans same⟩

/-- The call that a label is a step of; a swap begins a new one. -/
def actor (s : StartState) : StartLabel → ℕ
  | .swap => s.calls.length
  | .act call _ => call

/-- What any number of `start` calls keep to, in the order `labels` that leads to `s`. -/
structure StartsOnce (config : OutboxConfig) (maxConnections : UInt32)
    (labels : List StartLabel) (s : StartState) : Prop where
  oneOk : ∀ (i j : ℕ) (p q : Phase), s.calls[i]? = some p → s.calls[j]? = some q →
    p.succeeded = true → q.succeeded = true → i = j
  oneInProgress : ∀ (i j : ℕ) (p q : Phase), s.calls[i]? = some p → s.calls[j]? = some q →
    p.inProgress = true → q.inProgress = true → i = j
  justified : ∀ before after u, labels = before ++ .swap :: after →
    (starts config maxConnections).run .initial before = some u →
    s.calls[actor u .swap]? = some (.returned (.error .alreadyStarted)) →
      ∃ phase ∈ u.calls, phase.inProgress = true ∨ phase.succeeded = true
  harmless : ∀ before a after u v, labels = before ++ a :: after →
    (starts config maxConnections).run .initial before = some u →
    (starts config maxConnections).step u a = some v →
    s.calls[actor u a]? = some (.returned (.error .alreadyStarted)) →
      u.started = true → v.started = true
  idle : (∀ phase ∈ s.calls, phase.inProgress = false) →
    (s.started = true ↔ ∃ phase ∈ s.calls, phase.succeeded = true)
  admits : (∀ phase ∈ s.calls, phase.inProgress = false ∧ phase.succeeded = false) →
    (starts config maxConnections).step s .swap = some ⟨true, s.calls ++ [.admitted]⟩

private theorem owns_iff {phase : Phase} :
    owns phase = true ↔ phase.inProgress = true ∨ phase.succeeded = true := by
  simp [owns]

private theorem started_iff {s : StartState} (owned : ∃ owner, Owned s owner) :
    s.started = true ↔ ∃ phase ∈ s.calls, owns phase = true := by
  obtain ⟨owner, owned⟩ := owned
  rw [owned.flag, Option.isSome_iff_exists]
  constructor
  · rintro ⟨i, held⟩
    obtain ⟨phase, found, owning⟩ := (owned.owners i).mpr held
    exact ⟨phase, List.mem_of_getElem? found, owning⟩
  · rintro ⟨phase, stored, owning⟩
    obtain ⟨i, found⟩ := List.getElem?_of_mem stored
    exact ⟨i, (owned.owners i).mp ⟨phase, found, owning⟩⟩

private theorem owner_unique {s : StartState} (owned : ∃ owner, Owned s owner) {i j : ℕ}
    {p q : Phase} (first : s.calls[i]? = some p) (second : s.calls[j]? = some q)
    (owning : owns p = true) (other : owns q = true) : i = j := by
  obtain ⟨owner, owned⟩ := owned
  have here := (owner_iff owned first).mpr owning
  have there := (owner_iff owned second).mpr other
  rw [here] at there
  exact Option.some.inj there

private theorem run_split {before after : List StartLabel} {a : StartLabel} {u s : StartState}
    (run : (starts config maxConnections).run .initial (before ++ a :: after) = some s)
    (reached : (starts config maxConnections).run .initial before = some u) :
    ∃ v, (starts config maxConnections).step u a = some v ∧
      (starts config maxConnections).run v after = some s := by
  rw [Machine.run_append, reached] at run
  exact Machine.run_cons.mp run

/-- Single start, over every interleaving and every pattern of failures. -/
theorem single_start (config : OutboxConfig) (maxConnections : UInt32) (labels : List StartLabel)
    (s : StartState) (run : (starts config maxConnections).run .initial labels = some s) :
    StartsOnce config maxConnections labels s := by
  have owned := owned_run run
  refine ⟨?_, ?_, ?_, ?_, ?_, ?_⟩
  · intro i j p q first second done also
    exact owner_unique owned first second (owns_iff.mpr (.inr done)) (owns_iff.mpr (.inr also))
  · intro i j p q first second busy also
    exact owner_unique owned first second (owns_iff.mpr (.inl busy)) (owns_iff.mpr (.inl also))
  · rintro before after u rfl reached rejected
    obtain ⟨v, step, rest⟩ := run_split run reached
    have kept := owned_run reached
    cases taken : u.started with
    | true =>
      obtain ⟨phase, stored, owning⟩ := (started_iff kept).mp taken
      exact ⟨phase, stored, owns_iff.mp owning⟩
    | false =>
      -- an admitted call keeps its standing to the end of the run
      cases Option.some.inj step
      have entered : (u.calls ++ [if u.started then Phase.rejected else .admitted])[
          actor u .swap]? = some .admitted := by simp [actor, taken]
      obtain ⟨last, found, same⟩ := lost_run (owned_step kept step) rest entered
      rw [rejected] at found
      cases found
      cases same
  · rintro before a after u v rfl reached step rejected held
    obtain ⟨w, again, rest⟩ := run_split run reached
    obtain ⟨owner, sound⟩ := owned_run reached
    cases step_cases sound.guarded step with
    | refused taken => rfl
    | admitted free => rfl
    | acted call action phase next dropped found acts =>
      obtain ⟨last, met, same⟩ :=
        lost_run ⟨owner, sound⟩ (Machine.run_cons.mpr ⟨w, again, rest⟩) found
      cases Option.some.inj (met.symm.trans rejected)
      rw [acts.harmless same.symm]
      exact held
  · intro quiet
    rw [started_iff owned]
    constructor
    · rintro ⟨phase, stored, owning⟩
      rcases owns_iff.mp owning with busy | done
      · rw [quiet phase stored] at busy
        cases busy
      · exact ⟨phase, stored, done⟩
    · rintro ⟨phase, stored, done⟩
      exact ⟨phase, stored, owns_iff.mpr (.inr done)⟩
  · intro failed
    have free : s.started = false := by
      rw [← Bool.not_eq_true, started_iff owned]
      rintro ⟨phase, stored, owning⟩
      obtain ⟨idle, undone⟩ := failed phase stored
      rcases owns_iff.mp owning with busy | done
      · exact Bool.false_ne_true (idle.symm.trans busy)
      · exact Bool.false_ne_true (undone.symm.trans done)
    simp [starts, StartState.step, free]

/-- A failure, a second call that is turned away meanwhile, a success and a late call. -/
def restartLabels : List StartLabel :=
  [.swap, .act 0 .arm, .act 0 .size, .swap, .act 0 .abandon, .act 1 .answer,
   .swap, .act 2 .arm, .act 2 .size, .act 2 (.probe (.ok ())), .act 2 (.build (.ok ())),
   .act 2 (.start (.ok ())), .act 2 .disarm, .swap, .act 2 .finish, .act 3 .answer]

def restartedState : StartState :=
  ⟨true, [.abandoned, .returned (.error .alreadyStarted), .returned (.ok ()),
    .returned (.error .alreadyStarted)]⟩

theorem single_start_restarted :
    (starts OutboxConfig.default 40).run .initial restartLabels = some restartedState ∧
      StartsOnce OutboxConfig.default 40 restartLabels restartedState :=
  ⟨rfl, single_start OutboxConfig.default 40 restartLabels restartedState rfl⟩

end RustEvents.System.SingleStart
