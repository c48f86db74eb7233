/- module: RustEvents/Purge/Cutoffs
   layer: model facts
   source: src/purge.rs (cutoff_from)
   digest: Which retentions have a cutoff: the fallback for oversized ones is itself out of range. -/

import RustEvents.Model.Purge

set_option autoImplicit false
set_option relaxedAutoImplicit false

namespace RustEvents.Purge.Cutoffs

open RustEvents.Foundation.LabelledRuns
open RustEvents.Model.Schema
open RustEvents.Model.Purge

/-- What a purge may expect of its retention at the clock reading `now`. -/
structure Total (now : DateTime) (olderThan : StdDuration) : Prop where
  computed : ∃ cutoff, cutoffFrom now olderThan = some cutoff ∧ cutoff.nanos ≤ now.nanos
  antitone : ∀ shorter : StdDuration, shorter.nanos ≤ olderThan.nanos →
    ∃ cutoff earlier, cutoffFrom now shorter = some cutoff ∧
      cutoffFrom now olderThan = some earlier ∧ earlier.nanos ≤ cutoff.nanos
  oversized : TimeDelta.fromStd olderThan = none → ∀ (kind : PurgeKind) (db : Database),
    ∃ call, PurgeCall.open kind now olderThan = some call ∧
      ∀ vs s, purging.run ⟨call, db⟩ vs = some s → s.db = db

variable (now : DateTime) (olderThan : StdDuration)

private theorem fromStd_fits (fits : (olderThan.nanos : ℤ) ≤ deltaLimit) :
    ∃ d, TimeDelta.fromStd olderThan = some d ∧ d.nanos = olderThan.nanos := by
  rw [TimeDelta.fromStd, dif_pos fits]
  exact ⟨_, rfl, rfl⟩

private theorem fromStd_large (large : deltaLimit < olderThan.nanos) :
    TimeDelta.fromStd olderThan = none :=
  dif_neg (Int.not_le.mpr large)

private theorem range_lt_deltaLimit : now.nanos - minUtc < deltaLimit := by
  have latest := now.fits.2
  simp only [minUtc, maxUtc, deltaLimit] at latest ⊢
  omega

private theorem converts (reached : (olderThan.nanos : ℤ) ≤ now.nanos - minUtc) :
    ∃ d, TimeDelta.fromStd olderThan = some d ∧ d.nanos = olderThan.nanos :=
  fromStd_fits olderThan
    (Int.le_of_lt (Int.lt_of_le_of_lt reached (range_lt_deltaLimit now)))

private theorem cutoffFrom_some (reached : (olderThan.nanos : ℤ) ≤ now.nanos - minUtc) :
    ∃ cutoff, cutoffFrom now olderThan = some cutoff ∧
      cutoff.nanos = now.nanos - olderThan.nanos := by
  obtain ⟨d, converted, same⟩ := converts now olderThan reached
  have latest := now.fits.2
  have inside : minUtc ≤ now.nanos - d.nanos ∧ now.nanos - d.nanos ≤ maxUtc := by
    rw [same]
    omega
  refine ⟨⟨now.nanos - d.nanos, inside⟩, ?_, congrArg (now.nanos - ·) same⟩
  rw [cutoffFrom, converted, Option.getD_some, DateTime.sub, dif_pos inside]

private theorem cutoffFrom_none (beyond : now.nanos - minUtc < olderThan.nanos) :
    cutoffFrom now olderThan = none := by
  have short := range_lt_deltaLimit now
  refine dif_neg fun inside => ?_
  -- A conversion that fails subtracts `TimeDelta::MAX`, which no date can lose either.
  by_cases fits : (olderThan.nanos : ℤ) ≤ deltaLimit
  · obtain ⟨d, converted, same⟩ := fromStd_fits olderThan fits
    rw [converted, Option.getD_some, same] at inside
    omega
  · rw [fromStd_large olderThan (Int.not_le.mp fits), Option.getD_none] at inside
    have lower : minUtc ≤ now.nanos - deltaLimit := inside.1
    omega

private theorem not_total (beyond : now.nanos - minUtc < olderThan.nanos) :
    ¬ Total now olderThan := by
  intro total
  obtain ⟨cutoff, found, -⟩ := total.computed
  rw [cutoffFrom_none now olderThan beyond] at found
  cases found

/-- `Duration::MAX` at the start of 2026-05-13. -/
theorem longest_retention_panics :
    ¬ Total ⟨1778630400 * 10 ^ 9, by decide, by decide⟩
      ⟨2 ^ 64 * 10 ^ 9 - 1, by decide⟩ :=
  not_total _ _ (by decide)

theorem cutoff_total_iff : Total now olderThan ↔ (olderThan.nanos : ℤ) ≤ now.nanos - minUtc := by
  constructor
  · intro total
    by_contra beyond
    exact not_total now olderThan (Int.not_le.mp beyond) total
  · intro reached
    obtain ⟨earlier, found, value⟩ := cutoffFrom_some now olderThan reached
    refine ⟨⟨earlier, found, by omega⟩, ?_, ?_⟩
    · intro shorter le
      obtain ⟨cutoff, sooner, eq⟩ := cutoffFrom_some now shorter (by omega)
      exact ⟨cutoff, earlier, sooner, found, by omega⟩
    · -- Nothing that large is within reach of `now`.
      intro oversized
      obtain ⟨d, converted, -⟩ := converts now olderThan reached
      rw [converted] at oversized
      cases oversized

end RustEvents.Purge.Cutoffs
