/- module: RustEvents/Foundation/Receivers
   layer: library
   digest: A receiver that knows requests by their keys: what is sent at least once takes effect exactly once. -/

import Mathlib.Data.List.AList
import Mathlib.Data.List.Induction

set_option autoImplicit false
set_option relaxedAutoImplicit false

namespace RustEvents.Foundation.Receivers

variable {κ ν ω : Type*} [DecidableEq κ]

/-- A request whose key is known has no further effect. -/
def accept (effects : AList fun _ : κ => ν) (request : κ × ν) : AList fun _ : κ => ν :=
  if request.1 ∈ effects then effects else effects.insert request.1 request.2

/-- The effects of requests that come in this order. -/
def received (requests : List (κ × ν)) : AList fun _ : κ => ν := requests.foldl accept ∅

private theorem received_concat (requests : List (κ × ν)) (request : κ × ν) :
    received (requests ++ [request]) = accept (received requests) request := by
  rw [received, List.foldl_append]
  rfl

private theorem lookup_received (requests : List (κ × ν)) (k : κ) :
    (received requests).lookup k =
      (requests.find? fun request => request.1 = k).map Prod.snd := by
  induction requests using List.reverseRecOn with
  | nil => exact AList.lookup_empty k
  | append_singleton requests request ih =>
    rw [received_concat, List.find?_append, accept]
    by_cases own : request.1 = k
    · subst own
      split
      · next known =>
        obtain ⟨v, stored⟩ := Option.isSome_iff_exists.mp (AList.lookup_isSome.mpr known)
        rw [stored] at ih ⊢
        obtain ⟨first, found, value⟩ := Option.map_eq_some_iff.mp ih.symm
        rw [found, Option.some_or, Option.map_some, value]
      · next unknown =>
        rw [AList.lookup_eq_none.mpr unknown] at ih
        rw [AList.lookup_insert, Option.map_eq_none_iff.mp ih.symm]
        simp
    · have other : [request].find? (fun request => request.1 = k) = none := by simp [own]
      rw [other, Option.or_none, ← ih]
      split
      · rfl
      · exact AList.lookup_insert_ne fun same => own same.symm

theorem received_mem {requests : List (κ × ν)} {k : κ} {v : ν}
    (effect : (received requests).lookup k = some v) : (k, v) ∈ requests := by
  rw [lookup_received] at effect
  obtain ⟨⟨k', v'⟩, found, rfl⟩ := Option.map_eq_some_iff.mp effect
  have own : k' = k := by simpa using List.find?_some found
  subst own
  exact List.mem_of_find?_eq_some found

private theorem received_known {requests : List (κ × ν)} {request : κ × ν}
    (mem : request ∈ requests) : ∃ v, (received requests).lookup request.1 = some v := by
  rw [lookup_received]
  have known : (requests.find? fun other => other.1 = request.1).isSome = true :=
    List.find?_isSome.mpr ⟨request, mem, by simp⟩
  obtain ⟨first, found⟩ := Option.isSome_iff_exists.mp known
  exact ⟨first.2, by rw [found, Option.map_some]⟩

/-- If a key names the owner of a request and every owner keeps to one key, an owner that sends
once or more has exactly one effect. -/
theorem received_once {requests : List (κ × ν)} {owner : ν → ω}
    (stable : ∀ p ∈ requests, ∀ q ∈ requests, owner p.2 = owner q.2 ↔ p.1 = q.1)
    {request : κ × ν} (mem : request ∈ requests) :
    ∃! k, ((received requests).lookup k).map owner = some (owner request.2) := by
  obtain ⟨v, effect⟩ := received_known mem
  have same : owner v = owner request.2 :=
    (stable _ (received_mem effect) _ mem).mpr rfl
  refine ⟨request.1, ?_, ?_⟩
  · change Option.map owner _ = _
    rw [effect, Option.map_some, same]
  · intro k claimed
    obtain ⟨w, effect', owned⟩ := Option.map_eq_some_iff.mp claimed
    exact (stable _ (received_mem effect') _ mem).mp owned

end RustEvents.Foundation.Receivers
