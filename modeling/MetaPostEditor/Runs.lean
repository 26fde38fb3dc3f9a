/-!
# Runs of equal keys

A list whose elements carry keys falls apart into runs, the longest stretches of neighbours that
share one key.  Tokens are the runs of scanner states in a text, and spans are the runs of tags in a
buffer.
-/

namespace MetaPostEditor

variable {κ α : Type}

/-- Puts one element in front of a list of runs: it joins the first run if it has that run's key,
and opens a run of its own otherwise. -/
def consRun [DecidableEq κ] (x : κ × α) : List (κ × List α) → List (κ × List α)
  | [] => [(x.1, [x.2])]
  | (key, run) :: rest =>
    if x.1 = key then (key, x.2 :: run) :: rest else (x.1, [x.2]) :: (key, run) :: rest

/-- The runs of equal keys in a list, each with its key. -/
def runs [DecidableEq κ] (xs : List (κ × α)) : List (κ × List α) :=
  xs.foldr consRun []

/-- Putting an element in front of runs puts it in front of what they hold. -/
theorem flatMap_consRun [DecidableEq κ] (x : κ × α) (rs : List (κ × List α)) :
    (consRun x rs).flatMap (fun r => r.2.map (Prod.mk r.1)) =
      x :: rs.flatMap (fun r => r.2.map (Prod.mk r.1)) := by
  obtain ⟨k, a⟩ := x
  match rs with
  | [] => simp [consRun]
  | (key, run) :: rest =>
    by_cases h : k = key
    · subst h
      simp [consRun]
    · simp [consRun, h]

/-- The runs of a list, written out, are the list. -/
theorem flatMap_runs [DecidableEq κ] (xs : List (κ × α)) :
    (runs xs).flatMap (fun r => r.2.map (Prod.mk r.1)) = xs := by
  induction xs with
  | nil => rfl
  | cons x xs ih => rw [runs, List.foldr_cons, flatMap_consRun, ← runs, ih]

/-- No run is empty. -/
theorem ne_nil_of_mem_runs [DecidableEq κ] {xs : List (κ × α)} {r : κ × List α}
    (h : r ∈ runs xs) : r.2 ≠ [] := by
  induction xs generalizing r with
  | nil => simp [runs] at h
  | cons x xs ih =>
    rw [runs, List.foldr_cons, ← runs] at h
    match hrs : runs xs with
    | [] =>
      rw [hrs, consRun, List.mem_singleton] at h
      simp [h]
    | (key, run) :: rest =>
      rw [hrs] at h ih
      rw [consRun] at h
      split at h
      · rcases List.mem_cons.1 h with rfl | h
        · simp
        · exact ih (List.mem_cons_of_mem _ h)
      · rcases List.mem_cons.1 h with rfl | h
        · simp
        · exact ih h

end MetaPostEditor
