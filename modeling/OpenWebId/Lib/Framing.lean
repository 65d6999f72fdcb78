import Mathlib

/-!
# The loop that walks a run of frames

`while data: …; data = data[n:]` over a buffer, where one turn of the loop reads a
value from the front of the buffer and says how much it took, or stops the loop. The
loop is `whileData`, with a bound on the turns taken: `none` is a loop that has not
ended within it, so a turn that takes nothing shows as a loop that never ends.

Two facts about the turn carry the loop. `Delimits read frame value`: in front of any
bytes at all, the frame is read whole and nothing else is, which is what makes a run
of frames come apart again (`whileData_flatten`). `Advances read`: on a buffer with
something in it the turn raises nothing, and what it takes is at least one byte and
at most what is there, which is what makes the loop end on every buffer and account
for every byte of it (`whileData_advances`).
-/

namespace OpenWebId.Lib

universe u v w

variable {α : Type u} {β : Type v} {ε : Type w}

/-- The loop over a buffer: the pieces stepped over, each with what was read there, and
what was left when the loop ended. -/
def whileData (read : List α → Except ε (Option (β × Nat))) :
    Nat → List α → Except ε (Option (List (List α × β) × List α))
  | _, [] => .ok (some ([], []))
  | 0, _ :: _ => .ok none
  | turns + 1, a :: data =>
    match read (a :: data) with
    | .error e => .error e
    | .ok none => .ok (some ([], a :: data))
    | .ok (some (value, n)) =>
      match whileData read turns ((a :: data).drop n) with
      | .error e => .error e
      | .ok none => .ok none
      | .ok (some (visits, rest)) => .ok (some (((a :: data).take n, value) :: visits, rest))

/-- The frame is read whole from the front of any buffer it starts. -/
def Delimits (read : List α → Except ε (Option (β × Nat))) (frame : List α) (value : β) : Prop :=
  frame ≠ [] ∧ ∀ rest, read (frame ++ rest) = .ok (some (value, frame.length))

/-- A turn on a buffer that is not empty raises nothing and takes some of what is
there, or stops. -/
def Advances (read : List α → Except ε (Option (β × Nat))) : Prop :=
  ∀ data, data ≠ [] → read data = .ok none ∨
    ∃ value n, read data = .ok (some (value, n)) ∧ 1 ≤ n ∧ n ≤ data.length

variable {read : List α → Except ε (Option (β × Nat))}

/-- Where each frame has a value, the run of frames is the frames of a list of visits. -/
theorem exists_visits {P : List α → β → Prop} {frames : List (List α)}
    (h : ∀ frame ∈ frames, ∃ value, P frame value) :
    ∃ visits : List (List α × β), visits.map Prod.fst = frames ∧
      ∀ visit ∈ visits, P visit.1 visit.2 := by
  induction frames with
  | nil => exact ⟨[], rfl, nofun⟩
  | cons frame frames ih =>
    obtain ⟨value, hvalue⟩ := h frame (List.mem_cons_self ..)
    obtain ⟨visits, rfl, hvisits⟩ := ih fun f hf => h f (List.mem_cons_of_mem _ hf)
    refine ⟨(frame, value) :: visits, rfl, fun visit hv => ?_⟩
    rcases List.mem_cons.mp hv with rfl | hv
    · exact hvalue
    · exact hvisits visit hv

/-- A turn that read a frame goes on behind it. -/
theorem whileData_turn {frame rest : List α} {value : β} {turns : Nat}
    (h : Delimits read frame value) :
    whileData read (turns + 1) (frame ++ rest) =
      match whileData read turns rest with
      | .error e => .error e
      | .ok none => .ok none
      | .ok (some (visits, left)) => .ok (some ((frame, value) :: visits, left)) := by
  obtain ⟨hne, hread⟩ := h
  obtain ⟨a, tail, rfl⟩ := List.exists_cons_of_ne_nil hne
  have hrest := hread rest
  rw [List.cons_append] at hrest ⊢
  rw [whileData, hrest]
  simp only [← List.cons_append, List.drop_left, List.take_left]

/-- **A run of frames comes apart into the frames.** With a turn for each byte there
are turns enough, as no frame is empty. -/
theorem whileData_flatten {visits : List (List α × β)}
    (h : ∀ visit ∈ visits, Delimits read visit.1 visit.2) {turns : Nat}
    (hturns : (visits.map Prod.fst).flatten.length ≤ turns) :
    whileData read turns (visits.map Prod.fst).flatten = .ok (some (visits, [])) := by
  induction visits generalizing turns with
  | nil => cases turns <;> rfl
  | cons visit visits ih =>
    obtain ⟨frame, value⟩ := visit
    have hfirst : Delimits read frame value := h _ (List.mem_cons_self ..)
    have hpos : 0 < frame.length := List.length_pos_iff.mpr hfirst.1
    simp only [List.map_cons, List.flatten_cons, List.length_append] at hturns ⊢
    obtain ⟨turns, rfl⟩ : ∃ n, turns = n + 1 := ⟨turns - 1, by omega⟩
    have hrest : whileData read turns (visits.map Prod.fst).flatten = .ok (some (visits, [])) :=
      ih (fun visit hv => h visit (List.mem_cons_of_mem _ hv)) (by omega)
    rw [whileData_turn hfirst, hrest]

/-- **The loop ends on every buffer and loses nothing.** The pieces stepped over and
what is left make up the buffer, and each piece is what a turn took there. -/
theorem whileData_advances (h : Advances read) {data : List α} {turns : Nat}
    (hturns : data.length ≤ turns) :
    ∃ visits rest, whileData read turns data = .ok (some (visits, rest)) ∧
      (visits.map Prod.fst).flatten ++ rest = data ∧
      ∀ visit ∈ visits, visit.1 ≠ [] ∧
        ∃ tail, read (visit.1 ++ tail) = .ok (some (visit.2, visit.1.length)) := by
  induction turns generalizing data with
  | zero =>
    obtain rfl : data = [] := List.length_eq_zero_iff.mp (by omega)
    exact ⟨[], [], rfl, rfl, nofun⟩
  | succ turns ih =>
    cases data with
    | nil => exact ⟨[], [], rfl, rfl, nofun⟩
    | cons a data =>
      rcases h (a :: data) nofun with hstop | ⟨value, n, hread, hpos, hn⟩
      · refine ⟨[], a :: data, ?_, rfl, nofun⟩
        rw [whileData, hstop]
      · have hshorter : ((a :: data).drop n).length ≤ turns := by
          rw [List.length_drop]
          omega
        obtain ⟨visits, rest, hwalk, hflat, hvisits⟩ := ih hshorter
        have hpiece : ((a :: data).take n).length = n := by
          rw [List.length_take]
          omega
        refine ⟨((a :: data).take n, value) :: visits, rest, ?_, ?_, ?_⟩
        · rw [whileData, hread]
          simp only [hwalk]
        · rw [List.map_cons, List.flatten_cons, List.append_assoc, hflat,
            List.take_append_drop]
        · intro visit hv
          rcases List.mem_cons.mp hv with rfl | hv
          · -- the piece of this turn, read where it lay in the buffer
            show (a :: data).take n ≠ [] ∧ _
            refine ⟨fun hnil => ?_, (a :: data).drop n, ?_⟩
            · rw [hnil, List.length_nil] at hpiece
              omega
            · rw [List.take_append_drop, hread, hpiece]
          · exact hvisits visit hv

end OpenWebId.Lib
